import Mtk3Smp.Kernel.State
import Mtk3Smp.Lib.Lts

/-!
# Spin locks of the device drivers

The serial, I2C and ADC drivers share their data with their interrupt handlers under an
ISpinLock (`ser.c`, `i2c_rp2040.c`, `adc_rp2040.c`). Some of these sections call the kernel:
tk_clr_flg on the task's side, tk_set_flg on the handler's. The entry of the kernel lock does
not return to a task that was terminated meanwhile (`smp_lock.c:149`).
-/

namespace Mtk3Smp

/-- Where an activation of driver code is. -/
inductive DrvPc
  | run
  /-- in the loop of ISpinLock; `calls` kernel calls follow inside the section -/
  | spin (l : LockId) (calls : Nat)
  /-- in ISpinUnlock, the lock word cleared -/
  | restore
  /-- in `knl_kernel_lock_enter`, and inside the section of a kernel call -/
  | enter
  | inside
  /-- in the loop after `knl_force_dispatch` -/
  | forced
  deriving DecidableEq

/-- The context of a task or of a handler. -/
structure DrvCtx where
  pc : DrvPc
  /-- the T_SPLOCK it holds and the kernel calls to come before ISpinUnlock -/
  held : Option (LockId × Nat)
  /-- `intsts` of ISpinLock and `_primask_` of BEGIN_CRITICAL_SECTION -/
  intsts : Bool
  primask : Bool
  deriving DecidableEq

def DrvCtx.fresh : DrvCtx := { pc := .run, held := none, intsts := false, primask := false }

/-- What the lifetime calls make of a task. -/
inductive DrvStat
  | nonexist | dormant | alive
  deriving DecidableEq

structure DrvSys where
  /-- the T_SPLOCK words -/
  splock : LockId → Bool
  /-- the holder of the kernel lock -/
  klock : Option Core
  stat : Tid → DrvStat
  ctx : Tid → DrvCtx
  cur : PerCore Tid
  /-- the handlers nested on a core, innermost first -/
  irqs : PerCore (List DrvCtx)
  primask : PerCore Bool

inductive DrvEvent
  /-- ISpinLock of a section with `calls` kernel calls, and a round of its loop -/
  | spinLock (c : Core) (l : LockId) (calls : Nat)
  | spin (c : Core)
  /-- ISpinUnlock: the store, then `set_primask` -/
  | spinUnlock (c : Core)
  | restore (c : Core)
  /-- BEGIN_CRITICAL_SECTION of a kernel call, the lock won, END_CRITICAL_SECTION -/
  | call (c : Core)
  | acquire (c : Core)
  | leave (c : Core)
  /-- inside a kernel call of core `c` -/
  | terTsk (c : Core) (t : Tid)
  | delTsk (c : Core) (t : Tid)
  | creTsk (c : Core) (t : Tid)
  | staTsk (c : Core) (t : Tid)
  | irq (c : Core)
  | iret (c : Core)
  /-- DI, EI -/
  | setPrimask (c : Core) (p : Bool)
  /-- PendSV: core `c` leaves the context of its task for that of `t` -/
  | dispatch (c : Core) (t : Tid)

namespace DrvSys

variable (s : DrvSys) (c : Core)

/-- The context that core `c` executes. -/
def top : DrvCtx :=
  match s.irqs c with
  | [] => s.ctx (s.cur c)
  | x :: _ => x

def setTop (x : DrvCtx) : DrvSys :=
  match s.irqs c with
  | [] => { s with ctx := Function.update s.ctx (s.cur c) x }
  | _ :: rest => { s with irqs := s.irqs.set c (x :: rest) }

/-- The dead-task test of `knl_kernel_lock_enter`. -/
def deadTask : Bool := (s.irqs c).isEmpty && s.stat (s.cur c) != .alive

/-- `t` is current on no core. -/
def away (t : Tid) : Bool := s.cur .core0 != t && s.cur .core1 != t

def step : DrvEvent → Option DrvSys
  | .spinLock c l calls =>
    match s.top c with
    | ⟨.run, none, _, p⟩ =>
      some { s.setTop c ⟨.spin l calls, none, s.primask c, p⟩ with
        primask := s.primask.set c true }
    | _ => none
  | .spin c =>
    match s.top c with
    | ⟨.spin l calls, none, i, p⟩ =>
      if s.splock l then some s
      else
        some { s.setTop c ⟨.run, some (l, calls), i, p⟩ with
          splock := Function.update s.splock l true }
    | _ => none
  | .spinUnlock c =>
    match s.top c with
    | ⟨.run, some (l, 0), i, p⟩ =>
      some { s.setTop c ⟨.restore, none, i, p⟩ with
        splock := Function.update s.splock l false }
    | _ => none
  | .restore c =>
    match s.top c with
    | ⟨.restore, none, i, p⟩ =>
      some { s.setTop c ⟨.run, none, i, p⟩ with primask := s.primask.set c i }
    | _ => none
  | .call c =>
    match s.top c with
    | ⟨.run, h, i, _⟩ =>
      if h.any fun x => x.2 == 0 then none
      else
        some { s.setTop c ⟨.enter, h, i, s.primask c⟩ with
          primask := s.primask.set c true }
    | _ => none
  | .acquire c =>
    match s.top c with
    | ⟨.enter, h, i, p⟩ =>
      if s.klock.isSome then none
      else if s.deadTask c then
        -- the lock is given back, PendSV pended and interrupts enabled
        some { s.setTop c ⟨.forced, h, i, p⟩ with primask := s.primask.set c false }
      else
        some { s.setTop c ⟨.inside, h.map fun x => (x.1, x.2 - 1), i, p⟩ with
          klock := some c }
    | _ => none
  | .leave c =>
    match s.top c with
    | ⟨.inside, h, i, p⟩ =>
      some { s.setTop c ⟨.run, h, i, p⟩ with klock := none, primask := s.primask.set c p }
    | _ => none
  | .terTsk c t =>
    -- CHECK_NONSELF
    if (s.top c).pc = .inside ∧ s.stat t = .alive ∧ (s.irqs c = [] → t ≠ s.cur c) then
      some { s with stat := Function.update s.stat t .dormant }
    else none
  | .delTsk c t =>
    if (s.top c).pc = .inside ∧ s.stat t = .dormant then
      some { s with stat := Function.update s.stat t .nonexist }
    else none
  | .creTsk c t =>
    if (s.top c).pc = .inside ∧ s.stat t = .nonexist ∧ s.away t then
      some { s with stat := Function.update s.stat t .dormant }
    else none
  | .staTsk c t =>
    if (s.top c).pc = .inside ∧ s.stat t = .dormant ∧ s.away t then
      some { s with
        stat := Function.update s.stat t .alive
        ctx := Function.update s.ctx t .fresh }
    else none
  | .irq c => if s.primask c then none else some { s with irqs := s.irqs.set c (.fresh :: s.irqs c) }
  | .iret c =>
    match s.irqs c with
    | ⟨.run, none, _, _⟩ :: rest => some { s with irqs := s.irqs.set c rest }
    | _ => none
  | .setPrimask c p =>
    match s.top c with
    | ⟨.run, none, _, _⟩ => some { s with primask := s.primask.set c p }
    | _ => none
  | .dispatch c t =>
    if (s.irqs c).isEmpty ∧ s.primask c = false ∧ s.away t ∧ s.stat t = .alive then
      some { s with cur := s.cur.set c t }
    else none

/-- No driver section open; the cores run tasks 0 and 1. -/
def boot : DrvSys :=
  { splock := fun _ => false
    klock := none
    stat := fun t => if t < 2 then .alive else .nonexist
    ctx := fun _ => .fresh
    cur := .ofFn fun c => match c with | .core0 => 0 | .core1 => 1
    irqs := .ofFn fun _ => []
    primask := .ofFn fun _ => false }

end DrvSys

def drvMachine : Lts DrvSys DrvEvent where
  init s := s = .boot
  step := DrvSys.step

/-- A context that is not on a core holds no T_SPLOCK, and a held T_SPLOCK is held by a
context that is being executed. -/
structure NoSpinLeak (s : DrvSys) : Prop where
  away : ∀ t, (∀ c, s.cur c ≠ t) → (s.ctx t).held = none
  held : ∀ l, s.splock l = true → ∃ c n, (s.top c).held = some (l, n)

/-- A task that wins the kernel lock inside a spin-locked section is alive. -/
def AliveEntry (s : DrvSys) (e : DrvEvent) : Prop :=
  ∀ c, e = .acquire c → (s.top c).held ≠ none → s.deadTask c = false

/-! ## The invariant -/

/-- A context that cannot be interrupted: its core has PRIMASK set. -/
def DrvCtx.busy (x : DrvCtx) : Prop :=
  x.held ≠ none ∨ (x.pc ≠ .run ∧ x.pc ≠ .forced)

/-- A kernel call inside a spin-locked section returns to it with PRIMASK set. -/
def DrvCtx.Saved (x : DrvCtx) : Prop :=
  x.held ≠ none → x.pc = .enter ∨ x.pc = .inside → x.primask = true

theorem DrvCtx.saved_of_idle {x : DrvCtx} (h : ¬ x.busy) : x.Saved := fun hh => absurd (.inl hh) h

structure DrvInv (s : DrvSys) : Prop where
  cur_ne : ∀ c, s.cur c ≠ s.cur c.other
  masked : ∀ c, (s.top c).busy → s.primask c = true
  saved : ∀ c, (s.top c).Saved
  /-- under the innermost handler nothing is held -/
  below : ∀ c, ∀ x ∈ (s.irqs c).tail, ¬ x.busy
  task : ∀ c, s.irqs c ≠ [] → ¬ (s.ctx (s.cur c)).busy
  away : ∀ t, (∀ c, s.cur c ≠ t) → ¬ (s.ctx t).busy
  held : ∀ l, s.splock l = true → ∃ c n, (s.top c).held = some (l, n)

section

variable {s s' : DrvSys} {c d : Core} {x : DrvCtx}

theorem top_setTop (s : DrvSys) (c : Core) (x : DrvCtx) : (s.setTop c x).top c = x := by
  unfold DrvSys.setTop DrvSys.top
  cases h : s.irqs c <;> simp [h]

theorem setTop_other (hne : s.cur c ≠ s.cur c.other) (x : DrvCtx) :
    (s.setTop c x).top c.other = s.top c.other := by
  unfold DrvSys.setTop DrvSys.top
  cases h : s.irqs c <;> simp [Function.update_of_ne hne.symm]

theorem setTop_fields (s : DrvSys) (c : Core) (x : DrvCtx) :
    (s.setTop c x).cur = s.cur ∧ (s.setTop c x).splock = s.splock ∧
      (s.setTop c x).primask = s.primask ∧
      ∀ d, (s.setTop c x).irqs d = [] ↔ s.irqs d = [] := by
  unfold DrvSys.setTop
  cases h : s.irqs c with
  | nil => simp
  | cons y rest =>
    refine ⟨rfl, rfl, rfl, fun d => ?_⟩
    by_cases hd : d = c
    · subst hd
      simp [h]
    · simp [hd]

@[simp] theorem setTop_primask (s : DrvSys) (c : Core) (x : DrvCtx) :
    (s.setTop c x).primask = s.primask :=
  (setTop_fields s c x).2.2.1

@[simp] theorem setTop_splock (s : DrvSys) (c : Core) (x : DrvCtx) :
    (s.setTop c x).splock = s.splock :=
  (setTop_fields s c x).2.1

theorem setTop_tail (s : DrvSys) (c d : Core) (x : DrvCtx) :
    ((s.setTop c x).irqs d).tail = (s.irqs d).tail := by
  unfold DrvSys.setTop
  cases h : s.irqs c with
  | nil => rfl
  | cons y rest =>
    by_cases hd : d = c
    · subst hd
      simp [h]
    · simp [hd]

/-- The innermost context of core `c` moves on; `p` is the PRIMASK of the core and `sp` the
lock words after the step. -/
theorem DrvInv.move (inv : DrvInv s) {p : PerCore Bool} {sp : LockId → Bool} {k : Option Core}
    (hp : p c.other = s.primask c.other) (hm : x.busy → p c = true) (hs : x.Saved)
    (hx : ∀ l, sp l = true → (∃ n, x.held = some (l, n)) ∨
      (s.splock l = true ∧ ∀ n, (s.top c).held ≠ some (l, n))) :
    DrvInv { s.setTop c x with primask := p, splock := sp, klock := k } := by
  obtain ⟨hcur, -, -, hirqs⟩ := setTop_fields s c x
  have htop : ∀ d, DrvSys.top { s.setTop c x with primask := p, splock := sp, klock := k } d =
      (s.setTop c x).top d := fun _ => rfl
  refine ⟨?_, fun d => ?_, fun d => ?_, fun d => ?_, fun d hd => ?_, fun t ht => ?_,
    fun l hl => ?_⟩
  · rw [hcur]
    exact inv.cur_ne
  · rw [htop]
    rcases Core.eq_or_other c d with rfl | rfl
    · rw [top_setTop]
      exact hm
    · rw [setTop_other (inv.cur_ne c)]
      intro hb
      exact hp.trans (inv.masked _ hb)
  · rw [htop]
    rcases Core.eq_or_other c d with rfl | rfl
    · rw [top_setTop]
      exact hs
    · rw [setTop_other (inv.cur_ne c)]
      exact inv.saved _
  · rw [setTop_tail]
    exact inv.below d
  · have hd' : s.irqs d ≠ [] := fun h0 => hd ((hirqs d).2 h0)
    have := inv.task d hd'
    rw [hcur]
    unfold DrvSys.setTop
    cases h : s.irqs c with
    | cons y rest => simpa using this
    | nil =>
      have hne : d ≠ c := by
        rintro rfl
        exact hd' h
      obtain rfl := Core.eq_other hne
      simpa [Function.update_of_ne (inv.cur_ne c).symm] using this
  · rw [hcur] at ht
    have := inv.away t ht
    unfold DrvSys.setTop
    cases h : s.irqs c with
    | cons y rest => simpa using this
    | nil => simpa [Function.update_of_ne (ht c).symm] using this
  · rcases hx l hl with ⟨n, hn⟩ | ⟨hold, hnot⟩
    · exact ⟨c, n, by rw [htop, top_setTop]; exact hn⟩
    · obtain ⟨d, n, hn⟩ := inv.held l hold
      have hd : d = c.other := by
        refine Core.eq_other ?_
        rintro rfl
        exact hnot n hn
      subst hd
      exact ⟨_, n, by rw [htop, setTop_other (inv.cur_ne c)]; exact hn⟩

/-- A step that leaves the locks to their holders. -/
theorem DrvInv.move_keep (inv : DrvInv s) {p : PerCore Bool} {k : Option Core}
    (hp : p c.other = s.primask c.other) (hm : x.busy → p c = true) (hs : x.Saved)
    (hx : ∀ l n, (s.top c).held = some (l, n) → ∃ m, x.held = some (l, m)) :
    DrvInv { s.setTop c x with primask := p, klock := k } := by
  have := inv.move (k := k) hp hm hs fun l (hl : s.splock l = true) => by
    by_cases hc : ∃ n, (s.top c).held = some (l, n)
    · obtain ⟨n, hn⟩ := hc
      exact .inl (hx l n hn)
    · exact .inr ⟨hl, fun n hn => hc ⟨n, hn⟩⟩
  rw [← setTop_splock s c x] at this
  exact this

theorem busy_fresh : ¬ DrvCtx.fresh.busy := by simp [DrvCtx.busy, DrvCtx.fresh]

theorem setTop_stat (s : DrvSys) (c : Core) (x : DrvCtx) : (s.setTop c x).stat = s.stat := by
  unfold DrvSys.setTop
  cases s.irqs c <;> rfl

/-- The lifetime calls: only `stat` changes. -/
theorem DrvInv.of_stat (inv : DrvInv s) (st : Tid → DrvStat) : DrvInv { s with stat := st } :=
  ⟨inv.cur_ne, inv.masked, inv.saved, inv.below, inv.task, inv.away, inv.held⟩

theorem away_iff {t : Tid} : s.away t = true ↔ ∀ c, s.cur c ≠ t := by
  constructor
  · intro h c
    cases c <;> simp_all [DrvSys.away]
  · intro h
    simp [DrvSys.away, h]

/-- A task that is on no core starts with a fresh context. -/
theorem DrvInv.start (inv : DrvInv s) {t : Tid} (ht : ∀ c, s.cur c ≠ t) (st : Tid → DrvStat) :
    DrvInv { s with stat := st, ctx := Function.update s.ctx t .fresh } := by
  have hctx : ∀ c, Function.update s.ctx t .fresh (s.cur c) = s.ctx (s.cur c) := fun c =>
    Function.update_of_ne (ht c) _ _
  have htop : ∀ c, DrvSys.top { s with stat := st, ctx := Function.update s.ctx t .fresh } c =
      s.top c := by
    intro c
    unfold DrvSys.top
    cases s.irqs c with
    | nil => exact hctx c
    | cons y rest => rfl
  refine ⟨inv.cur_ne, fun c => ?_, fun c => ?_, inv.below, fun c hc => ?_, fun u hu => ?_,
    fun l hl => ?_⟩
  · rw [htop]
    exact inv.masked c
  · rw [htop]
    exact inv.saved c
  · show ¬ (Function.update s.ctx t .fresh (s.cur c)).busy
    rw [hctx]
    exact inv.task c hc
  · show ¬ (Function.update s.ctx t .fresh u).busy
    by_cases equal : u = t
    · subst equal
      rw [Function.update_self]
      exact busy_fresh
    · rw [Function.update_of_ne equal]
      exact inv.away u hu
  · obtain ⟨c, n, hn⟩ := inv.held l hl
    exact ⟨c, n, by rw [htop]; exact hn⟩

/-- A context with nothing to lose: nothing is busy on a core with interrupts enabled. -/
theorem DrvInv.idle (inv : DrvInv s) (hp : s.primask c = false) : ¬ (s.top c).busy := fun hb => by
  simp [inv.masked c hb] at hp

/-- The handlers of core `c` change under a context that is not busy. -/
theorem DrvInv.of_irqs (inv : DrvInv s) {xs : List DrvCtx} (hold : ¬ (s.top c).busy)
    (hxs : ∀ x ∈ xs, ¬ x.busy) (htask : ¬ (s.ctx (s.cur c)).busy) :
    DrvInv { s with irqs := s.irqs.set c xs } := by
  have hother : DrvSys.top { s with irqs := s.irqs.set c xs } c.other = s.top c.other := by
    simp [DrvSys.top]
  have hown : ¬ (DrvSys.top { s with irqs := s.irqs.set c xs } c).busy := by
    cases xs with
    | nil => simpa [DrvSys.top] using htask
    | cons y rest => simpa [DrvSys.top] using hxs y (by simp)
  refine ⟨inv.cur_ne, fun d => ?_, fun d => ?_, fun d x hx => ?_, fun d hd => ?_, inv.away,
    fun l hl => ?_⟩
  · rcases Core.eq_or_other c d with rfl | rfl
    · intro hb
      exact absurd hb hown
    · rw [hother]
      exact inv.masked _
  · rcases Core.eq_or_other c d with rfl | rfl
    · exact DrvCtx.saved_of_idle hown
    · rw [hother]
      exact inv.saved _
  · rcases Core.eq_or_other c d with rfl | rfl
    · have hx' : x ∈ xs.tail := by simpa using hx
      exact hxs x (List.mem_of_mem_tail hx')
    · have hx' : x ∈ (s.irqs c.other).tail := by simpa using hx
      exact inv.below _ x hx'
  · rcases Core.eq_or_other c d with rfl | rfl
    · exact htask
    · exact inv.task _ (by simpa using hd)
  · obtain ⟨d, n, hn⟩ := inv.held l hl
    rcases Core.eq_or_other c d with rfl | rfl
    · exact absurd (.inl (by simp [hn])) hold
    · exact ⟨_, n, by rw [hother]; exact hn⟩

end

theorem drvInv_boot : DrvInv .boot := by
  have htop : ∀ c, DrvSys.boot.top c = .fresh := by
    intro c
    cases c <;> rfl
  refine ⟨fun c => ?_, fun c hb => ?_, fun c => ?_, fun c x hx => ?_, fun c hc => ?_,
    fun t _ => busy_fresh, fun l hl => ?_⟩
  · cases c <;> decide
  · rw [htop] at hb
    exact absurd hb busy_fresh
  · rw [htop]
    exact DrvCtx.saved_of_idle busy_fresh
  · simp [DrvSys.boot] at hx
  · simp [DrvSys.boot] at hc
  · cases hl

/-- PendSV leaves a task that holds nothing and enters one that holds nothing. -/
theorem DrvInv.dispatch {s : DrvSys} (inv : DrvInv s) {c : Core} {t : Tid}
    (hirq : s.irqs c = []) (hp : s.primask c = false) (ht : ∀ d, s.cur d ≠ t) :
    DrvInv { s with cur := s.cur.set c t } := by
  have hleft : ¬ (s.ctx (s.cur c)).busy := by
    have := inv.idle hp
    rwa [DrvSys.top, hirq] at this
  have hother : DrvSys.top { s with cur := s.cur.set c t } c.other = s.top c.other := by
    simp [DrvSys.top]
  have hown : ¬ (DrvSys.top { s with cur := s.cur.set c t } c).busy := by
    simpa [DrvSys.top, hirq] using inv.away t ht
  refine ⟨fun d => ?_, fun d => ?_, fun d => ?_, inv.below, fun d hd => ?_, fun u hu => ?_,
    fun l hl => ?_⟩
  · rcases Core.eq_or_other c d with rfl | rfl
    · simpa using (ht d.other).symm
    · simpa using ht c.other
  · rcases Core.eq_or_other c d with rfl | rfl
    · intro hb
      exact absurd hb hown
    · rw [hother]
      exact inv.masked _
  · rcases Core.eq_or_other c d with rfl | rfl
    · exact DrvCtx.saved_of_idle hown
    · rw [hother]
      exact inv.saved _
  · rcases Core.eq_or_other c d with rfl | rfl
    · exact absurd hirq hd
    · simpa using inv.task _ hd
  · by_cases equal : u = s.cur c
    · subst equal
      exact hleft
    · refine inv.away u fun d => ?_
      rcases Core.eq_or_other c d with rfl | rfl
      · exact fun h => equal h.symm
      · simpa using hu c.other
  · obtain ⟨d, n, hn⟩ := inv.held l hl
    rcases Core.eq_or_other c d with rfl | rfl
    · refine absurd (.inl ?_) (inv.idle hp)
      simp [hn]
    · exact ⟨_, n, by rw [hother]; exact hn⟩

theorem drvInv_step {s s' : DrvSys} {e : DrvEvent} (inv : DrvInv s) (alive : AliveEntry s e)
    (h : s.step e = some s') : DrvInv s' := by
  cases e with
  | spinLock c l calls =>
    simp only [DrvSys.step] at h
    split at h
    · rename_i i p htop
      obtain rfl := Option.some.inj h
      refine inv.move_keep (by simp) (fun _ => by simp) (fun hh => absurd rfl hh) fun l' n hn => ?_
      simp [htop] at hn
    · cases h
  | spin c =>
    simp only [DrvSys.step] at h
    split at h
    · rename_i l calls i p htop
      split at h
      · obtain rfl := Option.some.inj h
        exact inv
      · obtain rfl := Option.some.inj h
        have hp : s.primask c = true := inv.masked c (.inr (by simp [htop]))
        refine inv.move (by simp) (fun _ => by simpa using hp) (fun _ hpc => by simp at hpc)
          fun l' hl' => ?_
        by_cases equal : l' = l
        · exact .inl ⟨calls, by rw [equal]⟩
        · rw [Function.update_of_ne equal] at hl'
          exact .inr ⟨hl', fun n hn => by simp [htop] at hn⟩
    · cases h
  | spinUnlock c =>
    simp only [DrvSys.step] at h
    split at h
    · rename_i l i p htop
      obtain rfl := Option.some.inj h
      have hp : s.primask c = true := inv.masked c (.inl (by simp [htop]))
      refine inv.move (by simp) (fun _ => by simpa using hp) (fun hh => absurd rfl hh)
        fun l' hl' => ?_
      have hne : l' ≠ l := by
        rintro rfl
        simp at hl'
      rw [Function.update_of_ne hne] at hl'
      refine .inr ⟨hl', fun n hn => ?_⟩
      simp only [htop, Option.some.injEq, Prod.mk.injEq] at hn
      exact hne hn.1.symm
    · cases h
  | restore c =>
    simp only [DrvSys.step] at h
    split at h
    · rename_i i p htop
      obtain rfl := Option.some.inj h
      refine inv.move_keep (by simp) (fun hb => ?_) (fun hh => absurd rfl hh) fun l n hn => ?_
      · simp [DrvCtx.busy] at hb
      · simp [htop] at hn
    · cases h
  | call c =>
    simp only [DrvSys.step] at h
    split at h
    · rename_i held i p htop
      split at h
      · cases h
      · obtain rfl := Option.some.inj h
        refine inv.move_keep (by simp) (fun _ => by simp) (fun hh _ => ?_) fun l n hn =>
          ⟨n, by simpa [htop] using hn⟩
        -- inside a section PRIMASK is set when the call saves it
        exact inv.masked c (.inl (by simpa [htop] using hh))
    · cases h
  | acquire c =>
    simp only [DrvSys.step] at h
    split at h
    · rename_i held i p htop
      split at h
      · cases h
      split at h
      · rename_i hdead
        obtain rfl := Option.some.inj h
        have hnone : held = none := by
          by_contra hh
          have := alive c rfl (by simpa [htop] using hh)
          simp [this] at hdead
        subst hnone
        refine inv.move_keep (by simp) (fun hb => ?_) (fun hh => absurd rfl hh) fun l n hn => ?_
        · simp [DrvCtx.busy] at hb
        · simp [htop] at hn
      · obtain rfl := Option.some.inj h
        have hp : s.primask c = true := inv.masked c (.inr (by simp [htop]))
        have hsaved := inv.saved c
        refine inv.move_keep (by simp) (fun _ => by simpa using hp) (fun hh _ => ?_) fun l n hn => ?_
        · rw [htop] at hsaved
          exact hsaved (by simpa using hh) (.inl rfl)
        · obtain rfl : held = some (l, n) := by simpa [htop] using hn
          exact ⟨n - 1, rfl⟩
    · cases h
  | leave c =>
    simp only [DrvSys.step] at h
    split at h
    · rename_i held i p htop
      obtain rfl := Option.some.inj h
      have hsaved := inv.saved c
      rw [htop] at hsaved
      refine inv.move_keep (by simp) (fun hb => ?_) (fun _ hpc => by simp at hpc) fun l n hn =>
        ⟨n, by simpa [htop] using hn⟩
      have hh : held ≠ none := by simpa [DrvCtx.busy] using hb
      simpa using hsaved hh (.inr rfl)
    · cases h
  | terTsk c t =>
    simp only [DrvSys.step] at h
    split at h
    · obtain rfl := Option.some.inj h
      exact inv.of_stat _
    · cases h
  | delTsk c t =>
    simp only [DrvSys.step] at h
    split at h
    · obtain rfl := Option.some.inj h
      exact inv.of_stat _
    · cases h
  | creTsk c t =>
    simp only [DrvSys.step] at h
    split at h
    · obtain rfl := Option.some.inj h
      exact inv.of_stat _
    · cases h
  | staTsk c t =>
    simp only [DrvSys.step] at h
    split at h
    · rename_i hg
      obtain rfl := Option.some.inj h
      exact inv.start (away_iff.1 hg.2.2) _
    · cases h
  | irq c =>
    simp only [DrvSys.step] at h
    split at h
    · cases h
    · rename_i hp
      obtain rfl := Option.some.inj h
      have idle : ¬ (s.top c).busy := inv.idle (by simpa using hp)
      refine inv.of_irqs idle (fun x hx => ?_) ?_
      · rcases List.mem_cons.1 hx with rfl | hx
        · exact busy_fresh
        · cases hi : s.irqs c with
          | nil => simp [hi] at hx
          | cons y rest =>
            rw [hi] at hx
            rcases List.mem_cons.1 hx with rfl | hx
            · rwa [DrvSys.top, hi] at idle
            · exact inv.below c x (by simpa [hi] using hx)
      · cases hi : s.irqs c with
        | nil => rwa [DrvSys.top, hi] at idle
        | cons y rest => exact inv.task c (by simp [hi])
  | iret c =>
    simp only [DrvSys.step] at h
    split at h
    · rename_i i p rest hi
      obtain rfl := Option.some.inj h
      refine inv.of_irqs ?_ (fun x hx => inv.below c x (by simpa [hi] using hx))
        (inv.task c (by simp [hi]))
      simp [DrvSys.top, hi, DrvCtx.busy]
    · cases h
  | setPrimask c p =>
    simp only [DrvSys.step] at h
    split at h
    · rename_i i q htop
      obtain rfl := Option.some.inj h
      have idle : ¬ (s.top c).busy := by simp [htop, DrvCtx.busy]
      refine ⟨inv.cur_ne, fun d hb => ?_, inv.saved, inv.below, inv.task, inv.away, inv.held⟩
      rcases Core.eq_or_other c d with rfl | rfl
      · exact absurd hb idle
      · have := inv.masked _ hb
        simpa using this
    · cases h
  | dispatch c t =>
    simp only [DrvSys.step] at h
    split at h
    · rename_i hg
      obtain rfl := Option.some.inj h
      exact inv.dispatch (by simpa using hg.1) hg.2.1 (away_iff.1 hg.2.2.1)
    · cases h

theorem drvInv_reachable {s : DrvSys} (h : drvMachine.ReachableIf AliveEntry s) : DrvInv s := by
  refine h.invariant DrvInv (fun s h₀ => ?_) fun s e t inv alive ht => ?_
  · obtain rfl : s = .boot := h₀
    exact drvInv_boot
  · exact drvInv_step inv alive ht

/-- Where no terminated task enters the kernel inside a spin-locked section, a core leaves a
context only when it holds no T_SPLOCK. -/
theorem noSpinLeak_of_aliveEntry {s : DrvSys} (h : drvMachine.ReachableIf AliveEntry s) :
    NoSpinLeak s := by
  have inv := drvInv_reachable h
  refine ⟨fun t ht => ?_, inv.held⟩
  by_contra hh
  exact inv.away t ht (.inl hh)

/-- `AliveEntry`, decided. -/
def aliveEntry (s : DrvSys) : DrvEvent → Bool
  | .acquire c => (s.top c).held.isNone || !s.deadTask c
  | _ => true

theorem aliveEntry_sound (s : DrvSys) (e : DrvEvent) (h : aliveEntry s e = true) :
    AliveEntry s e := by
  rintro c rfl hh
  cases hheld : (s.top c).held with
  | none => exact absurd hheld hh
  | some x => simpa [aliveEntry, hheld] using h

/-- Task 0 is inside tk_clr_flg, inside T_SPLOCK 5, when task 1 waits to terminate it. -/
theorem noSpinLeak_of_aliveEntry_nested :
    ∃ s, NoSpinLeak s ∧ s.splock 5 = true ∧ s.klock = some .core0 := by
  obtain ⟨s, reach, hs⟩ := drvMachine.reachable_of_exec (s := .boot)
    (p := fun s => s.splock 5 && s.klock == some .core0) aliveEntry_sound
    [.spinLock .core0 5 1, .spin .core0, .call .core0, .call .core1, .acquire .core0] rfl
    (by decide +kernel)
  simp only [Bool.and_eq_true, beq_iff_eq] at hs
  exact ⟨s, noSpinLeak_of_aliveEntry reach, hs.1, hs.2⟩

/-- Task 0 enters tk_clr_flg inside T_SPLOCK 5 after task 1 has won the kernel lock, and task 1
terminates it. -/
def leakTrace : List DrvEvent :=
  [.spinLock .core0 5 1, .spin .core0, .call .core1, .acquire .core1, .call .core0,
    .creTsk .core1 2, .staTsk .core1 2, .terTsk .core1 0, .leave .core1, .acquire .core0,
    .dispatch .core0 2]

theorem not_noSpinLeak : ∃ s, drvMachine.Reachable s ∧ ¬ NoSpinLeak s := by
  obtain ⟨s, reach, hs⟩ := drvMachine.reachable_of_trace (s := .boot)
    (p := fun s => s.away 0 && (s.ctx 0).held.isSome) leakTrace rfl (by decide +kernel)
  simp only [Bool.and_eq_true] at hs
  refine ⟨s, reach, fun safe => ?_⟩
  have hnone := safe.away 0 (away_iff.1 hs.1)
  simp [hnone] at hs

end Mtk3Smp
