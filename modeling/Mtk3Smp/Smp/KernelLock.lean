import Mtk3Smp.Kernel.State
import Mtk3Smp.Lib.Lts

/-!
# The recursive kernel lock

`smp_lock.c`, one access at a time: the unlocked tests of `knl_lock_word`, the test-and-set
under SPINLOCK_KERNEL, the depth and the saved PRIMASK of each core. Every function reads the
core id first, and only some of them mask interrupts after that: a task that is dispatched on
the other core in between goes on with the id of the core it has left.
-/

namespace Mtk3Smp

/-- Where `knl_kernel_lock_enter` returns to. -/
inductive EnterFrom
  | caller
  /-- `knl_kernel_lock_resume`, whose `self` and `resume_depth` these are -/
  | resume (self : Core) (depth : Nat)
  deriving DecidableEq

/-- Where `knl_kernel_lock_leave` returns to. -/
inductive LeaveFrom
  | caller
  /-- the dead-task exit of `knl_kernel_lock_enter` -/
  | deadTask
  deriving DecidableEq

/-- Whose hardware-locked store of 0 to `knl_lock_word` it is. -/
inductive Release
  | leave (self : Core) (k : LeaveFrom)
  | abandon
  | suspend (depth : Nat)
  deriving DecidableEq

/-- Where an activation is; `self` is the core id it has read, `p` the PRIMASK it has saved. -/
inductive LockPc
  | out
  /-- waiting for PendSV, in the loop after `knl_force_dispatch` -/
  | dead
  /-- `knl_kernel_lock_enter` -/
  | enter (k : EnterFrom)
  | masking (self : Core) (k : EnterFrom)
  | ownTest (self : Core) (p : Bool) (k : EnterFrom)
  | unmask (p : Bool) (k : EnterFrom)
  | spin (self : Core) (p : Bool) (k : EnterFrom)
  | claim (self : Core) (p : Bool) (k : EnterFrom)
  | testSet (self : Core) (p : Bool) (k : EnterFrom)
  | won (self : Core) (p : Bool) (k : EnterFrom)
  | lost (self : Core) (p : Bool) (k : EnterFrom)
  | setDepth (self : Core) (p : Bool) (k : EnterFrom)
  | savePrimask (self : Core) (p : Bool) (k : EnterFrom)
  | deadTest (k : EnterFrom)
  /-- `knl_kernel_lock_leave` -/
  | leaveTest (self : Core) (k : LeaveFrom)
  | leaveDec (self : Core) (k : LeaveFrom)
  | restore (self : Core) (k : LeaveFrom)
  /-- `knl_kernel_lock_abandon`, then the rest of `knl_force_dispatch` -/
  | abandonTest (self : Core)
  | abandonDepth (self : Core)
  | force
  /-- `knl_kernel_lock_suspend` -/
  | suspDepth (self : Core)
  | suspTest (self : Core) (depth : Nat)
  | suspClear (self : Core) (depth : Nat)
  /-- `knl_kernel_lock_resume` -/
  | resTest (self : Core) (depth : Nat)
  | resHeld (self : Core) (depth : Nat)
  | resDepth (self : Core) (depth : Nat)
  /-- the release under SPINLOCK_KERNEL -/
  | rclaim (r : Release)
  | rclear (r : Release)
  | rfree (r : Release)
  deriving DecidableEq

/-- History: the operations that have returned, with what suspend returned. -/
inductive LockOp
  | enter
  | leave
  | abandon
  | suspend (returned : Nat)
  | resume (depth : Nat)
  deriving DecidableEq

/-- The number of unmatched enters after an operation. -/
def LockOp.after (op : LockOp) (n : Nat) : Nat :=
  match op with
  | .enter => n + 1
  | .leave => n - 1
  | .abandon | .suspend _ => 0
  | .resume d => if d = 0 ∨ 0 < n then n else d

/-- The number of unmatched enters after the operations of one core, latest first. -/
def opens (h : List LockOp) : Nat := h.foldr LockOp.after 0

/-- The words of the lock, and PRIMASK. -/
structure LockWords where
  /-- `knl_lock_word`, `knl_lock_depth[]`, `knl_lock_primask[]` -/
  word : Option Core
  depth : PerCore Nat
  saved : PerCore Bool
  /-- who has claimed SPINLOCK_KERNEL -/
  hw : Option Core
  primask : PerCore Bool
  hist : PerCore (List LockOp)

structure LockSys where
  words : LockWords
  /-- the task on each core, and where each task is at task level -/
  cur : PerCore Tid
  task : Tid → LockPc
  /-- the handlers nested on a core, innermost first -/
  irqs : PerCore (List LockPc)

section Steps

variable (w : LockWords) (c : Core)

def LockWords.record (op : LockOp) : LockWords :=
  { w with hist := w.hist.set c (op :: w.hist c) }

def LockWords.mask (p : Bool) : LockWords := { w with primask := w.primask.set c p }

def LockWords.setDepth (self : Core) (n : Nat) : LockWords :=
  { w with depth := w.depth.set self n }

/-- `knl_kernel_lock_enter` returns. -/
def entered : EnterFrom → LockPc × LockWords
  | .caller => (.out, w.record c .enter)
  | .resume self d => (.resHeld self d, w)

/-- `knl_kernel_lock_leave` returns. -/
def left : LeaveFrom → LockPc × LockWords
  | .caller => (.out, w.record c .leave)
  | .deadTask => (.abandonTest c, w)

/-- What follows the release. -/
def released : Release → LockPc × LockWords
  | .leave self k => (.restore self k, w)
  | .abandon => (.force, w)
  | .suspend d => (.out, w.record c (.suspend d))

/-- The next access of an activation of core `c` at `pc`; `alive` is what the dead-task test
finds. -/
def lockStep (alive : Bool) : LockPc → Option (LockPc × LockWords)
  | .out | .dead => none
  | .enter k => some (.masking c k, w)
  | .masking self k => some (.ownTest self (w.primask c) k, w.mask c true)
  | .ownTest self p k =>
    if w.word = some self then some (.unmask p k, w.setDepth self (w.depth self + 1))
    else some (.spin self p k, w)
  | .unmask p k => some (entered (w.mask c p) c k)
  | .spin self p k => some (if w.word = none then .claim self p k else .spin self p k, w)
  | .claim self p k =>
    if w.hw = none then some (.testSet self p k, { w with hw := some c })
    else some (.claim self p k, w)
  | .testSet self p k =>
    if w.word = none then some (.won self p k, { w with word := some self })
    else some (.lost self p k, w)
  | .won self p k => some (.setDepth self p k, { w with hw := none })
  | .lost self p k => some (.spin self p k, { w with hw := none })
  | .setDepth self p k => some (.savePrimask self p k, w.setDepth self 1)
  | .savePrimask self p k => some (.deadTest k, { w with saved := w.saved.set self p })
  | .deadTest k => some (if alive then entered w c k else (.leaveTest c .deadTask, w))
  | .leaveTest self k =>
    if w.word = some self ∧ w.depth self ≠ 0 then some (.leaveDec self k, w)
    else some (left w c k)
  | .leaveDec self k =>
    some (if 0 < w.depth self - 1 then left (w.setDepth self (w.depth self - 1)) c k
      else (.rclaim (.leave self k), w.setDepth self (w.depth self - 1)))
  | .restore self k => some (left (w.mask c (w.saved self)) c k)
  | .abandonTest self =>
    some (if w.word = some self then .abandonDepth self else .force, w)
  | .abandonDepth self => some (.rclaim .abandon, w.setDepth self 0)
  | .force => some (.dead, (w.mask c false).record c .abandon)
  | .suspDepth self => some (.suspTest self (w.depth self), w)
  | .suspTest self d =>
    if d = 0 ∨ w.word ≠ some self then some (.out, w.record c (.suspend 0))
    else some (.suspClear self d, w)
  | .suspClear self d => some (.rclaim (.suspend d), w.setDepth self 0)
  | .resTest self d =>
    if d = 0 ∨ w.word = some c then some (.out, w.record c (.resume d))
    else some (.enter (.resume self d), w)
  | .resHeld self d =>
    if 1 < d ∧ w.word = some c then some (.resDepth self d, w)
    else some (.out, w.record c (.resume d))
  | .resDepth self d => some (.out, (w.setDepth self d).record c (.resume d))
  | .rclaim r =>
    if w.hw = none then some (.rclear r, { w with hw := some c }) else some (.rclaim r, w)
  | .rclear r => some (.rfree r, { w with word := none })
  | .rfree r => some (released { w with hw := none } c r)

end Steps

/-- A call of one of the functions; the core id is its first read. -/
inductive LockCall
  | enter
  | leave
  | suspend
  | resume (depth : Nat)
  /-- `knl_force_dispatch`, which abandons the lock -/
  | force

def LockCall.pc (c : Core) : LockCall → LockPc
  | .enter => .masking c .caller
  | .leave => .leaveTest c .caller
  | .suspend => .suspDepth c
  | .resume d => .resTest c d
  | .force => .abandonTest c

inductive LockEvent
  | call (c : Core) (k : LockCall)
  | step (c : Core) (alive : Bool)
  | irq (c : Core)
  | iret (c : Core)
  /-- DI, EI, `set_primask` of the code around the sections -/
  | primask (c : Core) (p : Bool)
  /-- the dispatcher replaces the task of core `c` -/
  | dispatch (c : Core) (t : Tid)
  /-- tk_sta_tsk for a task whose context was discarded -/
  | restart (t : Tid)

namespace LockSys

variable (s : LockSys) (c : Core)

/-- Where the code that executes on core `c` is. -/
def top : LockPc :=
  match s.irqs c with
  | [] => s.task (s.cur c)
  | pc :: _ => pc

/-- Moves it. -/
def goto (pc : LockPc) : LockSys :=
  match s.irqs c with
  | [] => { s with task := Function.update s.task (s.cur c) pc }
  | _ :: rest => { s with irqs := s.irqs.set c (pc :: rest) }

/-- A step of the code around the lock or of the lock's functions. Handlers, and code that
unmasks interrupts, have closed the sections they opened. -/
def step : LockEvent → Option LockSys
  | .call c k => if s.top c = .out then some (s.goto c (k.pc c)) else none
  | .step c alive =>
    (lockStep s.words c (alive || !(s.irqs c).isEmpty) (s.top c)).map fun r =>
      { s.goto c r.1 with words := r.2 }
  | .irq c =>
    if s.words.primask c then none else some { s with irqs := s.irqs.set c (.out :: s.irqs c) }
  | .iret c =>
    match s.irqs c with
    | .out :: rest =>
      if opens (s.words.hist c) = 0 then some { s with irqs := s.irqs.set c rest } else none
    | _ => none
  | .primask c p =>
    if s.top c = .out ∧ (p = true ∨ opens (s.words.hist c) = 0) then
      some { s with words := s.words.mask c p }
    else none
  | .dispatch c t =>
    if s.irqs c = [] ∧ s.words.primask c = false ∧ s.cur c.other ≠ t ∧ s.task t ≠ .dead then
      some { s with cur := s.cur.set c t }
    else none
  | .restart t =>
    if s.task t = .dead ∧ s.cur .core0 ≠ t ∧ s.cur .core1 ≠ t then
      some { s with task := Function.update s.task t .out }
    else none

/-- Nobody in the kernel; cores run their idle tasks. -/
def boot : LockSys :=
  { words :=
      { word := none, depth := .ofFn fun _ => 0, saved := .ofFn fun _ => false, hw := none,
        primask := .ofFn fun _ => true, hist := .ofFn fun _ => [] }
    cur := .ofFn fun c => match c with | .core0 => 0 | .core1 => 1
    task := fun _ => .out
    irqs := .ofFn fun _ => [] }

end LockSys

/-- The activation has read a core id that it is still going to use. -/
def LockPc.hasId : LockPc → Bool
  | .out | .dead | .force => false
  | _ => true

/-- What core `c` sees of the lock. -/
structure LockView where
  own : Bool
  hw : Bool
  depth : Nat
  opened : Nat
  masked : Bool
  deriving DecidableEq

def LockWords.view (w : LockWords) (c : Core) : LockView :=
  { own := w.word == some c, hw := w.hw == some c, depth := w.depth c, opened := opens (w.hist c),
    masked := w.primask c }

/-- Outside the functions: the depth counts the unmatched enters, and is positive exactly in
the owner, which has its interrupts masked. -/
structure Settled (v : LockView) : Prop where
  hw : v.hw = false
  depth : v.depth = v.opened
  owner : v.own = true ↔ 0 < v.depth
  masked : v.own = true → v.masked = true

/-- In the middle of a transition interrupts are masked. -/
def During (v : LockView) (hw own : Bool) (depth opened : Nat) : Prop :=
  v = { own := own, hw := hw, depth := depth, opened := opened, masked := true }

/-- The arguments of the `knl_kernel_lock_resume` that is entering. -/
def EnterFrom.Ok (c : Core) : EnterFrom → Prop
  | .caller => True
  | .resume self d => self = c ∧ d ≠ 0

/-- The unmatched enters while the lock is released. -/
def Release.Ok (c : Core) (opened : Nat) : Release → Prop
  | .leave self .caller => self = c ∧ opened = 1
  | .leave self .deadTask => self = c ∧ opened = 0
  | .abandon => True
  | .suspend d => d = opened

/-- What is known of core `c` when the activation that executes on it is at a place. -/
def LockPc.Ok (c : Core) (v : LockView) : LockPc → Prop
  | .out | .dead => Settled v
  | .force => v.hw = false ∧ v.own = false ∧ v.depth = 0 ∧ (v.masked = false → v.opened = 0)
  | .enter k => Settled v ∧ k.Ok c ∧ (k ≠ .caller → v.own = false)
  | .masking self k => self = c ∧ Settled v ∧ k.Ok c ∧ (k ≠ .caller → v.own = false)
  | .ownTest self p k => self = c ∧ Settled v ∧ v.masked = true ∧ (v.own = true → p = true) ∧
      k.Ok c ∧ (k ≠ .caller → v.own = false)
  | .unmask p k => p = true ∧ k = .caller ∧ During v false true (v.opened + 1) v.opened
  | .spin self _ k | .claim self _ k => self = c ∧ k.Ok c ∧ During v false false 0 0
  | .testSet self _ k | .lost self _ k => self = c ∧ k.Ok c ∧ During v true false 0 0
  | .won self _ k => self = c ∧ k.Ok c ∧ During v true true 0 0
  | .setDepth self _ k => self = c ∧ k.Ok c ∧ During v false true 0 0
  | .savePrimask self _ k => self = c ∧ k.Ok c ∧ During v false true 1 0
  | .deadTest k => k.Ok c ∧ During v false true 1 0
  | .leaveTest self .caller => self = c ∧ Settled v
  | .leaveTest self .deadTask => self = c ∧ During v false true 1 0
  | .leaveDec self .caller => self = c ∧ During v false true v.opened v.opened ∧ 0 < v.opened
  | .leaveDec self .deadTask => self = c ∧ During v false true 1 0
  | .restore self .caller => self = c ∧ During v false false 0 1
  | .restore self .deadTask => self = c ∧ During v false false 0 0
  | .abandonTest self | .suspDepth self | .resTest self _ => self = c ∧ Settled v
  | .abandonDepth self => self = c ∧ During v false true v.opened v.opened
  | .suspTest self d => self = c ∧ Settled v ∧ d = v.depth
  | .suspClear self d => self = c ∧ During v false true d d
  | .resHeld self d | .resDepth self d => self = c ∧ d ≠ 0 ∧ During v false true 1 0
  | .rclaim r => r.Ok c v.opened ∧ During v false true 0 v.opened
  | .rclear r => r.Ok c v.opened ∧ During v true true 0 v.opened
  | .rfree r => r.Ok c v.opened ∧ During v true false 0 v.opened

/-- Every suspend returned the number of unmatched enters. -/
def HistOk : List LockOp → Prop
  | [] => True
  | .suspend d :: h => d = opens h ∧ HistOk h
  | _ :: h => HistOk h

section View

variable (w : LockWords) (c self : Core)

@[simp] theorem view_setDepth_other (n : Nat) :
    (w.setDepth c n).view c.other = w.view c.other := by
  simp [LockWords.view, LockWords.setDepth]

end View

section

variable {w : LockWords} {c : Core} {pc : LockPc} {alive : Bool} {r : LockPc × LockWords}
  {v : LockView}

theorem During.own_eq {hw own : Bool} {d n : Nat} (h : During v hw own d n) : v.own = own := by
  rw [During] at h
  rw [h]

theorem During.depth_eq {hw own : Bool} {d n : Nat} (h : During v hw own d n) : v.depth = d := by
  rw [During] at h
  rw [h]

theorem During.masked {hw own : Bool} {d n : Nat} (h : During v hw own d n) :
    v.masked = true := by
  rw [During] at h
  rw [h]

/-- The places of `knl_kernel_lock_leave`, abandon and suspend. -/
def LockPc.gives : LockPc → Bool
  | .leaveTest .. | .leaveDec .. | .restore .. | .abandonTest _ | .abandonDepth _ | .force
  | .suspDepth _ | .suspTest .. | .suspClear .. | .rclaim _ | .rclear _ | .rfree _ => true
  | _ => false

end

/-! ## Both cores -/

/-- An interrupted activation: as it was left while its core does not own the lock. -/
def LockPc.Resting (c : Core) (pc : LockPc) : Prop :=
  ∀ v, Settled v → v.own = false → pc.Ok c v

/-- The activations under the innermost one of a core. -/
def LockSys.below (s : LockSys) (c : Core) : List LockPc :=
  match s.irqs c with
  | [] => []
  | _ :: rest => rest ++ [s.task (s.cur c)]

structure LockInv (s : LockSys) : Prop where
  cur_ne : ∀ c, s.cur c ≠ s.cur c.other
  top : ∀ c, (s.top c).Ok c (s.words.view c)
  below : ∀ c, ∀ pc ∈ s.below c, pc.Resting c
  parked : ∀ t, (∀ c, s.cur c ≠ t) → (s.task t).hasId = false
  hist : ∀ c, HistOk (s.words.hist c)

section

variable {s s' : LockSys} {c : Core} {pc : LockPc} {v : LockView}

theorem top_goto (s : LockSys) (c : Core) (pc : LockPc) : (s.goto c pc).top c = pc := by
  unfold LockSys.goto LockSys.top
  cases h : s.irqs c <;> simp [h]

theorem below_goto (s : LockSys) (c : Core) (pc : LockPc) :
    (s.goto c pc).below c = s.below c := by
  unfold LockSys.goto LockSys.below
  cases h : s.irqs c <;> simp [h]

theorem goto_other (hne : s.cur c ≠ s.cur c.other) (pc : LockPc) :
    (s.goto c pc).top c.other = s.top c.other ∧
      (s.goto c pc).below c.other = s.below c.other := by
  unfold LockSys.goto LockSys.top LockSys.below
  cases h : s.irqs c <;> simp [Function.update_of_ne hne.symm]

theorem goto_parked (s : LockSys) (c : Core) (pc : LockPc) {t : Tid} (ht : s.cur c ≠ t) :
    (s.goto c pc).task t = s.task t := by
  unfold LockSys.goto
  cases h : s.irqs c <;> simp [Function.update_of_ne ht.symm]

theorem goto_cur (s : LockSys) (c : Core) (pc : LockPc) : (s.goto c pc).cur = s.cur := by
  unfold LockSys.goto
  cases h : s.irqs c <;> simp

/-- Moving the innermost activation of core `c`, with the words it wrote. -/
theorem LockInv.goto (inv : LockInv s) {w : LockWords} (ok : pc.Ok c (w.view c))
    (other : w.view c.other = s.words.view c.other) (hist : ∀ d, HistOk (w.hist d)) :
    LockInv { s.goto c pc with words := w } where
  cur_ne := by
    simp only [goto_cur]
    exact inv.cur_ne
  top d := by
    rcases Core.eq_or_other c d with rfl | rfl
    · have := top_goto s d pc
      simp only [LockSys.top] at this ⊢
      rw [this]
      exact ok
    · have := (goto_other (inv.cur_ne c) pc).1
      simp only [LockSys.top] at this ⊢
      rw [this, other]
      exact inv.top c.other
  below d := by
    rcases Core.eq_or_other c d with rfl | rfl
    · have := below_goto s d pc
      simp only [LockSys.below] at this ⊢
      rw [this]
      exact inv.below d
    · have := (goto_other (inv.cur_ne c) pc).2
      simp only [LockSys.below] at this ⊢
      rw [this]
      exact inv.below c.other
  parked t ht := by
    simp only [goto_cur] at ht
    have := goto_parked s c pc (ht c)
    simp only [this]
    exact inv.parked t ht
  hist := hist

end

/-! ## Safety -/

/-- While a core has a positive depth it owns the lock word. -/
theorem LockPc.Ok.owner {c : Core} {pc : LockPc} {v : LockView} (ok : pc.Ok c v)
    (h : 0 < v.depth) : v.own = true := by
  have none : ∀ {hw own n}, ¬ During v hw own 0 n := by
    intro hw own n hd
    rw [hd.depth_eq] at h
    exact absurd h (Nat.lt_irrefl 0)
  cases pc with
  | out | dead =>
    have hs : Settled v := ok
    exact hs.owner.2 h
  | enter k => exact ok.1.owner.2 h
  | masking self k | ownTest self p k | suspTest self d => exact ok.2.1.owner.2 h
  | abandonTest self | suspDepth self | resTest self d => exact ok.2.owner.2 h
  | leaveTest self k =>
    cases k
    · exact ok.2.owner.2 h
    · exact ok.2.own_eq
  | leaveDec self k =>
    cases k
    · exact ok.2.1.own_eq
    · exact ok.2.own_eq
  | restore self k => cases k <;> exact absurd ok.2 none
  | force => exact absurd h (by simp [ok.2.2.1])
  | unmask p k | savePrimask self p k | resHeld self d | resDepth self d => exact ok.2.2.own_eq
  | deadTest k | abandonDepth self | suspClear self d => exact ok.2.own_eq
  | spin self p k | claim self p k | testSet self p k | lost self p k | won self p k
  | setDepth self p k => exact absurd ok.2.2 none
  | rclaim x | rclear x | rfree x => exact absurd ok.2 none

end Mtk3Smp
