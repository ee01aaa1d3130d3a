import Mtk3Smp.Sync.Semaphore
import Mtk3Smp.Lib.Census

/-!
# Fast locks

`fastlock.c`: a counter that starts at -1 and a semaphore that is used only on contention. The step
of the counter is an atomic one (`atomic_inc`, `atomic_dec`), the calls of the semaphore are
critical sections, and in between other tasks run on either core.
-/

namespace Mtk3Smp

open Gcb Census

/-- Where a task is with the lock. -/
inductive FlPc
  /-- outside, without the lock -/
  | out
  /-- in Lock, before tk_wai_sem -/
  | wai
  /-- in tk_wai_sem -/
  | blocked
  /-- Lock has returned -/
  | hold
  /-- in Unlock, before tk_sig_sem -/
  | sig
  deriving DecidableEq, Repr

/-- The semaphore that CreateLock asks for. -/
def flSem : Csem := { tpri := true, cnt := false, isemcnt := 0, maxsem := 1 }

structure FlSys where
  cnt : BitVec 32
  sem : SemSys
  pc : Tid → FlPc

/-- Waiting in Lock is permitted, no task that waits is released by force, and the priorities of
the tasks change at any time. -/
inductive FlEvent
  /-- Lock up to the test of `Inc` -/
  | lock (t : Tid)
  | tkWaiSem (t : Tid)
  /-- tk_wai_sem returns to a task that it has blocked -/
  | ret (t : Tid)
  /-- Unlock up to the test of `Dec` -/
  | unlock (t : Tid)
  | tkSigSem (t : Tid)
  | chgPri (t : Tid) (priority : Nat)

namespace FlSys

variable (cfg : TskCfg) (s : FlSys)

def goto (t : Tid) (p : FlPc) : FlSys := { s with pc := Function.update s.pc t p }

/-- `Inc`: the counter afterwards, which is also the result. -/
def inc : BitVec 32 := s.cnt + 1

/-- `Dec`: the counter afterwards, and the result. -/
def dec : BitVec 32 × Int := (s.cnt - 1, (s.cnt - 1).toInt + 1)

/-- The task is at `p`. -/
def at_ (t : Tid) (p : FlPc) : Bool := t < cfg.numTskid && s.pc t == p

def step : FlEvent → Option FlSys
  | .lock t =>
    if s.at_ cfg t .out then
      some ({ s with cnt := s.inc }.goto t (if 0 < s.inc.toInt then .wai else .hold))
    else none
  | .tkWaiSem t =>
    if s.at_ cfg t .wai then
      (SemSys.step flSem s.sem (.tkWaiSem t false 1 .TMO_FEVR)).map fun sem =>
        { s with sem }.goto t (if waiting t sem.waitQueue then .blocked else .hold)
    else none
  | .ret t =>
    if s.at_ cfg t .blocked ∧ waiting t s.sem.waitQueue = false then some (s.goto t .hold) else none
  | .unlock t =>
    if s.at_ cfg t .hold then
      some ({ s with cnt := s.dec.1 }.goto t (if 0 < s.dec.2 then .sig else .out))
    else none
  | .tkSigSem t =>
    if s.at_ cfg t .sig then
      (SemSys.step flSem s.sem (.tkSigSem 1)).map fun sem => { s with sem }.goto t .out
    else none
  | .chgPri t priority =>
    (SemSys.step flSem s.sem (.chgPri t priority)).map fun sem => { s with sem }

/-- What CreateLock leaves. -/
def created (priority : Tid → Nat) : FlSys :=
  { cnt := -1, sem := SemSys.created flSem priority, pc := fun _ => .out }

/-- The task has entered Lock and can complete it now. -/
def Ready (t : Tid) : Prop :=
  s.pc t = .blocked ∧ waiting t s.sem.waitQueue = false ∨ s.pc t = .wai ∧ 0 < s.sem.semcnt

/-- The step that completes Lock. -/
def proceed (t : Tid) : FlEvent := if s.pc t = .blocked then .ret t else .tkWaiSem t

end FlSys

def flMachine (cfg : TskCfg) : Lts FlSys FlEvent where
  init s := ∃ priority, s = FlSys.created priority
  step := FlSys.step cfg

/-- The task has entered Lock and not Unlock. -/
def FlPc.entered : FlPc → Bool
  | .wai | .blocked | .hold => true
  | .out | .sig => false

/-- Some task can complete Lock, and as soon as one has nobody else can. -/
structure LetsOne (cfg : TskCfg) (s : FlSys) : Prop where
  free : ∀ t, s.pc t ≠ .hold
  ready : ∃ t, s.Ready t
  proceeds : ∀ t, s.Ready t → ∃ s', s.step cfg (s.proceed t) = some s' ∧ s'.pc t = .hold ∧
    ∀ u, ¬ s'.Ready u ∧ (s'.pc u = .hold → u = t)

structure FlOk (cfg : TskCfg) (s : FlSys) : Prop where
  exclusive : ∀ t u, s.pc t = .hold → s.pc u = .hold → t = u
  tokens : 0 ≤ s.sem.semcnt ∧ s.sem.semcnt ≤ 1
  /-- no signal is refused -/
  signals : ∀ t, s.pc t = .sig → (s.sem.tkSigSem flSem 1).2 = .E_OK
  /-- an Unlock signals exactly when other tasks have entered Lock -/
  contended : ∀ t s', s.step cfg (.unlock t) = some s' →
    (s'.pc t = .sig ↔ ∃ u, u ≠ t ∧ (s.pc u).entered = true)
  unlocks : ∀ t s', s.step cfg (.tkSigSem t) = some s' → LetsOne cfg s'

/-! ## The invariant -/

/-- The task holds the lock, has to signal it on, or waits in tk_wai_sem. -/
def FlPc.passing : FlPc → Bool
  | .hold | .sig | .blocked => true
  | .out | .wai => false

def FlSys.entered (cfg : TskCfg) (s : FlSys) : Nat := census cfg.numTskid s.pc FlPc.entered

def FlSys.passing (cfg : TskCfg) (s : FlSys) : Nat := census cfg.numTskid s.pc FlPc.passing

/-- The counter is one less than the number of the tasks that have entered. As long as there are
any, there is one pass: with the task that holds the lock or is about to signal, with one that
tk_sig_sem has taken from the queue, or in the semaphore. -/
structure FlInv (cfg : TskCfg) (s : FlSys) : Prop where
  sem : (semMachine flSem).Reachable s.sem
  exists_ : s.sem.exists_ = true
  queue : ∀ x ∈ s.sem.waitQueue, x.winfo = 1 ∧ s.pc x.tsk = .blocked
  nodup : (s.sem.waitQueue.map (·.tsk)).Nodup
  outside : ∀ t, cfg.numTskid ≤ t → s.pc t = .out
  cnt : s.cnt.toInt = (s.entered cfg : Int) - 1
  passes : (s.passing cfg : Int) + s.sem.semcnt =
    s.sem.waitQueue.length + if s.entered cfg = 0 then 0 else 1

section

variable {cfg : TskCfg} {s s' : FlSys} {t u : Tid}

theorem at_iff {p : FlPc} : s.at_ cfg t p = true ↔ t < cfg.numTskid ∧ s.pc t = p := by
  simp [FlSys.at_]

/-- One task moves on from `a` to `b`. -/
theorem entered_goto {a : FlPc} (ht : t < cfg.numTskid) (ha : s.pc t = a) (b : FlPc) :
    (s.goto t b).entered cfg + a.entered.toNat = s.entered cfg + b.entered.toNat := by
  rw [← ha]
  exact census_update ht

theorem passing_goto {a : FlPc} (ht : t < cfg.numTskid) (ha : s.pc t = a) (b : FlPc) :
    (s.goto t b).passing cfg + a.passing.toNat = s.passing cfg + b.passing.toNat := by
  rw [← ha]
  exact census_update ht

theorem FlInv.semInv (h : FlInv cfg s) : SemInv flSem s.sem := semInv_of_reachable h.sem

/-- While the semaphore has the token nobody waits for it. -/
theorem FlInv.queue_nil (h : FlInv cfg s) (htok : 0 < s.sem.semcnt) : s.sem.waitQueue = [] := by
  cases hq : s.sem.waitQueue with
  | nil => rfl
  | cons x rest =>
    have hx : x ∈ s.sem.waitQueue := by rw [hq]; exact List.mem_cons_self
    have hlt := h.semInv.waiting x hx fun _ => by rw [hq]; rfl
    have := (h.queue x hx).1
    omega

/-! ### The semaphore -/

/-- A task takes the token, or nobody has left one and it is queued. -/
theorem FlInv.tkWaiSem_sem (h : FlInv cfg s) (hw : waiting t s.sem.waitQueue = false) :
    ∃ sem, SemSys.step flSem s.sem (.tkWaiSem t false 1 .TMO_FEVR) = some sem ∧
      sem.exists_ = true ∧
      if 0 < s.sem.semcnt then sem.semcnt = s.sem.semcnt - 1 ∧ sem.waitQueue = []
      else sem.semcnt = s.sem.semcnt ∧
        sem.waitQueue = knlGcbMakeWait true s.sem.priority ⟨t, .TMO_FEVR, 1⟩ s.sem.waitQueue := by
  refine ⟨s.sem.tkWaiSem flSem t false 1 .TMO_FEVR, by simp [SemSys.step, hw], ?_⟩
  unfold SemSys.tkWaiSem
  dsimp only
  rw [if_neg (by decide), if_neg (by simp), if_neg (by simp [h.exists_]), if_neg (by decide)]
  by_cases htok : 0 < s.sem.semcnt
  · have hq := h.queue_nil htok
    have hge : 1 ≤ s.sem.semcnt := htok
    rw [if_pos ⟨by simp [hq, isTop], hge⟩, if_pos htok]
    exact ⟨h.exists_, rfl, hq⟩
  · have hlt : ¬ 1 ≤ s.sem.semcnt := htok
    rw [if_neg fun hc => hlt hc.2, if_neg (by simp), if_neg htok]
    exact ⟨h.exists_, rfl, rfl⟩

/-- The signal is accepted: the first task in the queue gets the token, or the semaphore has it. -/
theorem FlInv.tkSigSem_sem (h : FlInv cfg s) (hnone : s.sem.semcnt = 0) :
    (s.sem.tkSigSem flSem 1).2 = .E_OK ∧
      ∃ sem, SemSys.step flSem s.sem (.tkSigSem 1) = some sem ∧ sem.exists_ = true ∧
        sem.waitQueue = s.sem.waitQueue.tail ∧
        sem.semcnt = if s.sem.waitQueue = [] then 1 else 0 := by
  have hsig : s.sem.tkSigSem flSem 1 =
      (s.sem.granted (sigSemLoop false s.sem.waitQueue 1), .E_OK) := by
    unfold SemSys.tkSigSem
    rw [if_neg (by decide), if_neg (by simp [h.exists_]), if_neg (by rw [hnone]; decide), hnone]
    rfl
  refine ⟨by rw [hsig], (s.sem.granted (sigSemLoop false s.sem.waitQueue 1)).retd (.sig 1) .E_OK,
    by simp only [SemSys.step, hsig], h.exists_, ?_⟩
  simp only [SemSys.retd, SemSys.granted]
  cases hq : s.sem.waitQueue with
  | nil => exact ⟨rfl, rfl⟩
  | cons x rest =>
    have hx : x.winfo = 1 := (h.queue x (by rw [hq]; exact List.mem_cons_self)).1
    simp [sigSemLoop, hx]

/-- A change of priority at most reorders the queue. -/
theorem FlInv.chgPri_sem (h : FlInv cfg s) (t : Tid) (priority : Nat) :
    (s.sem.chgPri flSem t priority).exists_ = true ∧
      (s.sem.chgPri flSem t priority).semcnt = s.sem.semcnt ∧
      (s.sem.chgPri flSem t priority).waitQueue.Perm s.sem.waitQueue := by
  have idle : ∀ q : List (Waiter Int), q.Perm s.sem.waitQueue →
      semChgPriLoop q s.sem.semcnt = ⟨[], q, s.sem.semcnt⟩ := by
    intro q hq
    cases q with
    | nil => rfl
    | cons x rest =>
      have hx : x ∈ s.sem.waitQueue := hq.mem_iff.1 List.mem_cons_self
      have hlt : s.sem.semcnt < x.winfo := by
        by_contra hle
        have hone := (h.queue x hx).1
        have hnil := h.queue_nil (by omega)
        rw [hnil] at hx
        cases hx
      unfold semChgPriLoop
      rw [if_pos hlt]
  unfold SemSys.chgPri
  dsimp only
  split
  · have hperm : (Gcb.knlGcbChangePriority (Function.update s.sem.priority t priority) t
      s.sem.waitQueue).Perm s.sem.waitQueue := perm_changePriority t s.sem.waitQueue
    unfold SemSys.semRelWai
    rw [if_neg (by decide)]
    dsimp only
    rw [idle _ hperm]
    exact ⟨h.exists_, rfl, hperm⟩
  · exact ⟨h.exists_, rfl, List.Perm.refl _⟩

/-! ### The one pass -/

theorem FlInv.lt_of_ne (h : FlInv cfg s) (hp : s.pc t ≠ .out) : t < cfg.numTskid := by
  by_contra hge
  exact hp (h.outside t (Nat.not_lt.1 hge))

theorem FlInv.not_waiting (h : FlInv cfg s) (hp : s.pc t ≠ .blocked) :
    waiting t s.sem.waitQueue = false := by
  by_contra hw
  have hw : waiting t s.sem.waitQueue = true := by simpa using hw
  obtain ⟨x, hx, he⟩ := List.any_eq_true.1 hw
  obtain rfl : x.tsk = t := eq_of_beq he
  exact hp (h.queue x hx).2

theorem not_mem_of_not_waiting (hw : waiting t s.sem.waitQueue = false) :
    t ∉ s.sem.waitQueue.map (·.tsk) := by
  intro ht
  obtain ⟨x, hx, rfl⟩ := List.mem_map.1 ht
  have : waiting x.tsk s.sem.waitQueue = true := List.any_eq_true.2 ⟨x, hx, beq_self_eq_true _⟩
  rw [hw] at this
  cases this

/-- The tasks of `l` and those in the queue are among the passing ones. -/
theorem FlInv.length_le (h : FlInv cfg s) {l : List Tid} (hl : l.Nodup)
    (hp : ∀ t ∈ l, (s.pc t).passing = true ∧ waiting t s.sem.waitQueue = false) :
    l.length + s.sem.waitQueue.length ≤ s.passing cfg := by
  have hnd : (l ++ s.sem.waitQueue.map (·.tsk)).Nodup := by
    refine List.nodup_append.2 ⟨hl, h.nodup, fun a ha b hb he => ?_⟩
    exact not_mem_of_not_waiting (hp a ha).2 (he ▸ hb)
  have hle : (l ++ s.sem.waitQueue.map (·.tsk)).length ≤ s.passing cfg :=
    length_le_census hnd fun t ht => ?_
  · rw [List.length_append, List.length_map] at hle
    exact hle
  · have hpass : (s.pc t).passing = true := by
      rcases List.mem_append.1 ht with ht | ht
      · exact (hp t ht).1
      · obtain ⟨x, hx, rfl⟩ := List.mem_map.1 ht
        rw [(h.queue x hx).2]
        rfl
    refine ⟨h.lt_of_ne fun hout => ?_, hpass⟩
    rw [hout] at hpass
    cases hpass

/-- Where a task has the pass the semaphore does not. -/
theorem FlInv.no_token (h : FlInv cfg s) (hp : (s.pc t).passing = true)
    (hw : waiting t s.sem.waitQueue = false) : s.sem.semcnt = 0 := by
  have hle := h.length_le (List.nodup_singleton t) fun u hu => by
    rw [List.mem_singleton.1 hu]
    exact ⟨hp, hw⟩
  have hpass := h.passes
  have hnn := h.semInv.range.1
  rw [List.length_singleton] at hle
  split at hpass <;> omega

/-- The task with the pass has signalled or will signal only to those that have entered. -/
theorem FlInv.entered_ne (h : FlInv cfg s) (hp : (s.pc t).passing = true)
    (hw : waiting t s.sem.waitQueue = false) : s.entered cfg ≠ 0 := by
  intro hzero
  have hle := h.length_le (List.nodup_singleton t) fun u hu => by
    rw [List.mem_singleton.1 hu]
    exact ⟨hp, hw⟩
  have hpass := h.passes
  have hnn := h.semInv.range.1
  rw [List.length_singleton] at hle
  rw [if_pos hzero] at hpass
  omega

/-- No two tasks have it. -/
theorem FlInv.eq_of_pass (h : FlInv cfg s) (hpt : (s.pc t).passing = true)
    (hwt : waiting t s.sem.waitQueue = false) (hpu : (s.pc u).passing = true)
    (hwu : waiting u s.sem.waitQueue = false) : t = u := by
  by_contra hne
  have hnd : [t, u].Nodup := by simp [hne]
  have hle := h.length_le hnd fun w hw => by
    rcases List.mem_cons.1 hw with rfl | hw
    · exact ⟨hpt, hwt⟩
    · rw [List.mem_singleton.1 hw]
      exact ⟨hpu, hwu⟩
  have hpass := h.passes
  have hnn := h.semInv.range.1
  have hlen : [t, u].length = 2 := rfl
  rw [hlen] at hle
  split at hpass <;> omega

theorem FlInv.hold_pass (h : FlInv cfg s) (hp : s.pc t = .hold) :
    (s.pc t).passing = true ∧ waiting t s.sem.waitQueue = false :=
  ⟨by rw [hp]; rfl, h.not_waiting (by simp [hp])⟩

theorem FlInv.sig_pass (h : FlInv cfg s) (hp : s.pc t = .sig) :
    (s.pc t).passing = true ∧ waiting t s.sem.waitQueue = false :=
  ⟨by rw [hp]; rfl, h.not_waiting (by simp [hp])⟩

/-- Once a task holds the lock nobody else can complete Lock. -/
theorem FlInv.settled (h : FlInv cfg s) (hp : s.pc t = .hold) (u : Tid) :
    ¬ s.Ready u ∧ (s.pc u = .hold → u = t) := by
  obtain ⟨hpass, hw⟩ := h.hold_pass hp
  refine ⟨?_, fun hu => h.eq_of_pass (h.hold_pass hu).1 (h.hold_pass hu).2 hpass hw⟩
  rintro (⟨hb, hwu⟩ | ⟨-, htok⟩)
  · have heq := h.eq_of_pass (by rw [hb]; rfl) hwu hpass hw
    rw [heq, hp] at hb
    cases hb
  · have := h.no_token hpass hw
    omega

/-! ### The steps -/

theorem FlInv.inc_toInt (h : FlInv cfg s) : s.inc.toInt = s.cnt.toInt + 1 := by
  have hle : s.entered cfg ≤ cfg.numTskid := census_le
  have hsmall := cfg.small
  have hcnt := h.cnt
  unfold FlSys.inc
  rw [BitVec.toInt_add]
  exact Int.bmod_eq_of_le (by simp; omega) (by simp; omega)

theorem FlInv.dec_toInt (h : FlInv cfg s) (hp : s.pc t = .hold) :
    s.dec.1.toInt = s.cnt.toInt - 1 ∧ s.dec.2 = s.cnt.toInt := by
  have hle : s.entered cfg ≤ cfg.numTskid := census_le
  have hpos : 0 < s.entered cfg :=
    census_pos.2 ⟨t, h.lt_of_ne (by simp [hp]), by rw [hp]; rfl⟩
  have hsmall := cfg.small
  have hcnt := h.cnt
  have hsub : (s.cnt - 1).toInt = s.cnt.toInt - 1 := by
    rw [BitVec.toInt_sub]
    exact Int.bmod_eq_of_le (by simp; omega) (by simp; omega)
  refine ⟨hsub, ?_⟩
  show (s.cnt - 1).toInt + 1 = s.cnt.toInt
  omega

/-- A task moves on to `b` while the counter and the semaphore change as given. -/
theorem FlInv.move (h : FlInv cfg s) (ht : t < cfg.numTskid) {b : FlPc} {cnt : BitVec 32}
    {sem : SemSys} (hsem : (semMachine flSem).Reachable sem) (hex : sem.exists_ = true)
    (hq : ∀ x ∈ sem.waitQueue, x.winfo = 1 ∧ (s.goto t b).pc x.tsk = .blocked)
    (hnd : (sem.waitQueue.map (·.tsk)).Nodup)
    (hcnt : cnt.toInt = ((s.goto t b).entered cfg : Int) - 1)
    (hpass : ((s.goto t b).passing cfg : Int) + sem.semcnt =
      sem.waitQueue.length + if (s.goto t b).entered cfg = 0 then 0 else 1) :
    FlInv cfg ({ s with cnt := cnt, sem := sem }.goto t b) := by
  refine ⟨hsem, hex, hq, hnd, fun u hu => ?_, hcnt, hpass⟩
  have hne : u ≠ t := fun he => absurd ht (Nat.not_lt.2 (he ▸ hu))
  show Function.update s.pc t b u = .out
  rw [Function.update_of_ne hne]
  exact h.outside u hu

/-- The tasks in the queue stay where they are when another one moves on. -/
theorem FlInv.queue_goto (h : FlInv cfg s) (hw : waiting t s.sem.waitQueue = false) (b : FlPc) :
    ∀ x ∈ s.sem.waitQueue, x.winfo = 1 ∧ (s.goto t b).pc x.tsk = .blocked := by
  intro x hx
  have hne : x.tsk ≠ t := fun he =>
    not_mem_of_not_waiting hw (he ▸ List.mem_map_of_mem hx)
  refine ⟨(h.queue x hx).1, ?_⟩
  show Function.update s.pc t b x.tsk = .blocked
  rw [Function.update_of_ne hne]
  exact (h.queue x hx).2

theorem FlInv.lock (h : FlInv cfg s) (ht : t < cfg.numTskid) (hp : s.pc t = .out) :
    FlInv cfg ({ s with cnt := s.inc }.goto t (if 0 < s.inc.toInt then .wai else .hold)) := by
  have hw := h.not_waiting (t := t) (by simp [hp])
  have hinc := h.inc_toInt
  have hcnt := h.cnt
  have hpass := h.passes
  by_cases hpos : 0 < s.inc.toInt
  · rw [if_pos hpos]
    have he : (s.goto t .wai).entered cfg = s.entered cfg + 1 := entered_goto ht hp .wai
    have hpa : (s.goto t .wai).passing cfg = s.passing cfg := passing_goto ht hp .wai
    refine h.move ht h.sem h.exists_ (h.queue_goto hw _) h.nodup (by omega) ?_
    rw [hpa, hpass, he, if_neg (by omega), if_neg (by omega)]
  · rw [if_neg hpos]
    have he : (s.goto t .hold).entered cfg = s.entered cfg + 1 := entered_goto ht hp .hold
    have hpa : (s.goto t .hold).passing cfg = s.passing cfg + 1 := passing_goto ht hp .hold
    refine h.move ht h.sem h.exists_ (h.queue_goto hw _) h.nodup (by omega) ?_
    rw [if_pos (by omega)] at hpass
    rw [if_neg (by omega)]
    omega

theorem FlInv.unlock (h : FlInv cfg s) (hp : s.pc t = .hold) :
    FlInv cfg ({ s with cnt := s.dec.1 }.goto t (if 0 < s.dec.2 then .sig else .out)) := by
  have hw := (h.hold_pass hp).2
  have ht := h.lt_of_ne (t := t) (by simp [hp])
  obtain ⟨hdec, hres⟩ := h.dec_toInt hp
  have hcnt := h.cnt
  have hpass := h.passes
  by_cases hpos : 0 < s.dec.2
  · rw [if_pos hpos]
    have he : (s.goto t .sig).entered cfg + 1 = s.entered cfg := entered_goto ht hp .sig
    have hpa : (s.goto t .sig).passing cfg + 1 = s.passing cfg + 1 := passing_goto ht hp .sig
    refine h.move ht h.sem h.exists_ (h.queue_goto hw _) h.nodup (by omega) ?_
    rw [if_neg (by omega)] at hpass ⊢
    omega
  · rw [if_neg hpos]
    have he : (s.goto t .out).entered cfg + 1 = s.entered cfg := entered_goto ht hp .out
    have hpa : (s.goto t .out).passing cfg + 1 = s.passing cfg := passing_goto ht hp .out
    refine h.move ht h.sem h.exists_ (h.queue_goto hw _) h.nodup (by omega) ?_
    rw [if_neg (by omega)] at hpass
    rw [if_pos (by omega)]
    omega

theorem FlInv.ret (h : FlInv cfg s) (hp : s.pc t = .blocked)
    (hw : waiting t s.sem.waitQueue = false) : FlInv cfg (s.goto t .hold) := by
  have ht := h.lt_of_ne (t := t) (by simp [hp])
  have he : (s.goto t .hold).entered cfg + 1 = s.entered cfg + 1 := entered_goto ht hp .hold
  have hpa : (s.goto t .hold).passing cfg + 1 = s.passing cfg + 1 := passing_goto ht hp .hold
  have hcnt := h.cnt
  refine h.move ht h.sem h.exists_ (h.queue_goto hw _) h.nodup (by omega) ?_
  have hsame : (s.goto t .hold).entered cfg = s.entered cfg := by omega
  rw [hsame, ← h.passes]
  omega

theorem FlInv.tkWaiSem (h : FlInv cfg s) (hp : s.pc t = .wai) {sem : SemSys}
    (hs : SemSys.step flSem s.sem (.tkWaiSem t false 1 .TMO_FEVR) = some sem) :
    FlInv cfg ({ s with sem }.goto t (if waiting t sem.waitQueue then .blocked else .hold)) ∧
      (0 < s.sem.semcnt → waiting t sem.waitQueue = false) := by
  have hw := h.not_waiting (t := t) (by simp [hp])
  have ht := h.lt_of_ne (t := t) (by simp [hp])
  obtain ⟨sem', hs', hex, hsem⟩ := h.tkWaiSem_sem hw
  obtain rfl : sem' = sem := Option.some.inj (hs'.symm.trans hs)
  have hstep : (semMachine flSem).step s.sem (.tkWaiSem t false 1 .TMO_FEVR) = some sem' := hs
  have hreach := h.sem.step trivial hstep
  have hcnt := h.cnt
  have hpass := h.passes
  by_cases htok : 0 < s.sem.semcnt
  · rw [if_pos htok] at hsem
    obtain ⟨htaken, hnil⟩ := hsem
    have hq := h.queue_nil htok
    have hno : waiting t sem'.waitQueue = false := by rw [hnil]; rfl
    refine ⟨?_, fun _ => hno⟩
    rw [hno, if_neg Bool.false_ne_true]
    have he : (s.goto t .hold).entered cfg + 1 = s.entered cfg + 1 := entered_goto ht hp .hold
    have hpa : (s.goto t .hold).passing cfg = s.passing cfg + 1 := passing_goto ht hp .hold
    refine h.move ht hreach hex (by simp [hnil]) (by simp [hnil]) (by omega) ?_
    have hsame : (s.goto t .hold).entered cfg = s.entered cfg := by omega
    rw [hsame, hnil, hpa, htaken]
    rw [hq] at hpass
    omega
  · rw [if_neg htok] at hsem
    obtain ⟨hsame, hqueue⟩ := hsem
    have hperm : (knlGcbMakeWait true s.sem.priority ⟨t, .TMO_FEVR, 1⟩ s.sem.waitQueue).Perm
      (⟨t, .TMO_FEVR, 1⟩ :: s.sem.waitQueue) := perm_makeWait _ _
    rw [← hqueue] at hperm
    have hin : waiting t sem'.waitQueue = true := by
      refine List.any_eq_true.2 ⟨⟨t, .TMO_FEVR, 1⟩, hperm.mem_iff.2 List.mem_cons_self, ?_⟩
      exact beq_self_eq_true t
    refine ⟨?_, fun htok' => absurd htok' htok⟩
    rw [hin, if_pos rfl]
    have he : (s.goto t .blocked).entered cfg + 1 = s.entered cfg + 1 :=
      entered_goto ht hp .blocked
    have hpa : (s.goto t .blocked).passing cfg = s.passing cfg + 1 := passing_goto ht hp .blocked
    have hlen : sem'.waitQueue.length = s.sem.waitQueue.length + 1 := hperm.length_eq
    refine h.move ht hreach hex (fun x hx => ?_) ?_ (by omega) ?_
    · rcases List.mem_cons.1 (hperm.mem_iff.1 hx) with rfl | hx
      · exact ⟨rfl, Function.update_self _ _ _⟩
      · exact h.queue_goto hw _ x hx
    · refine (hperm.map _).nodup_iff.2 (List.nodup_cons.2 ⟨?_, h.nodup⟩)
      exact not_mem_of_not_waiting hw
    · have hsame' : (s.goto t .blocked).entered cfg = s.entered cfg := by omega
      rw [hsame', hlen, hpa, hsame]
      push_cast
      omega

theorem FlInv.tkSigSem (h : FlInv cfg s) (hp : s.pc t = .sig) {sem : SemSys}
    (hs : SemSys.step flSem s.sem (.tkSigSem 1) = some sem) :
    FlInv cfg ({ s with sem }.goto t .out) := by
  obtain ⟨hpt, hw⟩ := h.sig_pass hp
  have ht := h.lt_of_ne (t := t) (by simp [hp])
  have hnone := h.no_token hpt hw
  obtain ⟨-, sem', hs', hex, hqueue, hsemcnt⟩ := h.tkSigSem_sem hnone
  obtain rfl : sem' = sem := Option.some.inj (hs'.symm.trans hs)
  have he : (s.goto t .out).entered cfg = s.entered cfg := entered_goto ht hp .out
  have hpa : (s.goto t .out).passing cfg + 1 = s.passing cfg := passing_goto ht hp .out
  have hcnt := h.cnt
  have hpass := h.passes
  have hsub : ∀ x ∈ sem'.waitQueue, x ∈ s.sem.waitQueue := fun x hx =>
    List.mem_of_mem_tail (hqueue ▸ hx)
  have hin := h.entered_ne hpt hw
  rw [if_neg hin, hnone] at hpass
  have hstep : (semMachine flSem).step s.sem (.tkSigSem 1) = some sem' := hs
  refine h.move ht (h.sem.step trivial hstep) hex (fun x hx => h.queue_goto hw _ x (hsub x hx)) ?_
    (by omega) ?_
  · rw [hqueue, List.map_tail]
    exact h.nodup.sublist (List.tail_sublist _)
  · rw [he, if_neg hin, hsemcnt, hqueue, List.length_tail]
    cases hq : s.sem.waitQueue with
    | nil =>
      rw [hq] at hpass
      simp at hpass ⊢
      omega
    | cons x rest =>
      rw [hq] at hpass
      simp at hpass ⊢
      omega

theorem FlInv.chgPri (h : FlInv cfg s) (t : Tid) (priority : Nat) :
    FlInv cfg { s with sem := s.sem.chgPri flSem t priority } := by
  obtain ⟨hex, hsemcnt, hperm⟩ := h.chgPri_sem t priority
  have hstep : (semMachine flSem).step s.sem (.chgPri t priority) =
    some (s.sem.chgPri flSem t priority) := rfl
  refine ⟨h.sem.step trivial hstep, hex, fun x hx => h.queue x (hperm.mem_iff.1 hx),
    (hperm.map _).nodup_iff.2 h.nodup, h.outside, h.cnt, ?_⟩
  have hpass := h.passes
  rw [← hperm.length_eq, ← hsemcnt] at hpass
  exact hpass

theorem flInv_step (h : FlInv cfg s) {e : FlEvent} (hs : FlSys.step cfg s e = some s') :
    FlInv cfg s' := by
  cases e with
  | lock t =>
    simp only [FlSys.step, Option.ite_none_right_eq_some, at_iff] at hs
    obtain ⟨⟨ht, hp⟩, hs⟩ := hs
    obtain rfl := Option.some.inj hs
    exact h.lock ht hp
  | tkWaiSem t =>
    simp only [FlSys.step, Option.ite_none_right_eq_some, at_iff, Option.map_eq_some_iff] at hs
    obtain ⟨⟨-, hp⟩, sem, hsem, rfl⟩ := hs
    exact (h.tkWaiSem hp hsem).1
  | ret t =>
    simp only [FlSys.step, Option.ite_none_right_eq_some, at_iff] at hs
    obtain ⟨⟨⟨-, hp⟩, hw⟩, hs⟩ := hs
    obtain rfl := Option.some.inj hs
    exact h.ret hp hw
  | unlock t =>
    simp only [FlSys.step, Option.ite_none_right_eq_some, at_iff] at hs
    obtain ⟨⟨-, hp⟩, hs⟩ := hs
    obtain rfl := Option.some.inj hs
    exact h.unlock hp
  | tkSigSem t =>
    simp only [FlSys.step, Option.ite_none_right_eq_some, at_iff, Option.map_eq_some_iff] at hs
    obtain ⟨⟨-, hp⟩, sem, hsem, rfl⟩ := hs
    exact h.tkSigSem hp hsem
  | chgPri t priority =>
    obtain rfl := Option.some.inj hs
    exact h.chgPri t priority

theorem flInv_of_reachable (h : (flMachine cfg).Reachable s) : FlInv cfg s := by
  refine h.invariant (FlInv cfg) ?_ fun s e s' hinv _ hs => flInv_step hinv hs
  rintro s ⟨priority, rfl⟩
  have hentered : (FlSys.created priority).entered cfg = 0 := census_eq_zero fun _ _ => rfl
  have hpassing : (FlSys.created priority).passing cfg = 0 := census_eq_zero fun _ _ => rfl
  refine ⟨⟨_, ⟨⟨by decide, by decide, by decide⟩, priority, rfl⟩, .refl _⟩, rfl,
    fun x hx => (List.not_mem_nil hx).elim, List.nodup_nil, fun _ _ => rfl, ?_, ?_⟩
  · rw [hentered]
    rfl
  · rw [hentered, hpassing]
    rfl

/-- The signal is for one of the tasks that have entered. -/
theorem FlInv.ready_of_sig (h : FlInv cfg s) (hp : s.pc t = .sig) {sem : SemSys}
    (hs : SemSys.step flSem s.sem (.tkSigSem 1) = some sem) :
    ∃ u, ({ s with sem }.goto t .out).Ready u := by
  have h' := h.tkSigSem hp hs
  obtain ⟨hpt, hw⟩ := h.sig_pass hp
  have ht := h.lt_of_ne (t := t) (by simp [hp])
  obtain ⟨-, sem', hs', -, hqueue, hsemcnt⟩ := h.tkSigSem_sem (h.no_token hpt hw)
  obtain rfl : sem' = sem := Option.some.inj (hs'.symm.trans hs)
  cases hq : s.sem.waitQueue with
  | nil =>
    -- The token is in the semaphore, so that nobody who has entered is past tk_wai_sem.
    rw [hq, if_pos rfl] at hsemcnt
    rw [hq, List.tail_nil] at hqueue
    have he : (s.goto t .out).entered cfg = s.entered cfg := entered_goto ht hp .out
    have hin : 0 < (s.goto t .out).entered cfg := by
      rw [he]
      exact Nat.pos_of_ne_zero (h.entered_ne hpt hw)
    obtain ⟨u, hu, hent⟩ := census_pos.1 hin
    have hnone : (s.goto t .out).passing cfg = 0 := by
      have hpass : ((s.goto t .out).passing cfg : Int) + sem'.semcnt = sem'.waitQueue.length +
        if (s.goto t .out).entered cfg = 0 then 0 else 1 := h'.passes
      rw [if_neg hin.ne', hsemcnt, hqueue, List.length_nil] at hpass
      omega
    have hno : ((s.goto t .out).pc u).passing = false := by
      by_contra hpu
      have hpos := census_pos.2 ⟨u, hu, by simpa using hpu⟩
      exact absurd hnone hpos.ne'
    refine ⟨u, Or.inr ⟨?_, ?_⟩⟩
    · show (s.goto t .out).pc u = .wai
      revert hent hno
      cases (s.goto t .out).pc u <;> simp [FlPc.entered, FlPc.passing]
    · show 0 < sem'.semcnt
      omega
  | cons x rest =>
    rw [hq, List.tail_cons] at hqueue
    have hnd := h.nodup
    rw [hq, List.map_cons, List.nodup_cons] at hnd
    have hx : x ∈ s.sem.waitQueue := by
      rw [hq]
      exact List.mem_cons_self
    refine ⟨x.tsk, Or.inl ⟨(h.queue_goto hw .out x hx).2, ?_⟩⟩
    show waiting x.tsk sem'.waitQueue = false
    rw [hqueue]
    by_contra hin
    have hin : waiting x.tsk rest = true := by simpa using hin
    obtain ⟨y, hy, he⟩ := List.any_eq_true.1 hin
    exact hnd.1 (List.mem_map.2 ⟨y, hy, eq_of_beq he⟩)

/-- A task that can complete Lock does so in its next step. -/
theorem FlInv.proceeds (h : FlInv cfg s) (hr : s.Ready t) :
    ∃ s', s.step cfg (s.proceed t) = some s' ∧ s'.pc t = .hold := by
  unfold FlSys.proceed
  rcases hr with ⟨hb, hw⟩ | ⟨hwai, htok⟩
  · have ht := h.lt_of_ne (t := t) (by simp [hb])
    rw [if_pos hb]
    refine ⟨s.goto t .hold, ?_, Function.update_self _ _ _⟩
    show (if s.at_ cfg t .blocked ∧ waiting t s.sem.waitQueue = false then _ else _) = _
    rw [if_pos ⟨at_iff.2 ⟨ht, hb⟩, hw⟩]
  · have ht := h.lt_of_ne (t := t) (by simp [hwai])
    obtain ⟨sem, hs, -⟩ := h.tkWaiSem_sem (h.not_waiting (t := t) (by simp [hwai]))
    have hno := (h.tkWaiSem hwai hs).2 htok
    rw [if_neg (by simp [hwai])]
    refine ⟨{ s with sem }.goto t .hold, ?_, Function.update_self _ _ _⟩
    show (if s.at_ cfg t .wai then _ else _) = _
    rw [if_pos (at_iff.2 ⟨ht, hwai⟩), hs, Option.map_some, hno, if_neg Bool.false_ne_true]

/-- The task that an Unlock lets go on. -/
theorem FlInv.letsOne (h : FlInv cfg s) (hs : FlSys.step cfg s (.tkSigSem t) = some s') :
    LetsOne cfg s' := by
  have h' := flInv_step h hs
  simp only [FlSys.step, Option.ite_none_right_eq_some, at_iff, Option.map_eq_some_iff] at hs
  obtain ⟨⟨-, hp⟩, sem, hsem, rfl⟩ := hs
  obtain ⟨hpt, hw⟩ := h.sig_pass hp
  refine ⟨fun u hu => ?_, h.ready_of_sig hp hsem, fun u hr => ?_⟩
  · have hu : Function.update s.pc t .out u = .hold := hu
    have hne : u ≠ t := fun he => by
      rw [he, Function.update_self] at hu
      cases hu
    rw [Function.update_of_ne hne] at hu
    exact hne (h.eq_of_pass (h.hold_pass hu).1 (h.hold_pass hu).2 hpt hw)
  · obtain ⟨s', hs', hhold⟩ := h'.proceeds hr
    exact ⟨s', hs', hhold, (flInv_step h' hs').settled hhold⟩

theorem FlInv.unlock_sig (h : FlInv cfg s) (hs : FlSys.step cfg s (.unlock t) = some s') :
    s'.pc t = .sig ↔ ∃ u, u ≠ t ∧ (s.pc u).entered = true := by
  simp only [FlSys.step, Option.ite_none_right_eq_some, at_iff] at hs
  obtain ⟨⟨ht, hp⟩, hs⟩ := hs
  obtain rfl := Option.some.inj hs
  have hpc : (({ s with cnt := s.dec.1 }.goto t (if 0 < s.dec.2 then .sig else .out)).pc t = .sig) ↔
      0 < s.dec.2 := by
    show Function.update s.pc t _ t = .sig ↔ _
    rw [Function.update_self]
    split <;> simp [*]
  have he : (s.goto t .out).entered cfg + 1 = s.entered cfg := entered_goto ht hp .out
  have hothers : 0 < s.dec.2 ↔ 0 < (s.goto t .out).entered cfg := by
    have hcnt := h.cnt
    rw [(h.dec_toInt hp).2]
    omega
  rw [hpc, hothers]
  unfold FlSys.entered
  rw [census_pos]
  show (∃ u < cfg.numTskid, (Function.update s.pc t .out u).entered = true) ↔ _
  constructor
  · rintro ⟨u, -, hu⟩
    have hne : u ≠ t := fun he => by
      rw [he, Function.update_self] at hu
      cases hu
    rw [Function.update_of_ne hne] at hu
    exact ⟨u, hne, hu⟩
  · rintro ⟨u, hne, hu⟩
    refine ⟨u, h.lt_of_ne fun hout => ?_, ?_⟩
    · rw [hout] at hu
      cases hu
    · rw [Function.update_of_ne hne]
      exact hu

/-- Whatever the order in which the tasks take their steps. -/
theorem flOk_of_reachable (h : (flMachine cfg).Reachable s) : FlOk cfg s := by
  have hinv := flInv_of_reachable h
  refine ⟨fun t u ht hu => ?_, hinv.semInv.range, fun t ht => ?_,
    fun t s' hs => hinv.unlock_sig hs, fun t s' hs => hinv.letsOne hs⟩
  · have hpt := hinv.hold_pass ht
    have hpu := hinv.hold_pass hu
    exact hinv.eq_of_pass hpt.1 hpt.2 hpu.1 hpu.2
  · obtain ⟨hpt, hw⟩ := hinv.sig_pass ht
    exact (hinv.tkSigSem_sem (hinv.no_token hpt hw)).1

end

/-- Three tasks. -/
def flCfg : TskCfg := { numTskid := 3, small := by decide }

/-- Task 1 is in the queue when task 2 enters, and gets the lock from task 0. -/
def flTrace : List FlEvent :=
  [.lock 0, .lock 1, .tkWaiSem 1, .lock 2, .unlock 0]

/-- One Unlock with two tasks in Lock. -/
theorem flOk_of_reachable_contended : ∃ s, (flMachine flCfg).Reachable s ∧ FlOk flCfg s ∧
    s.pc 0 = .sig ∧ s.pc 1 = .blocked ∧ s.pc 2 = .wai := by
  obtain ⟨s, hr, hp⟩ := Lts.reachable_of_trace (L := flMachine flCfg)
    (p := fun s => decide (s.pc 0 = .sig ∧ s.pc 1 = .blocked ∧ s.pc 2 = .wai)) flTrace
    ⟨fun _ => 5, rfl⟩ (by decide +kernel)
  exact ⟨s, hr, flOk_of_reachable hr, of_decide_eq_true hp⟩

end Mtk3Smp
