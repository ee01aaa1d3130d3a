import Mtk3Smp.Sync.Gcb
import Mtk3Smp.Lib.Lts

/-!
# Event flags

`eventflag.c`. tk_set_flg walks the wait queue once and stops early; `fullScan` is the walk
without the early exits. As for the semaphores, each call is one critical section.
-/

namespace Mtk3Smp

open Gcb

/-- The bits of `wfmode`. -/
def TWF_ORW : BitVec 32 := 0x01
def TWF_CLR : BitVec 32 := 0x10
def TWF_BITCLR : BitVec 32 := 0x20

/-- `winfo.flg` of a waiting task: the pattern has passed the check of tk_wai_flg. -/
structure FlgWinfo where
  waiptn : BitVec 32
  wfmode : BitVec 32
  waiptn_ne : waiptn ≠ 0

/-- `knl_eventflag_cond` -/
def knlEventflagCond (flgptn waiptn wfmode : BitVec 32) : Bool :=
  if wfmode &&& TWF_ORW ≠ 0 then flgptn &&& waiptn ≠ 0 else flgptn &&& waiptn = waiptn

/-- The condition of a waiting task. -/
def FlgWinfo.cond (w : FlgWinfo) (flgptn : BitVec 32) : Bool :=
  knlEventflagCond flgptn w.waiptn w.wfmode

/-- What a walk over the wait queue leaves: the released tasks, each with the pattern it receives,
the queue and the pattern of the flag. -/
@[ext] structure FlgGrant where
  released : List (Waiter FlgWinfo × BitVec 32)
  waitQueue : List (Waiter FlgWinfo)
  flgptn : BitVec 32

/-- The loop of tk_set_flg, from `queue` on. -/
def setFlgLoop : List (Waiter FlgWinfo) → BitVec 32 → FlgGrant
  | [], flgptn => ⟨[], [], flgptn⟩
  | tcb :: queue, flgptn =>
    let waiptn := tcb.winfo.waiptn
    let wfmode := tcb.winfo.wfmode
    if knlEventflagCond flgptn waiptn wfmode then
      if wfmode &&& TWF_BITCLR ≠ 0 ∧ flgptn &&& ~~~waiptn = 0 then ⟨[(tcb, flgptn)], queue, 0⟩
      else if wfmode &&& TWF_CLR ≠ 0 then ⟨[(tcb, flgptn)], queue, 0⟩
      else
        let cleared := if wfmode &&& TWF_BITCLR ≠ 0 then flgptn &&& ~~~waiptn else flgptn
        let r := setFlgLoop queue cleared
        { r with released := (tcb, flgptn) :: r.released }
    else
      let r := setFlgLoop queue flgptn
      { r with waitQueue := tcb :: r.waitQueue }

/-- The pattern after the clear that a released task has asked for. -/
def FlgWinfo.clear (w : FlgWinfo) (flgptn : BitVec 32) : BitVec 32 :=
  let flgptn := if w.wfmode &&& TWF_BITCLR ≠ 0 then flgptn &&& ~~~w.waiptn else flgptn
  if w.wfmode &&& TWF_CLR ≠ 0 then 0 else flgptn

/-- The full scan: every waiting task is tested once, in the order of the queue, against the
pattern that the clears of those before it have left. -/
def fullScan : List (Waiter FlgWinfo) → BitVec 32 → FlgGrant
  | [], flgptn => ⟨[], [], flgptn⟩
  | x :: queue, flgptn =>
    if x.winfo.cond flgptn then
      let r := fullScan queue (x.winfo.clear flgptn)
      { r with released := (x, flgptn) :: r.released }
    else
      let r := fullScan queue flgptn
      { r with waitQueue := x :: r.waitQueue }

/-- An event flag with the tasks that wait for it. -/
structure FlgSys where
  /-- `flgid != 0` -/
  exists_ : Bool
  flgptn : BitVec 32
  waitQueue : List (Waiter FlgWinfo)
  priority : Tid → Nat
  /-- history: what each tk_wai_flg has returned, with what it has stored in `*p_flgptn` -/
  ret : List (Tid × ER × Option (BitVec 32))

/-- T_CFLG, with the attributes TA_TPRI and TA_WMUL. -/
structure Cflg where
  tpri : Bool
  wmul : Bool
  iflgptn : BitVec 32

namespace FlgSys

variable (c : Cflg) (s : FlgSys)

def retd (t : Tid) (e : ER) (flgptn : Option (BitVec 32)) : FlgSys :=
  { s with ret := s.ret ++ [(t, e, flgptn)] }

/-- `*tcb->winfo.flg.p_flgptn = …` and `knl_wait_release_ok` of the tasks that a walk has
released. -/
def granted (g : FlgGrant) : FlgSys :=
  { s with
    flgptn := g.flgptn
    waitQueue := g.waitQueue
    ret := s.ret ++ g.released.map fun x => (x.1.tsk, .E_OK, some x.2) }

/-- tk_set_flg -/
def tkSetFlg (setptn : BitVec 32) : FlgSys × ER :=
  if !s.exists_ then (s, .E_NOEXS)
  else (s.granted (setFlgLoop s.waitQueue (s.flgptn ||| setptn)), .E_OK)

/-- tk_clr_flg -/
def tkClrFlg (clrptn : BitVec 32) : FlgSys × ER :=
  if !s.exists_ then (s, .E_NOEXS) else ({ s with flgptn := s.flgptn &&& clrptn }, .E_OK)

/-- tk_wai_flg, called by the task `self`; `ddsp` is `in_ddsp()`. -/
def tkWaiFlg (self : Tid) (ddsp : Bool) (waiptn wfmode : BitVec 32) (tmout : Tmo) : FlgSys :=
  if h : waiptn = 0 then s.retd self .E_PAR none
  else if wfmode &&& ~~~(TWF_ORW ||| TWF_CLR ||| TWF_BITCLR) ≠ 0 then s.retd self .E_PAR none
  else if ddsp then s.retd self .E_CTX none
  else if !s.exists_ then s.retd self .E_NOEXS none
  else if !c.wmul ∧ s.waitQueue ≠ [] then s.retd self .E_OBJ none
  else if knlEventflagCond s.flgptn waiptn wfmode then
    let flgptn := if wfmode &&& TWF_BITCLR ≠ 0 then s.flgptn &&& ~~~waiptn else s.flgptn
    let flgptn := if wfmode &&& TWF_CLR ≠ 0 then 0 else flgptn
    { s with flgptn }.retd self .E_OK (some s.flgptn)
  else if tmout = .TMO_POL then s.retd self .E_TMOUT none
  else
    let x := ⟨self, tmout, ⟨waiptn, wfmode, h⟩⟩
    { s with waitQueue := knlGcbMakeWait c.tpri s.priority x s.waitQueue }

/-- A waiting task leaves the queue (there is no `rel_wai_hook`): `e` is what its call returns,
none where it does not return (tk_ter_tsk). -/
def endWait (t : Tid) (e : Option ER) : FlgSys :=
  let s := { s with waitQueue := queRemove t s.waitQueue }
  match e with
  | some e => s.retd t e none
  | none => s

/-- `knl_change_task_priority`: only a TA_TPRI flag has the hook `flg_chg_pri`. -/
def chgPri (t : Tid) (priority : Nat) : FlgSys :=
  let s := { s with priority := Function.update s.priority t priority }
  if c.tpri then { s with waitQueue := Gcb.knlGcbChangePriority s.priority t s.waitQueue } else s

/-- tk_del_flg -/
def tkDelFlg : FlgSys :=
  if !s.exists_ then s
  else
    { s with
      exists_ := false
      waitQueue := []
      ret := s.ret ++ s.waitQueue.map fun x => (x.tsk, .E_DLT, none) }

end FlgSys

inductive FlgEvent
  | tkSetFlg (setptn : BitVec 32)
  | tkClrFlg (clrptn : BitVec 32)
  | tkWaiFlg (self : Tid) (ddsp : Bool) (waiptn wfmode : BitVec 32) (tmout : Tmo)
  /-- `knl_wait_release_tmout` from the timer, tk_rel_wai and tk_ter_tsk -/
  | timeout (t : Tid)
  | tkRelWai (t : Tid)
  | tkTerTsk (t : Tid)
  | chgPri (t : Tid) (priority : Nat)
  | tkDelFlg

namespace FlgSys

variable (c : Cflg) (s : FlgSys)

def step : FlgEvent → Option FlgSys
  | .tkSetFlg setptn => some (s.tkSetFlg setptn).1
  | .tkClrFlg clrptn => some (s.tkClrFlg clrptn).1
  -- a task that waits makes no call
  | .tkWaiFlg self ddsp waiptn wfmode tmout =>
    if waiting self s.waitQueue then none else some (s.tkWaiFlg c self ddsp waiptn wfmode tmout)
  | .timeout t => if timed t s.waitQueue then some (s.endWait t (some .E_TMOUT)) else none
  | .tkRelWai t => if waiting t s.waitQueue then some (s.endWait t (some .E_RLWAI)) else none
  | .tkTerTsk t => if waiting t s.waitQueue then some (s.endWait t none) else none
  | .chgPri t priority => some (s.chgPri c t priority)
  | .tkDelFlg => some s.tkDelFlg

/-- What tk_cre_flg leaves. -/
def created (priority : Tid → Nat) : FlgSys :=
  { exists_ := true, flgptn := c.iflgptn, waitQueue := [], priority, ret := [] }

end FlgSys

def flgMachine (c : Cflg) : Lts FlgSys FlgEvent where
  init s := ∃ priority, s = FlgSys.created c priority
  step := FlgSys.step c

/-- No task waits for a condition that holds. -/
def FlgSys.Unsatisfied (s : FlgSys) : Prop :=
  ∀ x ∈ s.waitQueue, x.winfo.cond s.flgptn = false

section

variable {c : Cflg} {s t : FlgSys} {q : List (Waiter FlgWinfo)} {w : FlgWinfo} {p p' : BitVec 32}

/-! ## The loop and the full scan -/

theorem FlgWinfo.cond_zero (w : FlgWinfo) : ¬ w.cond 0 = true := by
  have hne := w.waiptn_ne
  unfold FlgWinfo.cond knlEventflagCond
  split
  · simp
  · simpa using fun h => hne h.symm

/-- With an empty pattern the scan releases no task. -/
theorem fullScan_zero (q : List (Waiter FlgWinfo)) : fullScan q 0 = ⟨[], q, 0⟩ := by
  induction q with
  | nil => rfl
  | cons x queue ih =>
    unfold fullScan
    rw [if_neg x.winfo.cond_zero, ih]

theorem setFlgLoop_eq_fullScan (q : List (Waiter FlgWinfo)) (p : BitVec 32) :
    setFlgLoop q p = fullScan q p := by
  induction q generalizing p with
  | nil => rfl
  | cons x queue ih =>
    unfold setFlgLoop fullScan
    by_cases cond : knlEventflagCond p x.winfo.waiptn x.winfo.wfmode = true
    · have cond' : x.winfo.cond p = true := cond
      dsimp only
      rw [if_pos cond, if_pos cond']
      by_cases zero : x.winfo.wfmode &&& TWF_BITCLR ≠ 0 ∧ p &&& ~~~x.winfo.waiptn = 0
      · -- the exit after TWF_BITCLR: the pattern is empty
        have hclear : x.winfo.clear p = 0 := by
          unfold FlgWinfo.clear
          rw [if_pos zero.1, zero.2, ite_self]
        rw [if_pos zero, hclear, fullScan_zero]
      · rw [if_neg zero]
        by_cases clr : x.winfo.wfmode &&& TWF_CLR ≠ 0
        · have hclear : x.winfo.clear p = 0 := if_pos clr
          rw [if_pos clr, hclear, fullScan_zero]
        · have hclear : x.winfo.clear p =
              if x.winfo.wfmode &&& TWF_BITCLR ≠ 0 then p &&& ~~~x.winfo.waiptn else p := if_neg clr
          rw [if_neg clr, hclear, ih]
    · have cond' : ¬ x.winfo.cond p = true := cond
      dsimp only
      rw [if_neg cond, if_neg cond', ih]

/-! ## Waiting tasks -/

/-- The bits of the one pattern are bits of the other. -/
def Below (p p' : BitVec 32) : Prop := p &&& p' = p

theorem Below.refl (p : BitVec 32) : Below p p := BitVec.and_self

theorem Below.trans {p₁ p₂ p₃ : BitVec 32} (h : Below p₁ p₂) (h' : Below p₂ p₃) :
    Below p₁ p₃ := by
  unfold Below at *
  calc p₁ &&& p₃ = p₁ &&& p₂ &&& p₃ := by rw [h]
    _ = p₁ &&& (p₂ &&& p₃) := BitVec.and_assoc ..
    _ = p₁ := by rw [h', h]

theorem Below.and (p m : BitVec 32) : Below (p &&& m) p := by
  unfold Below
  rw [BitVec.and_comm, ← BitVec.and_assoc, BitVec.and_self]

theorem Below.clear (w : FlgWinfo) (p : BitVec 32) : Below (w.clear p) p := by
  unfold FlgWinfo.clear
  dsimp only
  split_ifs with clr bitclr
  · exact BitVec.zero_and
  · exact .and p _
  · exact .refl p

/-- Clearing bits satisfies no condition. -/
theorem FlgWinfo.cond_below (h : w.cond p' = false) (hle : Below p p') : w.cond p = false := by
  unfold Below at hle
  unfold FlgWinfo.cond knlEventflagCond at h ⊢
  split_ifs at h ⊢ with mode
  · have hno : p' &&& w.waiptn = 0 := by simpa using h
    have hp : p &&& w.waiptn = 0 := by
      calc p &&& w.waiptn = p &&& p' &&& w.waiptn := by rw [hle]
        _ = p &&& (p' &&& w.waiptn) := BitVec.and_assoc ..
        _ = 0 := by rw [hno]; exact BitVec.and_zero
    simpa using hp
  · have hno : ¬ p' &&& w.waiptn = w.waiptn := by simpa using h
    have hp : ¬ p &&& w.waiptn = w.waiptn := by
      intro hall
      apply hno
      calc p' &&& w.waiptn = p' &&& (p &&& w.waiptn) := by rw [hall]
        _ = p &&& p' &&& w.waiptn := by rw [← BitVec.and_assoc, BitVec.and_comm p' p]
        _ = w.waiptn := by rw [hle, hall]
    simpa using hp

theorem FlgSys.Unsatisfied.mono {s' : FlgSys} (h : s.Unsatisfied)
    (hq : ∀ x ∈ s'.waitQueue, x ∈ s.waitQueue) (hle : Below s'.flgptn s.flgptn) :
    s'.Unsatisfied :=
  fun x hx => FlgWinfo.cond_below (h x (hq x hx)) hle

/-- The pattern only loses bits in a scan, so the tasks it has left behind stay unsatisfied. -/
theorem fullScan_leaves (q : List (Waiter FlgWinfo)) (p : BitVec 32) :
    Below (fullScan q p).flgptn p ∧
      ∀ x ∈ (fullScan q p).waitQueue, x.winfo.cond (fullScan q p).flgptn = false := by
  induction q generalizing p with
  | nil => exact ⟨.refl p, fun x hx => by cases hx⟩
  | cons x queue ih =>
    unfold fullScan
    by_cases cond : x.winfo.cond p = true
    · rw [if_pos cond]
      obtain ⟨hle, hrest⟩ := ih (x.winfo.clear p)
      exact ⟨hle.trans (.clear _ _), hrest⟩
    · rw [if_neg cond]
      obtain ⟨hle, hrest⟩ := ih p
      refine ⟨hle, fun y hy => ?_⟩
      rcases List.mem_cons.1 hy with rfl | hy
      · exact FlgWinfo.cond_below (Bool.eq_false_of_not_eq_true cond) hle
      · exact hrest y hy

/-! ## The calls -/

theorem tkSetFlg_eq_fullScan (s : FlgSys) (setptn : BitVec 32) (hex : s.exists_ = true) :
    s.tkSetFlg setptn = (s.granted (fullScan s.waitQueue (s.flgptn ||| setptn)), .E_OK) := by
  unfold FlgSys.tkSetFlg
  rw [hex, setFlgLoop_eq_fullScan]
  rfl

theorem FlgSys.Unsatisfied.tkSetFlg (h : s.Unsatisfied) (setptn : BitVec 32) :
    (s.tkSetFlg setptn).1.Unsatisfied := by
  by_cases hex : s.exists_ = true
  · rw [tkSetFlg_eq_fullScan s setptn hex]
    exact (fullScan_leaves _ _).2
  · unfold FlgSys.tkSetFlg
    rw [if_pos (by simpa using hex)]
    exact h

theorem FlgSys.Unsatisfied.tkWaiFlg (h : s.Unsatisfied) (self : Tid) (ddsp : Bool)
    (waiptn wfmode : BitVec 32) (tmout : Tmo) :
    (s.tkWaiFlg c self ddsp waiptn wfmode tmout).Unsatisfied := by
  unfold FlgSys.tkWaiFlg
  split
  · exact h
  rename_i hne
  split
  · exact h
  split
  · exact h
  split
  · exact h
  split
  · exact h
  split
  · refine h.mono (fun x hx => hx) ?_
    exact .clear ⟨waiptn, wfmode, hne⟩ s.flgptn
  split
  · exact h
  rename_i hcond _
  intro x hx
  rcases mem_makeWait.1 hx with rfl | hx
  · exact Bool.eq_false_of_not_eq_true hcond
  · exact h x hx

theorem FlgSys.Unsatisfied.endWait (h : s.Unsatisfied) (t : Tid) (e : Option ER) :
    (s.endWait t e).Unsatisfied := by
  have hq : ∀ x ∈ queRemove t s.waitQueue, x.winfo.cond s.flgptn = false :=
    fun x hx => h x (mem_of_mem_queRemove hx)
  cases e with
  | none => exact hq
  | some e => exact hq

theorem FlgSys.Unsatisfied.chgPri (h : s.Unsatisfied) (t : Tid) (priority : Nat) :
    (s.chgPri c t priority).Unsatisfied := by
  unfold FlgSys.chgPri
  dsimp only
  split
  · exact fun x hx => h x (mem_changePriority.1 hx)
  · exact h

theorem unsatisfied_step (h : s.Unsatisfied) {e : FlgEvent} (hs : FlgSys.step c s e = some t) :
    t.Unsatisfied := by
  cases e with
  | tkSetFlg setptn =>
    obtain rfl := Option.some.inj hs
    exact h.tkSetFlg setptn
  | tkClrFlg clrptn =>
    obtain rfl := Option.some.inj hs
    unfold FlgSys.tkClrFlg
    split
    · exact h
    · exact h.mono (fun x hx => hx) (.and _ _)
  | tkWaiFlg self ddsp waiptn wfmode tmout =>
    simp only [FlgSys.step, Option.ite_none_left_eq_some] at hs
    obtain ⟨-, hs⟩ := hs
    obtain rfl := Option.some.inj hs
    exact h.tkWaiFlg self ddsp waiptn wfmode tmout
  | timeout t =>
    simp only [FlgSys.step, Option.ite_none_right_eq_some] at hs
    obtain ⟨-, hs⟩ := hs
    obtain rfl := Option.some.inj hs
    exact h.endWait t _
  | tkRelWai t =>
    simp only [FlgSys.step, Option.ite_none_right_eq_some] at hs
    obtain ⟨-, hs⟩ := hs
    obtain rfl := Option.some.inj hs
    exact h.endWait t _
  | tkTerTsk t =>
    simp only [FlgSys.step, Option.ite_none_right_eq_some] at hs
    obtain ⟨-, hs⟩ := hs
    obtain rfl := Option.some.inj hs
    exact h.endWait t _
  | chgPri t priority =>
    obtain rfl := Option.some.inj hs
    exact h.chgPri t priority
  | tkDelFlg =>
    obtain rfl := Option.some.inj hs
    unfold FlgSys.tkDelFlg
    split
    · exact h
    · exact fun x hx => by cases hx

theorem unsatisfied_of_reachable (h : (flgMachine c).Reachable s) : s.Unsatisfied := by
  refine h.invariant FlgSys.Unsatisfied ?_ fun s e t hinv _ hs => unsatisfied_step hinv hs
  rintro s ⟨priority, rfl⟩
  exact fun x hx => by cases hx

end

/-- tk_set_flg is the full scan, and after every call no task waits for a condition that holds. -/
theorem setFlg_scans (c : Cflg) :
    (∀ (s : FlgSys) (setptn : BitVec 32), s.exists_ = true →
      s.tkSetFlg setptn = (s.granted (fullScan s.waitQueue (s.flgptn ||| setptn)), .E_OK)) ∧
    ∀ s, (flgMachine c).Reachable s → s.Unsatisfied :=
  ⟨tkSetFlg_eq_fullScan, fun _ h => unsatisfied_of_reachable h⟩

/-- Three tasks that one tk_set_flg releases, the second and the third by what the first has left. -/
theorem setFlg_scans_shared :
    ∃ s : FlgSys, s.flgptn = 0 ∧
      s.ret = [(0, .E_OK, some 7), (1, .E_OK, some 4), (2, .E_OK, some 4)] ∧
      s.Unsatisfied ∧ s.tkSetFlg 1 = (s.granted (fullScan s.waitQueue (s.flgptn ||| 1)), .E_OK) := by
  let c : Cflg := ⟨true, true, 0⟩
  let es : List FlgEvent := [.tkWaiFlg 0 false 3 TWF_BITCLR .TMO_FEVR,
    .tkWaiFlg 2 false 4 TWF_CLR .TMO_FEVR, .tkWaiFlg 1 false 6 TWF_ORW (.after 5), .tkSetFlg 7]
  have trace : (((flgMachine c).exec (fun _ _ => true) (FlgSys.created c fun t => t) es).any fun s =>
      s.ret == [(0, .E_OK, some 7), (1, .E_OK, some 4), (2, .E_OK, some 4)] && s.flgptn == 0 &&
        s.exists_) = true := by
    decide +kernel
  obtain ⟨s, hs, hp⟩ := Lts.reachable_of_trace (L := flgMachine c) es ⟨fun t => t, rfl⟩ trace
  simp only [Bool.and_eq_true, beq_iff_eq] at hp
  exact ⟨s, hp.1.2, hp.1.1, (setFlg_scans c).2 s hs, (setFlg_scans c).1 s 1 hp.2⟩

end Mtk3Smp
