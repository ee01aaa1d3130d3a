import Mtk3Smp.Sync.Gcb
import Mtk3Smp.Lib.Lts
import Mathlib.Algebra.Order.Ring.Int

/-!
# Semaphores

`semaphore.c`. Each call is one critical section, and so is what the timer, tk_rel_wai, tk_ter_tsk
or a change of priority does to a task that waits, so a run on two cores is a sequence of them.
-/

namespace Mtk3Smp

open Gcb

/-- T_CSEM, with the attributes TA_TPRI and TA_CNT. -/
structure Csem where
  tpri : Bool
  cnt : Bool
  isemcnt : Int
  maxsem : Int

/-- The checks of tk_cre_sem. -/
structure Csem.Accepted (c : Csem) : Prop where
  isemcnt : 0 ≤ c.isemcnt
  maxsem : 0 < c.maxsem
  le : c.isemcnt ≤ c.maxsem

/-- The calls that a semaphore answers: tk_sig_sem and the tk_wai_sem of a task. -/
inductive SemCall
  | sig (cnt : Int)
  | wai (t : Tid) (cnt : Int)
  deriving DecidableEq, Repr

/-- A semaphore with the tasks that wait for it; `winfo` is `winfo.sem.cnt`. -/
structure SemSys where
  /-- `semid != 0` -/
  exists_ : Bool
  semcnt : Int
  waitQueue : List (Waiter Int)
  priority : Tid → Nat
  /-- history: what each call has returned -/
  ret : List (SemCall × ER)

/-- What a loop over the wait queue leaves: the tasks it has released, the queue and `semcnt`. -/
structure SemGrant where
  released : List (Waiter Int)
  waitQueue : List (Waiter Int)
  semcnt : Int

/-- The loop of tk_sig_sem, from `queue` on; `cnt` is TA_CNT. -/
def sigSemLoop (cnt : Bool) : List (Waiter Int) → Int → SemGrant
  | [], semcnt => ⟨[], [], semcnt⟩
  | tcb :: queue, semcnt =>
    if semcnt < tcb.winfo then
      if !cnt then ⟨[], tcb :: queue, semcnt⟩
      else
        let r := sigSemLoop cnt queue semcnt
        { r with waitQueue := tcb :: r.waitQueue }
    else if semcnt - tcb.winfo ≤ 0 then ⟨[tcb], queue, semcnt - tcb.winfo⟩
    else
      let r := sigSemLoop cnt queue (semcnt - tcb.winfo)
      { r with released := tcb :: r.released }

/-- The loop of `sem_chg_pri`. -/
def semChgPriLoop : List (Waiter Int) → Int → SemGrant
  | [], semcnt => ⟨[], [], semcnt⟩
  | top :: queue, semcnt =>
    if semcnt < top.winfo then ⟨[], top :: queue, semcnt⟩
    else
      let r := semChgPriLoop queue (semcnt - top.winfo)
      { r with released := top :: r.released }

namespace SemSys

variable (c : Csem) (s : SemSys)

def retd (a : SemCall) (e : ER) : SemSys := { s with ret := s.ret ++ [(a, e)] }

/-- `knl_wait_release_ok` of the tasks that a loop has released. -/
def granted (g : SemGrant) : SemSys :=
  { s with
    semcnt := g.semcnt
    waitQueue := g.waitQueue
    ret := s.ret ++ g.released.map fun x => (.wai x.tsk x.winfo, .E_OK) }

/-- tk_sig_sem -/
def tkSigSem (cnt : Int) : SemSys × ER :=
  if ¬ 0 < cnt then (s, .E_PAR)
  else if !s.exists_ then (s, .E_NOEXS)
  else if c.maxsem - s.semcnt < cnt then (s, .E_QOVR)
  else (s.granted (sigSemLoop c.cnt s.waitQueue (s.semcnt + cnt)), .E_OK)

/-- `sem_chg_pri` after the reordering, and `sem_rel_wai` -/
def semRelWai : SemSys :=
  if c.cnt then s else s.granted (semChgPriLoop s.waitQueue s.semcnt)

/-- tk_wai_sem, called by the task `self`; `ddsp` is `in_ddsp()`. -/
def tkWaiSem (self : Tid) (ddsp : Bool) (cnt : Int) (tmout : Tmo) : SemSys :=
  let call := .wai self cnt
  if ¬ 0 < cnt then s.retd call .E_PAR
  else if ddsp then s.retd call .E_CTX
  else if !s.exists_ then s.retd call .E_NOEXS
  else if c.maxsem < cnt then s.retd call .E_PAR
  else if (c.cnt || isTop c.tpri s.priority self s.waitQueue) ∧ cnt ≤ s.semcnt then
    { s with semcnt := s.semcnt - cnt }.retd call .E_OK
  else if tmout = .TMO_POL then s.retd call .E_TMOUT
  else { s with waitQueue := knlGcbMakeWait c.tpri s.priority ⟨self, tmout, cnt⟩ s.waitQueue }

/-- A waiting task leaves the queue and `sem_rel_wai` runs: `e` is what its call returns, none
where it does not return (tk_ter_tsk). -/
def endWait (t : Tid) (e : Option ER) : SemSys :=
  match s.waitQueue.find? (·.tsk == t) with
  | none => s
  | some x =>
    let s := { s with waitQueue := queRemove t s.waitQueue }
    (match e with
      | some e => s.retd (.wai t x.winfo) e
      | none => s).semRelWai c

/-- `knl_change_task_priority`: only a TA_TPRI semaphore has the hook `sem_chg_pri`. -/
def chgPri (t : Tid) (priority : Nat) : SemSys :=
  let s := { s with priority := Function.update s.priority t priority }
  if c.tpri ∧ waiting t s.waitQueue then
    { s with waitQueue := Gcb.knlGcbChangePriority s.priority t s.waitQueue }.semRelWai c
  else s

/-- tk_del_sem -/
def tkDelSem : SemSys :=
  if !s.exists_ then s
  else
    { s with
      exists_ := false
      waitQueue := []
      ret := s.ret ++ s.waitQueue.map fun x => (.wai x.tsk x.winfo, .E_DLT) }

end SemSys

inductive SemEvent
  | tkSigSem (cnt : Int)
  | tkWaiSem (self : Tid) (ddsp : Bool) (cnt : Int) (tmout : Tmo)
  /-- `knl_wait_release_tmout` from the timer, tk_rel_wai and tk_ter_tsk -/
  | timeout (t : Tid)
  | tkRelWai (t : Tid)
  | tkTerTsk (t : Tid)
  | chgPri (t : Tid) (priority : Nat)
  | tkDelSem

namespace SemSys

variable (c : Csem) (s : SemSys)

def step : SemEvent → Option SemSys
  | .tkSigSem cnt =>
    let (s, e) := s.tkSigSem c cnt
    some (s.retd (.sig cnt) e)
  -- a task that waits makes no call
  | .tkWaiSem self ddsp cnt tmout =>
    if waiting self s.waitQueue then none else some (s.tkWaiSem c self ddsp cnt tmout)
  | .timeout t => if timed t s.waitQueue then some (s.endWait c t (some .E_TMOUT)) else none
  | .tkRelWai t => if waiting t s.waitQueue then some (s.endWait c t (some .E_RLWAI)) else none
  | .tkTerTsk t => if waiting t s.waitQueue then some (s.endWait c t none) else none
  | .chgPri t priority => some (s.chgPri c t priority)
  | .tkDelSem => some s.tkDelSem

/-- What tk_cre_sem leaves. -/
def created (priority : Tid → Nat) : SemSys :=
  { exists_ := true, semcnt := c.isemcnt, waitQueue := [], priority, ret := [] }

end SemSys

def semMachine (c : Csem) : Lts SemSys SemEvent where
  init s := c.Accepted ∧ ∃ priority, s = SemSys.created c priority
  step := SemSys.step c

/-! ## What a semaphore keeps -/

/-- The counts that the successful tk_sig_sem calls have returned. -/
def signalled (ret : List (SemCall × ER)) : Int :=
  (ret.map fun
    | (.sig cnt, .E_OK) => cnt
    | _ => 0).sum

/-- The counts that the successful tk_wai_sem calls have got. -/
def obtained (ret : List (SemCall × ER)) : Int :=
  (ret.map fun
    | (.wai _ cnt, .E_OK) => cnt
    | _ => 0).sum

/-- No task waits that the count is enough for: without TA_CNT the first one, with it any. -/
def NoGrantable (cnt : Bool) (waitQueue : List (Waiter Int)) (semcnt : Int) : Prop :=
  ∀ x ∈ waitQueue, (cnt = false → waitQueue.head? = some x) → semcnt < x.winfo

structure SemOk (c : Csem) (s : SemSys) : Prop where
  range : 0 ≤ s.semcnt ∧ s.semcnt ≤ c.maxsem
  account : s.semcnt = c.isemcnt + signalled s.ret - obtained s.ret
  waiting : NoGrantable c.cnt s.waitQueue s.semcnt
  /-- a failing signal changes nothing -/
  refused : ∀ cnt, (s.tkSigSem c cnt).2 ≠ .E_OK → (s.tkSigSem c cnt).1 = s

/-- What holds also while the queue is being changed. -/
structure SemCounts (c : Csem) (s : SemSys) : Prop where
  accepted : c.Accepted
  range : 0 ≤ s.semcnt ∧ s.semcnt ≤ c.maxsem
  account : s.semcnt = c.isemcnt + signalled s.ret - obtained s.ret
  counts : ∀ x ∈ s.waitQueue, 0 < x.winfo

structure SemInv (c : Csem) (s : SemSys) : Prop extends SemCounts c s where
  waiting : NoGrantable c.cnt s.waitQueue s.semcnt

section

variable {c : Csem} {s t : SemSys} {q : List (Waiter Int)} {x : Waiter Int} {n : Int}
  {ret : List (SemCall × ER)}

theorem signalled_append (more : List (SemCall × ER)) :
    signalled (ret ++ more) = signalled ret + signalled more := by
  simp [signalled]

theorem obtained_append (more : List (SemCall × ER)) :
    obtained (ret ++ more) = obtained ret + obtained more := by
  simp [obtained]

/-- The counts that a loop has given to the tasks it has released. -/
def SemGrant.given (g : SemGrant) : Int := (g.released.map (·.winfo)).sum

theorem signalled_released (l : List (Waiter Int)) :
    signalled (l.map fun x => (.wai x.tsk x.winfo, .E_OK)) = 0 := by
  induction l with
  | nil => rfl
  | cons x l ih => simpa [signalled] using ih

theorem obtained_released (l : List (Waiter Int)) :
    obtained (l.map fun x => (.wai x.tsk x.winfo, .E_OK)) = (l.map (·.winfo)).sum := by
  simp [obtained, Function.comp_def]

/-! ### The loops -/

/-- What a loop that starts with the count `n` and the queue `q` may leave. -/
structure Grants (cnt : Bool) (q : List (Waiter Int)) (n : Int) (g : SemGrant) : Prop where
  nonneg : 0 ≤ g.semcnt
  le : g.semcnt ≤ n
  given : g.semcnt + g.given = n
  sub : ∀ x ∈ g.waitQueue, x ∈ q
  waiting : NoGrantable cnt g.waitQueue g.semcnt

theorem NoGrantable.nil {cnt : Bool} : NoGrantable cnt [] n := fun _ hx => by cases hx

/-- Nothing is left over for the tasks that wait for at least one. -/
theorem NoGrantable.of_le_zero {cnt : Bool} (hpos : ∀ x ∈ q, 0 < x.winfo) (hn : n ≤ 0) :
    NoGrantable cnt q n :=
  fun x hx _ => lt_of_le_of_lt hn (hpos x hx)

/-- A smaller count satisfies no more of them. -/
theorem NoGrantable.mono {cnt : Bool} {m : Int} (h : NoGrantable cnt q n) (hle : m ≤ n) :
    NoGrantable cnt q m :=
  fun x hx hhead => lt_of_le_of_lt hle (h x hx hhead)

/-- Without TA_CNT it is enough to look at the head. -/
theorem NoGrantable.of_head (h : ∀ x, q.head? = some x → n < x.winfo) : NoGrantable false q n :=
  fun x _ hhead => h x (hhead rfl)

theorem sigSemLoop_grants {cnt : Bool} (hn : 0 ≤ n) (hpos : ∀ x ∈ q, 0 < x.winfo) :
    Grants cnt q n (sigSemLoop cnt q n) := by
  induction q generalizing n with
  | nil => exact ⟨hn, le_rfl, by simp [sigSemLoop, SemGrant.given], by simp [sigSemLoop], .nil⟩
  | cons tcb queue ih =>
    have hq : ∀ x ∈ queue, 0 < x.winfo := fun x hx => hpos x (List.mem_cons_of_mem _ hx)
    have htcb := hpos tcb List.mem_cons_self
    unfold sigSemLoop
    by_cases small : n < tcb.winfo
    · rw [if_pos small]
      cases cnt with
      | false =>
        refine ⟨hn, le_rfl, by simp [SemGrant.given], fun x hx => hx, ?_⟩
        refine .of_head fun x hx => ?_
        obtain rfl : tcb = x := Option.some.inj hx
        exact small
      | true =>
        have rest := ih hn hq
        refine ⟨rest.nonneg, rest.le, rest.given, fun x hx => ?_, fun x hx _ => ?_⟩
        · rcases List.mem_cons.1 hx with rfl | hx
          · exact List.mem_cons_self
          · exact List.mem_cons_of_mem _ (rest.sub x hx)
        · rcases List.mem_cons.1 hx with rfl | hx
          · exact lt_of_le_of_lt rest.le small
          · exact rest.waiting x hx (by simp)
    · rw [if_neg small]
      by_cases used : n - tcb.winfo ≤ 0
      · rw [if_pos used]
        have hle : n - tcb.winfo ≤ n := by omega
        refine ⟨?_, hle, by simp [SemGrant.given], fun x hx => ?_, .of_le_zero hq used⟩
        · show 0 ≤ n - tcb.winfo
          omega
        · exact List.mem_cons_of_mem _ hx
      · rw [if_neg used]
        have rest := ih (n := n - tcb.winfo) (by omega) hq
        have hle := rest.le
        have hgiven := rest.given
        refine ⟨rest.nonneg, by dsimp only; omega, ?_, fun x hx => ?_, rest.waiting⟩
        · simp only [SemGrant.given, List.map_cons, List.sum_cons] at hgiven ⊢
          omega
        · exact List.mem_cons_of_mem _ (rest.sub x hx)

theorem semChgPriLoop_grants (hn : 0 ≤ n) (hpos : ∀ x ∈ q, 0 < x.winfo) :
    Grants false q n (semChgPriLoop q n) := by
  induction q generalizing n with
  | nil => exact ⟨hn, le_rfl, by simp [semChgPriLoop, SemGrant.given], by simp [semChgPriLoop], .nil⟩
  | cons top queue ih =>
    have hq : ∀ x ∈ queue, 0 < x.winfo := fun x hx => hpos x (List.mem_cons_of_mem _ hx)
    have htop := hpos top List.mem_cons_self
    unfold semChgPriLoop
    by_cases small : n < top.winfo
    · rw [if_pos small]
      refine ⟨hn, le_rfl, by simp [SemGrant.given], fun x hx => hx, ?_⟩
      refine .of_head fun x hx => ?_
      obtain rfl : top = x := Option.some.inj hx
      exact small
    · rw [if_neg small]
      have rest := ih (n := n - top.winfo) (by omega) hq
      have hle := rest.le
      have hgiven := rest.given
      refine ⟨rest.nonneg, by dsimp only; omega, ?_, fun x hx => ?_, rest.waiting⟩
      · simp only [SemGrant.given, List.map_cons, List.sum_cons] at hgiven ⊢
        omega
      · exact List.mem_cons_of_mem _ (rest.sub x hx)

/-! ### The calls -/

theorem signalled_error (a : SemCall) {e : ER} (he : e ≠ .E_OK) : signalled [(a, e)] = 0 := by
  cases a <;> cases e <;> first | rfl | exact absurd rfl he

theorem obtained_error (a : SemCall) {e : ER} (he : e ≠ .E_OK) : obtained [(a, e)] = 0 := by
  cases a <;> cases e <;> first | rfl | exact absurd rfl he

/-- A call that returns an error. -/
theorem SemCounts.retd (h : SemCounts c s) (a : SemCall) {e : ER} (he : e ≠ .E_OK) :
    SemCounts c (s.retd a e) := by
  refine { h with account := ?_ }
  have := h.account
  simp only [SemSys.retd, signalled_append, obtained_append, signalled_error a he,
    obtained_error a he]
  omega

theorem SemInv.retd (h : SemInv c s) (a : SemCall) {e : ER} (he : e ≠ .E_OK) :
    SemInv c (s.retd a e) :=
  ⟨h.toSemCounts.retd a he, h.waiting⟩

/-- The queue may lose tasks and be reordered. -/
theorem SemCounts.queue (h : SemCounts c s) (hq : ∀ x ∈ q, x ∈ s.waitQueue) :
    SemCounts c { s with waitQueue := q } :=
  { h with counts := fun x hx => h.counts x (hq x hx) }

/-- A loop has given counts to waiting tasks, starting with `add` more than there were, which the
call that returns then has signalled. -/
theorem SemCounts.granted (h : SemCounts c s) {g : SemGrant} {add : Int}
    (hadd : s.semcnt + add ≤ c.maxsem) (hg : Grants c.cnt s.waitQueue (s.semcnt + add) g)
    (sig : List (SemCall × ER)) (hsig : signalled sig = add) (hobt : obtained sig = 0) :
    SemInv c { s.granted g with ret := (s.granted g).ret ++ sig } := by
  refine ⟨⟨h.accepted, ⟨hg.nonneg, le_trans hg.le hadd⟩, ?_, fun x hx => h.counts x (hg.sub x hx)⟩,
    hg.waiting⟩
  have hacc := h.account
  have hgiven := hg.given
  unfold SemGrant.given at hgiven
  simp only [SemSys.granted, signalled_append, obtained_append, signalled_released,
    obtained_released, hsig, hobt]
  omega

/-- With TA_CNT nothing has to be done after a task has left the queue or moved in it. -/
theorem SemCounts.semRelWai (h : SemCounts c s)
    (hcnt : c.cnt = true → NoGrantable true s.waitQueue s.semcnt) : SemInv c (s.semRelWai c) := by
  unfold SemSys.semRelWai
  by_cases hc : c.cnt = true
  · rw [if_pos hc]
    refine ⟨h, ?_⟩
    rw [hc]
    exact hcnt hc
  · rw [if_neg hc]
    have loop := semChgPriLoop_grants h.range.1 h.counts
    have hadd : s.semcnt + 0 ≤ c.maxsem := by simpa using h.range.2
    have hg : Grants c.cnt s.waitQueue (s.semcnt + 0) (semChgPriLoop s.waitQueue s.semcnt) := by
      rw [Int.add_zero, Bool.eq_false_of_not_eq_true hc]
      exact loop
    have hinv := h.granted hadd hg [] rfl rfl
    simpa using hinv

theorem SemInv.tkSigSem (h : SemInv c s) (cnt : Int) :
    SemInv c ((s.tkSigSem c cnt).1.retd (.sig cnt) (s.tkSigSem c cnt).2) := by
  unfold SemSys.tkSigSem
  split
  · exact h.retd _ (by simp)
  split
  · exact h.retd _ (by simp)
  split
  · exact h.retd _ (by simp)
  rename_i hpos _ hover
  have hstart : 0 ≤ s.semcnt + cnt := by
    have := h.range.1
    omega
  refine h.granted (by omega) (sigSemLoop_grants hstart h.counts) _ ?_ ?_
  · simp [signalled]
  · simp [obtained]

theorem SemInv.tkWaiSem (h : SemInv c s) (self : Tid) (ddsp : Bool) (cnt : Int) (tmout : Tmo) :
    SemInv c (s.tkWaiSem c self ddsp cnt tmout) := by
  unfold SemSys.tkWaiSem
  dsimp only
  split
  · exact h.retd _ (by simp)
  split
  · exact h.retd _ (by simp)
  split
  · exact h.retd _ (by simp)
  split
  · exact h.retd _ (by simp)
  rename_i hpos _ _ _
  have hpos : 0 < cnt := by omega
  split
  · rename_i hget
    have hrange := h.range
    refine ⟨⟨h.accepted, ⟨?_, ?_⟩, ?_, h.counts⟩, h.waiting.mono ?_⟩
    · show 0 ≤ s.semcnt - cnt
      omega
    · show s.semcnt - cnt ≤ c.maxsem
      omega
    · have hacc := h.account
      simp only [SemSys.retd, signalled_append, obtained_append]
      simp only [signalled, obtained, List.map_cons, List.map_nil, List.sum_cons, List.sum_nil]
        at hacc ⊢
      omega
    · show s.semcnt - cnt ≤ s.semcnt
      omega
  rename_i hnot
  split
  · exact h.retd _ (by simp)
  refine ⟨{ h.toSemCounts with counts := fun x hx => ?_ }, fun x hx hhead => ?_⟩
  · rcases mem_makeWait.1 hx with rfl | hx
    · exact hpos
    · exact h.counts x hx
  · by_cases htop : isTop c.tpri s.priority self s.waitQueue = true
    · -- the newcomer would have been the next: the count is not enough for it
      have hsmall : s.semcnt < cnt := by
        by_contra hle
        exact hnot ⟨by simp [htop], by omega⟩
      rcases mem_makeWait.1 hx with rfl | hx
      · exact hsmall
      · cases hc : c.cnt with
        | true => exact h.waiting x hx fun hf => by simp [hc] at hf
        | false =>
          have hhead := hhead hc
          rw [head?_makeWait_of_isTop (x := ⟨self, tmout, cnt⟩) htop] at hhead
          obtain rfl := Option.some.inj hhead
          exact hsmall
    · have htop : isTop c.tpri s.priority self s.waitQueue = false := by simpa using htop
      rw [head?_makeWait (x := ⟨self, tmout, cnt⟩) htop] at hhead
      rcases mem_makeWait.1 hx with rfl | hx
      · cases hc : c.cnt with
        | true =>
          by_contra hle
          refine hnot ⟨by simp [hc], ?_⟩
          show cnt ≤ s.semcnt
          simpa using hle
        | false =>
          have hmem := List.mem_of_mem_head? (Option.mem_def.2 (hhead hc))
          exact h.waiting _ hmem hhead
      · exact h.waiting x hx hhead

theorem SemInv.endWait (h : SemInv c s) (t : Tid) {e : Option ER} (he : e ≠ some .E_OK) :
    SemInv c (s.endWait c t e) := by
  unfold SemSys.endWait
  split
  · exact h
  rename_i x _
  have hq := h.toSemCounts.queue (q := queRemove t s.waitQueue) fun y hy => mem_of_mem_queRemove hy
  have hcnt : c.cnt = true → NoGrantable true (queRemove t s.waitQueue) s.semcnt := by
    intro hc y hy _
    exact h.waiting y (mem_of_mem_queRemove hy) fun hf => by simp [hc] at hf
  cases e with
  | none => exact hq.semRelWai hcnt
  | some e => exact (hq.retd _ fun hok => he (hok ▸ rfl)).semRelWai hcnt

theorem SemInv.chgPri (h : SemInv c s) (t : Tid) (priority : Nat) :
    SemInv c (s.chgPri c t priority) := by
  unfold SemSys.chgPri
  dsimp only
  have hpri : SemInv c { s with priority := Function.update s.priority t priority } :=
    ⟨{ h.toSemCounts with }, h.waiting⟩
  split
  · refine (hpri.toSemCounts.queue fun y hy => mem_changePriority.1 hy).semRelWai fun hc y hy _ => ?_
    exact h.waiting y (mem_changePriority.1 hy) fun hf => by simp [hc] at hf
  · exact hpri

theorem SemInv.tkDelSem (h : SemInv c s) : SemInv c s.tkDelSem := by
  unfold SemSys.tkDelSem
  split
  · exact h
  have hdlt : ∀ l : List (Waiter Int), signalled (l.map fun x => (.wai x.tsk x.winfo, .E_DLT)) = 0 ∧
      obtained (l.map fun x => (.wai x.tsk x.winfo, .E_DLT)) = 0 := by
    intro l
    induction l with
    | nil => exact ⟨rfl, rfl⟩
    | cons x l ih => exact ⟨by simpa [signalled] using ih.1, by simpa [obtained] using ih.2⟩
  refine ⟨⟨h.accepted, h.range, ?_, by simp⟩, .nil⟩
  have := h.account
  simp only [signalled_append, obtained_append, hdlt]
  omega

theorem semInv_step (h : SemInv c s) {e : SemEvent} (hs : SemSys.step c s e = some t) :
    SemInv c t := by
  cases e with
  | tkSigSem cnt =>
    obtain rfl := Option.some.inj hs
    exact h.tkSigSem cnt
  | tkWaiSem self ddsp cnt tmout =>
    simp only [SemSys.step, Option.ite_none_left_eq_some] at hs
    obtain ⟨-, hs⟩ := hs
    obtain rfl := Option.some.inj hs
    exact h.tkWaiSem self ddsp cnt tmout
  | timeout t =>
    simp only [SemSys.step, Option.ite_none_right_eq_some] at hs
    obtain ⟨-, hs⟩ := hs
    obtain rfl := Option.some.inj hs
    exact h.endWait t (by simp)
  | tkRelWai t =>
    simp only [SemSys.step, Option.ite_none_right_eq_some] at hs
    obtain ⟨-, hs⟩ := hs
    obtain rfl := Option.some.inj hs
    exact h.endWait t (by simp)
  | tkTerTsk t =>
    simp only [SemSys.step, Option.ite_none_right_eq_some] at hs
    obtain ⟨-, hs⟩ := hs
    obtain rfl := Option.some.inj hs
    exact h.endWait t (by simp)
  | chgPri t priority =>
    obtain rfl := Option.some.inj hs
    exact h.chgPri t priority
  | tkDelSem =>
    obtain rfl := Option.some.inj hs
    exact h.tkDelSem

theorem semInv_of_reachable (h : (semMachine c).Reachable s) : SemInv c s := by
  refine h.invariant (SemInv c) ?_ fun s e t hinv _ hs => semInv_step hinv hs
  rintro s ⟨ok, priority, rfl⟩
  refine ⟨⟨ok, ⟨ok.isemcnt, ok.le⟩, ?_, by simp [SemSys.created]⟩, .nil⟩
  simp [SemSys.created, signalled, obtained]

end

theorem semOk_of_reachable (c : Csem) {s : SemSys} (h : (semMachine c).Reachable s) :
    SemOk c s := by
  have hinv := semInv_of_reachable h
  refine ⟨hinv.range, hinv.account, hinv.waiting, fun cnt herr => ?_⟩
  unfold SemSys.tkSigSem at herr ⊢
  split_ifs at herr ⊢ <;> first | rfl | exact absurd rfl herr

/-- Without TA_CNT: task 1 waits behind task 0, whose timeout lets it go. -/
theorem semOk_of_reachable_timeout :
    ∃ s, s.ret = [(.wai 0 3, .E_TMOUT), (.wai 1 2, .E_OK)] ∧ s.semcnt = 0 ∧
      SemOk ⟨true, false, 2, 4⟩ s := by
  let c : Csem := ⟨true, false, 2, 4⟩
  let es : List SemEvent := [.tkWaiSem 0 false 3 (.after 5), .tkWaiSem 1 false 2 .TMO_FEVR, .timeout 0]
  have trace : (((semMachine c).exec (fun _ _ => true) (SemSys.created c fun t => t) es).any fun s =>
      s.ret == [(.wai 0 3, .E_TMOUT), (.wai 1 2, .E_OK)] && s.semcnt == 0) = true := by
    decide +kernel
  obtain ⟨s, hs, hp⟩ := Lts.reachable_of_trace (L := semMachine c) es
    ⟨⟨by decide, by decide, by decide⟩, fun t => t, rfl⟩ trace
  simp only [Bool.and_eq_true, beq_iff_eq] at hp
  exact ⟨s, hp.1, hp.2, semOk_of_reachable c hs⟩

end Mtk3Smp
