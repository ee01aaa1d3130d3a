import Mtk3Smp.Kernel.State
import Mtk3Smp.Lib.KeyOrder
import Mathlib.Algebra.Order.Ring.Nat

/-!
# Wait queues of objects

The part of `wait.c` and `wait.h` that the synchronization objects share: the queue in a GCB with
the tasks that wait there and their `winfo`. What a release does to the task itself is in
`Sync/Wait`; here a released task is one that has left the queue.
-/

namespace Mtk3Smp

/-- The number of tasks, which have positive values of ID (an INT) for names. -/
structure TskCfg where
  numTskid : Nat
  small : numTskid < 2 ^ 31

/-- A waiting task: `tcb->winfo` and the timeout it has given. -/
structure Waiter (ι : Type) where
  tsk : Tid
  tmout : Tmo
  winfo : ι
  deriving DecidableEq, Repr

namespace Gcb

variable {ι : Type} (tpri : Bool) (priority : Tid → Nat) (t : Tid)

/-- `knl_queue_insert_tpri` -/
def knlQueueInsertTpri (x : Waiter ι) (q : List (Waiter ι)) : List (Waiter ι) :=
  KeyOrder.insert (fun w => priority w.tsk) x q

/-- The insertion of `knl_gcb_make_wait`; `tpri` is TA_TPRI in `objatr`. -/
def knlGcbMakeWait (x : Waiter ι) (q : List (Waiter ι)) : List (Waiter ι) :=
  if tpri then knlQueueInsertTpri priority x q else q ++ [x]

/-- QueRemove -/
def queRemove (q : List (Waiter ι)) : List (Waiter ι) := q.eraseP (·.tsk == t)

/-- `knl_gcb_change_priority`, after the change of the priority -/
def knlGcbChangePriority (q : List (Waiter ι)) : List (Waiter ι) :=
  match q.find? (·.tsk == t) with
  | some x => knlQueueInsertTpri priority x (queRemove t q)
  | none => q

/-- `knl_gcb_top_of_wait_queue(gcb, t) == t`, for a task that is not in the queue. -/
def isTop : List (Waiter ι) → Bool
  | [] => true
  | q :: _ => tpri && priority t < priority q.tsk

/-- The task is in the queue. -/
def waiting (q : List (Waiter ι)) : Bool := q.any (·.tsk == t)

/-- It waits with a timeout. -/
def timed (q : List (Waiter ι)) : Bool := q.any fun x => x.tsk == t && x.tmout != .TMO_FEVR

section

variable {tpri priority t} {q : List (Waiter ι)} {x y : Waiter ι}

@[simp] theorem mem_makeWait : y ∈ knlGcbMakeWait tpri priority x q ↔ y = x ∨ y ∈ q := by
  unfold knlGcbMakeWait knlQueueInsertTpri
  split
  · exact KeyOrder.mem_insert
  · simp [or_comm]

theorem perm_makeWait (x : Waiter ι) (q : List (Waiter ι)) :
    (knlGcbMakeWait tpri priority x q).Perm (x :: q) := by
  unfold knlGcbMakeWait knlQueueInsertTpri
  split
  · exact KeyOrder.perm_insert x q
  · exact List.perm_append_singleton x q

theorem mem_of_mem_queRemove (h : y ∈ queRemove t q) : y ∈ q := List.mem_of_mem_eraseP h

/-- Of a queue in which each task is once, the removal leaves the others. -/
theorem mem_queRemove (hnd : (q.map (·.tsk)).Nodup) : y ∈ queRemove t q ↔ y ∈ q ∧ y.tsk ≠ t := by
  unfold queRemove
  induction q with
  | nil => simp
  | cons x q ih =>
    obtain ⟨hx, hnd⟩ := List.nodup_cons.1 hnd
    by_cases he : x.tsk = t
    · have hother : ∀ z ∈ q, z.tsk ≠ t := fun z hz ht =>
        hx (List.mem_map.2 ⟨z, hz, ht.trans he.symm⟩)
      have hp : (x.tsk == t) = true := beq_iff_eq.2 he
      rw [List.eraseP_cons, hp, cond_true, List.mem_cons]
      constructor
      · exact fun hy => ⟨Or.inr hy, hother y hy⟩
      · rintro ⟨rfl | hy, hne⟩
        · exact absurd he hne
        · exact hy
    · have hp : (x.tsk == t) = false := beq_eq_false_iff_ne.2 he
      rw [List.eraseP_cons, hp, cond_false, List.mem_cons, List.mem_cons, ih hnd]
      constructor
      · rintro (rfl | ⟨hy, hne⟩)
        · exact ⟨Or.inl rfl, he⟩
        · exact ⟨Or.inr hy, hne⟩
      · rintro ⟨rfl | hy, hne⟩
        · exact Or.inl rfl
        · exact Or.inr ⟨hy, hne⟩

/-- A reordering keeps the waiting tasks. -/
theorem perm_changePriority (t : Tid) (q : List (Waiter ι)) :
    (knlGcbChangePriority priority t q).Perm q := by
  unfold knlGcbChangePriority
  cases hf : q.find? (·.tsk == t) with
  | none => exact List.Perm.refl q
  | some x =>
    obtain ⟨hp, pre, post, rfl, hpre⟩ := List.find?_eq_some_iff_append.1 hf
    have hno : ∀ w ∈ pre, ¬ (w.tsk == t) = true := by simpa using hpre
    have hrem : queRemove t (pre ++ x :: post) = pre ++ post := by
      unfold queRemove
      rw [List.eraseP_append_right _ hno, List.eraseP_cons, hp, cond_true]
    refine (KeyOrder.perm_insert x _).trans ?_
    rw [hrem]
    exact List.perm_middle.symm

@[simp] theorem mem_changePriority : y ∈ knlGcbChangePriority priority t q ↔ y ∈ q :=
  (perm_changePriority t q).mem_iff

/-- Behind the head: a task that is not the top one does not become it. -/
theorem head?_makeWait (h : isTop tpri priority x.tsk q = false) :
    (knlGcbMakeWait tpri priority x q).head? = q.head? := by
  cases q with
  | nil => cases h
  | cons y q =>
    unfold knlGcbMakeWait knlQueueInsertTpri
    cases tpri with
    | false => rfl
    | true =>
      have hle : priority y.tsk ≤ priority x.tsk := by simpa [isTop] using h
      exact KeyOrder.head?_insert_of_le rfl hle

/-- The top task goes to the head. -/
theorem head?_makeWait_of_isTop (h : isTop tpri priority x.tsk q = true) :
    (knlGcbMakeWait tpri priority x q).head? = some x := by
  cases q with
  | nil =>
    unfold knlGcbMakeWait knlQueueInsertTpri
    split <;> rfl
  | cons y q =>
    have hlt : tpri = true ∧ priority x.tsk < priority y.tsk := by simpa [isTop] using h
    unfold knlGcbMakeWait knlQueueInsertTpri
    rw [if_pos hlt.1]
    refine KeyOrder.head?_insert_of_lt fun z hz => ?_
    obtain rfl : y = z := Option.some.inj hz
    exact hlt.2

end

end Gcb

end Mtk3Smp
