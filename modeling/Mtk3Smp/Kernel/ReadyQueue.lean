import Mtk3Smp.Kernel.SingleCore
import Mtk3Smp.Kernel.ScheduleProps

/-!
# The ready queue and its summaries

`bitmap` and `top_priority` say which queues hold tasks and which is the first of them.
`ReadyOk` is the state in which they do; the operations of `ready_queue.h` keep it, and
what each does to the first task is stated beside it.
-/

namespace Mtk3Smp

/-- `n` is the first priority whose bit is set, or `NUM_TSKPRI`. -/
structure IsTop (bitmap : Nat → Bool) (n : Nat) : Prop where
  le : n ≤ NUM_TSKPRI
  low : ∀ q < n, bitmap q = false
  bit : n < NUM_TSKPRI → bitmap n = true

theorem calcTop_isTop {bitmap : Nat → Bool} {pos : Nat} (hp : pos ≤ NUM_TSKPRI)
    (h : ∀ q < pos, bitmap q = false) :
    IsTop bitmap (knlReadyQueueCalcTopPriority bitmap pos) := by
  unfold knlReadyQueueCalcTopPriority
  cases hf : (List.range' pos (NUM_TSKPRI - pos)).find? bitmap with
  | none =>
    rw [List.find?_range'_eq_none] at hf
    refine ⟨Nat.le_refl _, fun q hq => ?_, fun hlt => absurd hlt (Nat.lt_irrefl _)⟩
    by_cases hqp : q < pos
    · exact h q hqp
    · have hb := hf q (by omega) (by simp only [Option.getD_none] at hq; omega)
      simpa using hb
  | some n =>
    rw [List.find?_range'_eq_some] at hf
    obtain ⟨hb, hm, hl⟩ := hf
    rw [List.mem_range'_1] at hm
    refine ⟨by simp only [Option.getD_some]; omega, fun q hq => ?_, fun _ => hb⟩
    by_cases hqp : q < pos
    · exact h q hqp
    · have hq' := hl q (by omega) hq
      simpa using hq'

/-- The summaries of the ready queue agree with its queues. -/
structure ReadyOk (k : Knl) : Prop where
  wf : k.rings.WF
  filed : RdyPriority k
  low : ∀ t, (k.tcb t).priority < NUM_TSKPRI
  bit : ∀ p, k.bitmap p = true ↔ k.rings.que (.ready p) ≠ []
  top : IsTop k.bitmap k.topPriority

/-- The first task of the highest nonempty priority. -/
def firstReady (k : Knl) : Option Tid :=
  if k.topPriority < NUM_TSKPRI then (k.rings.que (.ready k.topPriority)).head? else none

theorem readyTop_none {k : Knl} (h : k.klocktsk = none) : knlReadyQueueTop k = firstReady k := by
  simp [knlReadyQueueTop, firstReady, h]

theorem readyTop_some {k : Knl} {t : Tid} (h : k.klocktsk = some t) :
    knlReadyQueueTop k = some t := by
  simp [knlReadyQueueTop, h]

/-- `knlReadyQueueTop` reads no more than this of the kernel data. -/
theorem readyTop_congr {k k' : Knl} (hk : k'.klocktsk = k.klocktsk)
    (ht : k'.topPriority = k.topPriority)
    (hq : ∀ p, k'.rings.que (.ready p) = k.rings.que (.ready p)) :
    knlReadyQueueTop k' = knlReadyQueueTop k := by
  simp only [knlReadyQueueTop, hk, ht, hq]

@[simp] theorem setTcb_klocktsk (k : Knl) (t : Tid) (f : Tcb → Tcb) :
    (k.setTcb t f).klocktsk = k.klocktsk := rfl

@[simp] theorem setTcb_topPriority (k : Knl) (t : Tid) (f : Tcb → Tcb) :
    (k.setTcb t f).topPriority = k.topPriority := rfl

@[simp] theorem insert_tcb (k : Knl) (t : Tid) : (knlReadyQueueInsert k t).tcb = k.tcb := rfl

@[simp] theorem insert_klocktsk (k : Knl) (t : Tid) :
    (knlReadyQueueInsert k t).klocktsk = if (k.tcb t).klocked then some t else k.klocktsk := rfl

@[simp] theorem insert_locked (k : Knl) (t : Tid) :
    (knlReadyQueueInsert k t).locked = k.locked := rfl

namespace ReadyOk

variable {k : Knl} {t : Tid}

theorem ready_empty (ok : ReadyOk k) {p : Nat} (hp : p < k.topPriority) :
    k.rings.que (.ready p) = [] := by
  by_contra hne
  have hb := (ok.bit p).2 hne
  rw [ok.top.low p hp] at hb
  cases hb

/-- The task that leads the queue of the top priority. -/
theorem firstReady_eq (ok : ReadyOk k) :
    firstReady k = (k.rings.que (.ready k.topPriority)).head? := by
  unfold firstReady
  split
  · rfl
  · rename_i hge
    cases hq : k.rings.que (.ready k.topPriority) with
    | nil => rfl
    | cons u us =>
      have hlow := ok.low u
      rw [ok.filed k.topPriority u (by simp [hq])] at hlow
      exact absurd hlow hge

theorem firstReady_mem (ok : ReadyOk k) (h : firstReady k = some t) :
    k.rings.link t = .member (.ready (k.tcb t).priority) := by
  rw [ok.firstReady_eq] at h
  have hm := List.mem_of_mem_head? h
  rw [ok.filed _ t hm]
  exact (ok.wf.mem_iff t _).1 hm

/-- It also leads the list of the READY tasks. -/
theorem head_readyTasks (ok : ReadyOk k) : k.readyTasks.head? = firstReady k := by
  unfold Knl.readyTasks firstReady
  split
  · rename_i hlt
    have hs : NUM_TSKPRI = k.topPriority + ((NUM_TSKPRI - k.topPriority - 1) + 1) := by omega
    rw [hs, List.range_add, List.flatMap_append]
    have hpre : (List.range k.topPriority).flatMap (fun p => k.rings.que (.ready p)) = [] := by
      rw [List.flatMap_eq_nil_iff]
      intro p hp
      exact ok.ready_empty (List.mem_range.1 hp)
    rw [hpre, List.nil_append, List.range_succ_eq_map, List.map_cons, List.flatMap_cons]
    have hne := (ok.bit k.topPriority).1 (ok.top.bit hlt)
    rw [List.head?_append_of_ne_nil _ (by simpa using hne)]
    simp
  · rename_i hge
    have hall : (List.range NUM_TSKPRI).flatMap (fun p => k.rings.que (.ready p)) = [] := by
      rw [List.flatMap_eq_nil_iff]
      intro p hp
      exact ok.ready_empty (by have := List.mem_range.1 hp; omega)
    rw [hall]
    rfl

/-- The summaries depend on the ready queues and the priorities only. -/
theorem congr (ok : ReadyOk k) {k' : Knl} (wf : k'.rings.WF)
    (hq : ∀ p, k'.rings.que (.ready p) = k.rings.que (.ready p))
    (hp : ∀ p, ∀ t ∈ k.rings.que (.ready p), (k'.tcb t).priority = (k.tcb t).priority)
    (hl : ∀ t, (k'.tcb t).priority < NUM_TSKPRI)
    (hb : k'.bitmap = k.bitmap) (ht : k'.topPriority = k.topPriority) : ReadyOk k' := by
  refine ⟨wf, fun p t hm => ?_, hl, fun p => ?_, ?_⟩
  · rw [hq] at hm
    rw [hp p t hm]
    exact ok.filed p t hm
  · rw [hb, hq]
    exact ok.bit p
  · rw [hb, ht]
    exact ok.top

/-! ## Insertion -/

theorem insertWith (ok : ReadyOk k) {i : Nat} (free : k.rings.Free t)
    (hi : i ≤ (k.rings.que (.ready (k.tcb t).priority)).length) :
    ReadyOk (readyQueueInsertWith (fun r q x => r.insertAt q i x) k t) := by
  have hque := Rings.que_insertAt (q := .ready (k.tcb t).priority) (i := i) free
  refine ⟨ok.wf.insertAt free hi, fun p u hu => ?_, ok.low, fun p => ?_, ?_⟩
  · show (k.tcb u).priority = p
    simp only [readyQueueInsertWith, hque] at hu
    by_cases hp : p = (k.tcb t).priority
    · subst hp
      rw [Function.update_self, List.mem_insertIdx hi] at hu
      rcases hu with rfl | hu
      · rfl
      · exact ok.filed _ u hu
    · rw [Function.update_of_ne (by simpa using hp)] at hu
      exact ok.filed p u hu
  · simp only [readyQueueInsertWith, hque]
    by_cases hp : p = (k.tcb t).priority
    · subst hp
      have hne : (k.rings.que (.ready (k.tcb t).priority)).insertIdx i t ≠ [] :=
        List.ne_nil_of_mem ((List.mem_insertIdx hi).2 (.inl rfl))
      simp [hne]
    · rw [Function.update_of_ne hp, Function.update_of_ne (by simpa using hp)]
      exact ok.bit p
  · have hlow := ok.low t
    have hle := ok.top.le
    simp only [readyQueueInsertWith]
    split
    · rename_i hlt
      refine ⟨by omega, fun q hq => ?_, fun _ => by simp⟩
      rw [Function.update_of_ne (by omega)]
      exact ok.top.low q (by omega)
    · rename_i hge
      refine ⟨hle, fun q hq => ?_, fun h => ?_⟩
      · rw [Function.update_of_ne (by omega)]
        exact ok.top.low q hq
      · by_cases he : k.topPriority = (k.tcb t).priority
        · simp [he]
        · rw [Function.update_of_ne he]
          exact ok.top.bit h

theorem insert (ok : ReadyOk k) (free : k.rings.Free t) : ReadyOk (knlReadyQueueInsert k t) :=
  ok.insertWith free (Nat.le_refl _)

theorem firstReady_insert (ok : ReadyOk k) (free : k.rings.Free t) :
    firstReady (knlReadyQueueInsert k t) =
      if (k.tcb t).priority < k.topPriority then some t else firstReady k := by
  rw [(ok.insert free).firstReady_eq, ok.firstReady_eq]
  have hque : (knlReadyQueueInsert k t).rings.que =
      Function.update k.rings.que (.ready (k.tcb t).priority)
        ((k.rings.que (.ready (k.tcb t).priority)).insertIdx
          (k.rings.que (.ready (k.tcb t).priority)).length t) :=
    Rings.que_insertAt free
  have htop : (knlReadyQueueInsert k t).topPriority =
      if (k.tcb t).priority < k.topPriority then (k.tcb t).priority else k.topPriority := rfl
  rw [hque, htop]
  split
  · rename_i hlt
    rw [Function.update_self, ok.ready_empty hlt]
    rfl
  · rename_i hge
    by_cases he : k.topPriority = (k.tcb t).priority
    · -- the queue of the top priority holds a task already
      have hne := (ok.bit k.topPriority).1 (ok.top.bit (by rw [he]; exact ok.low t))
      rw [← he, Function.update_self, List.insertIdx_length_self,
        List.head?_append_of_ne_nil _ hne]
    · rw [Function.update_of_ne (by simpa using he)]

/-! ## Removal -/

theorem delete_eq (hw : (k.tcb t).klockwait = false) :
    knlReadyQueueDelete k t =
      { k with
        klocktsk := if k.klocktsk = some t then none else k.klocktsk
        rings := k.rings.remove t
        bitmap :=
          if (k.rings.remove t).que (.ready (k.tcb t).priority) = [] then
            Function.update k.bitmap (k.tcb t).priority false
          else k.bitmap
        topPriority :=
          if (k.rings.remove t).que (.ready (k.tcb t).priority) = [] ∧
              (k.tcb t).priority = k.topPriority then
            knlReadyQueueCalcTopPriority (Function.update k.bitmap (k.tcb t).priority false)
              (k.tcb t).priority
          else k.topPriority } := by
  unfold knlReadyQueueDelete
  by_cases he : (k.rings.remove t).que (.ready (k.tcb t).priority) = []
  · by_cases hp : (k.tcb t).priority = k.topPriority
    · rw [hp] at he
      simp [hw, he, hp]
    · simp [hw, he, hp]
  · simp [hw, he]

theorem delete (ok : ReadyOk k) (hw : (k.tcb t).klockwait = false)
    (hl : k.rings.link t = .member (.ready (k.tcb t).priority)) :
    ReadyOk (knlReadyQueueDelete k t) := by
  rw [delete_eq hw]
  have hque := Rings.que_remove_of_member hl
  refine ⟨ok.wf.remove (by simp [hl]), fun p u hu => ?_, ok.low, fun p => ?_, ?_⟩
  · show (k.tcb u).priority = p
    rw [show (Rings.que _ _) = _ from congrFun hque (.ready p)] at hu
    by_cases hp : p = (k.tcb t).priority
    · subst hp
      rw [Function.update_self] at hu
      exact ok.filed _ u (List.mem_of_mem_erase hu)
    · rw [Function.update_of_ne (by simpa using hp)] at hu
      exact ok.filed p u hu
  · show (ite _ _ _ : Nat → Bool) p = true ↔ (k.rings.remove t).que (.ready p) ≠ []
    by_cases hp : p = (k.tcb t).priority
    · subst hp
      split
      · rename_i he
        simp [he]
      · rename_i he
        refine ⟨fun _ => he, fun _ => (ok.bit _).2 ?_⟩
        intro hn
        rw [hque, Function.update_self, hn] at he
        exact he rfl
    · have hother : (k.rings.remove t).que (.ready p) = k.rings.que (.ready p) := by
        rw [hque, Function.update_of_ne (by simpa using hp)]
      rw [hother, ← ok.bit p]
      split
      · rw [Function.update_of_ne hp]
      · rfl
  · show IsTop (ite _ _ _) (ite _ _ _)
    by_cases he : (k.rings.remove t).que (.ready (k.tcb t).priority) = []
    · rw [if_pos he]
      by_cases hp : (k.tcb t).priority = k.topPriority
      · rw [if_pos ⟨he, hp⟩]
        refine calcTop_isTop (ok.low t).le fun q hq => ?_
        rw [Function.update_of_ne (by omega)]
        exact ok.top.low q (by omega)
      · rw [if_neg (fun h => hp h.2)]
        have hset := (ok.bit (k.tcb t).priority).2
          (List.ne_nil_of_mem ((ok.wf.mem_iff t _).2 hl))
        refine ⟨ok.top.le, fun q hq => ?_, fun hlt => ?_⟩
        · by_cases hq' : q = (k.tcb t).priority
          · simp [hq']
          · rw [Function.update_of_ne hq']
            exact ok.top.low q hq
        · rw [Function.update_of_ne (Ne.symm hp)]
          exact ok.top.bit hlt
    · rw [if_neg he, if_neg (fun h => he h.1)]
      exact ok.top

/-- Removing a task that does not come first leaves the first one. -/
theorem firstReady_delete (ok : ReadyOk k) (hw : (k.tcb t).klockwait = false)
    (hl : k.rings.link t = .member (.ready (k.tcb t).priority))
    (hne : firstReady k ≠ some t) :
    firstReady (knlReadyQueueDelete k t) = firstReady k := by
  have hque := Rings.que_remove_of_member hl
  have hm : t ∈ k.rings.que (.ready (k.tcb t).priority) := (ok.wf.mem_iff t _).2 hl
  have hne' := hne
  rw [ok.firstReady_eq] at hne'
  -- the queue of the top priority keeps its head
  have hhead : ((k.rings.remove t).que (.ready k.topPriority)).head? =
      (k.rings.que (.ready k.topPriority)).head? := by
    rw [hque]
    by_cases hp : k.topPriority = (k.tcb t).priority
    · rw [hp, Function.update_self]
      rw [hp] at hne'
      cases hq : k.rings.que (.ready (k.tcb t).priority) with
      | nil => rfl
      | cons u us =>
        rw [hq] at hne'
        have hut : u ≠ t := by simpa using hne'
        rw [List.erase_cons_tail (by simpa using hut)]
        rfl
    · rw [Function.update_of_ne (by simpa using hp)]
  have htop : (knlReadyQueueDelete k t).topPriority = k.topPriority := by
    rw [delete_eq hw]
    show ite _ _ _ = _
    rw [if_neg]
    rintro ⟨he, hp⟩
    rw [← hp, he] at hhead
    have hnil : k.rings.que (.ready (k.tcb t).priority) = [] :=
      List.head?_eq_none_iff.1 hhead.symm
    rw [hnil] at hm
    cases hm
  rw [(ok.delete hw hl).firstReady_eq, ok.firstReady_eq, htop, delete_eq hw]
  exact hhead

/-! ## Rotation -/

theorem rotate (ok : ReadyOk k) (priority : Nat) : ReadyOk (knlReadyQueueRotate k priority) := by
  unfold knlReadyQueueRotate
  cases hq : k.rings.que (.ready priority) with
  | nil => exact ok
  | cons t ts =>
    have hl := ok.wf.link_head hq
    have hrem := Rings.que_remove_of_member hl
    have hins := Rings.que_insertAt (q := .ready priority)
      (i := ((k.rings.remove t).que (.ready priority)).length) (Rings.free_remove (r := k.rings) (x := t))
    have hwf : (k.rings.remove t).WF := ok.wf.remove (by simp [hl])
    refine ⟨hwf.insertLast Rings.free_remove, fun p u hu => ?_, ok.low, fun p => ?_, ok.top⟩
    · show (k.tcb u).priority = p
      change u ∈ ((k.rings.remove t).insertAt _ _ t).que (.ready p) at hu
      rw [hins] at hu
      by_cases hp : p = priority
      · subst hp
        rw [Function.update_self, List.insertIdx_length_self, List.mem_append,
          List.mem_singleton, hrem, Function.update_self] at hu
        rcases hu with hu | rfl
        · exact ok.filed p u (List.mem_of_mem_erase hu)
        · exact ok.filed p u (by simp [hq])
      · rw [Function.update_of_ne (by simpa using hp), hrem,
          Function.update_of_ne (by simpa using hp)] at hu
        exact ok.filed p u hu
    · show k.bitmap p = true ↔ ((k.rings.remove t).insertAt _ _ t).que (.ready p) ≠ []
      rw [hins, ok.bit p]
      by_cases hp : p = priority
      · subst hp
        rw [Function.update_self, List.insertIdx_length_self]
        simp [hq]
      · rw [Function.update_of_ne (by simpa using hp), hrem,
          Function.update_of_ne (by simpa using hp)]

end ReadyOk

end Mtk3Smp
