import Mtk3Smp.Kernel.ScheduleProps
import Mtk3Smp.Lib.Placement

/-!
# The assignment is the best one

`knl_ready_queue_assign` chooses greedily, and the counting test of `knl_candidate_feasible` says
whether a task can still be placed along with those chosen before it; `knl_assign_cores` then
places all of them.
-/

namespace Mtk3Smp

variable {sl : Slots} {k : Knl} {cand : List Candidate} {c : Core} {t u : Tid}
  {pre post : List Tid}

/-- The task may be put on the core. -/
def Admits (sl : Slots) (k : Knl) (t : Tid) (c : Core) : Prop := knlTaskCoreMask sl k t c = true

/-- The tasks of the arrays `candidate[]`. -/
def chosen (cand : List Candidate) : Set Tid := {t | ∃ x ∈ cand, x.task = t}

/-- `u` goes before `t`: holders of object locks first, and else in the order of the ready queue,
which is by priority and then first come, first served. -/
def Before (k : Knl) (u t : Tid) : Prop :=
  (k.tcb u).klocked = true ∧ (k.tcb t).klocked = false ∨
    (k.tcb u).klocked = (k.tcb t).klocked ∧ [u, t].Sublist k.readyTasks

theorem scanOrder_before : (scanOrder k).Pairwise (Before k) := by
  have part : ∀ p : Tid → Bool, (∀ u, p u = (k.tcb u).klocked) ∨
      (∀ u, p u = !(k.tcb u).klocked) → (k.readyTasks.filter p).Pairwise (Before k) := by
    intro p hp
    refine List.pairwise_iff_forall_sublist.2 ?_
    intro u t hs
    refine .inr ⟨?_, hs.trans List.filter_sublist⟩
    have hu := (List.mem_filter.1 (hs.subset (by simp : u ∈ [u, t]))).2
    have ht := (List.mem_filter.1 (hs.subset (by simp : t ∈ [u, t]))).2
    rcases hp with hp | hp
    · rw [hp] at hu ht
      rw [hu, ht]
    · rw [hp, Bool.not_eq_true'] at hu ht
      rw [hu, ht]
  refine List.pairwise_append.2 ⟨part _ (.inl fun _ => rfl), part _ (.inr fun _ => rfl), ?_⟩
  intro u hu t ht
  have ht' := (List.mem_filter.1 ht).2
  rw [Bool.not_eq_true'] at ht'
  exact .inl ⟨(List.mem_filter.1 hu).2, ht'⟩

/-! ## The counting test -/

/-- The candidates can be placed: `knl_assign_cores` does it. -/
theorem CandidatesOk.placeable (ok : CandidatesOk sl k cand) :
    Placeable (Admits sl k) (chosen cand) := by
  have hplace : ∀ t ∈ chosen cand, ∃ c, knlAssignCores sl cand c = some t ∧ Admits sl k t c := by
    rintro t ⟨x, hx, rfl⟩
    obtain ⟨c, hc, hm⟩ := ok.placed hx
    exact ⟨c, hc, by rw [Admits, ← ok.mask_eq x hx]; exact hm⟩
  let f : Tid → Core := fun t => if knlAssignCores sl cand .core0 = some t then .core0 else .core1
  have hf : ∀ t ∈ chosen cand, knlAssignCores sl cand (f t) = some t ∧ Admits sl k t (f t) := by
    intro t ht
    obtain ⟨c, hc, hm⟩ := hplace t ht
    by_cases h0 : knlAssignCores sl cand .core0 = some t
    · have hft : f t = .core0 := if_pos h0
      have hc0 : c = .core0 := by
        by_contra hne
        have hother := (ok.sound h0).2
        rw [← Core.eq_other hne] at hother
        exact hother hc
      rw [hft]
      exact ⟨h0, hc0 ▸ hm⟩
    · have hft : f t = .core1 := if_neg h0
      have hc1 : c = .core1 := by
        cases c with
        | core0 => exact absurd hc h0
        | core1 => rfl
      rw [hft]
      exact ⟨hc1 ▸ hc, hc1 ▸ hm⟩
  refine ⟨f, fun t ht => (hf t ht).2, ?_⟩
  intro t ht u hu heq
  have h1 := (hf t ht).1
  rw [heq, (hf u hu).1] at h1
  exact (Option.some.inj h1).symm

theorem offer_of_feasible (hlen : cand.length < 2) (hfresh : t ∉ chosen cand)
    (hfeas : knlCandidateFeasible cand (knlTaskCoreMask sl k t) = true) :
    offer sl k cand t = cand ++ [⟨t, knlTaskCoreMask sl k t⟩] := by
  have hnew : knlAlreadyCandidate cand t = false := by
    rw [knlAlreadyCandidate, List.any_eq_false]
    intro x hx hxt
    exact hfresh ⟨x, hx, beq_iff_eq.1 hxt⟩
  rw [offer, if_pos (by simp [hlen, hnew, hfeas])]

/-- Hall's condition for two cores: `knl_candidate_feasible` tells whether one more task can be
placed. -/
theorem CandidatesOk.feasible_iff (ok : CandidatesOk sl k cand) (hfresh : t ∉ chosen cand) :
    (cand.length < 2 ∧ knlCandidateFeasible cand (knlTaskCoreMask sl k t) = true) ↔
      Placeable (Admits sl k) (insert t (chosen cand)) := by
  constructor
  · rintro ⟨hlen, hfeas⟩
    have hoffer := offer_of_feasible hlen hfresh hfeas
    refine (ok.offer t).placeable.mono ?_
    rintro u (rfl | ⟨x, hx, rfl⟩)
    · exact ⟨_, by rw [hoffer]; exact List.mem_append_right _ (List.mem_singleton.2 rfl), rfl⟩
    · exact ⟨x, mem_offer_of_mem hx t, rfl⟩
  · rintro ⟨f, hadm, hinj⟩
    have ht := hadm t (Set.mem_insert t _)
    rcases cand with _ | ⟨x, _ | ⟨y, rest⟩⟩
    · exact ⟨by simp, feasible_nil.2 ⟨f t, ht⟩⟩
    · refine ⟨by simp, feasible_one.2 ⟨⟨f t, ht⟩, fun d => ?_⟩⟩
      have hx : x.task ∈ chosen [x] := ⟨x, by simp, rfl⟩
      have hxadm := hadm x.task (Set.mem_insert_of_mem t hx)
      rw [Admits, ← ok.mask_eq x (by simp)] at hxadm
      have hne : f x.task ≠ f t := by
        intro he
        have := hinj (Set.mem_insert_of_mem t hx) (Set.mem_insert t _) he
        exact hfresh (this ▸ hx)
      by_cases hd : d = f t
      · exact .inl (hd ▸ ht)
      · rw [Core.eq_other hd, ← Core.eq_other hne]
        exact .inr hxadm
    · -- three tasks do not fit on two cores
      exfalso
      have hx : x.task ∈ chosen (x :: y :: rest) := ⟨x, by simp, rfl⟩
      have hy : y.task ∈ chosen (x :: y :: rest) := ⟨y, by simp, rfl⟩
      have hxt : f x.task ≠ f t := fun he => hfresh
        (hinj (Set.mem_insert_of_mem t hx) (Set.mem_insert t _) he ▸ hx)
      have hyt : f y.task ≠ f t := fun he => hfresh
        (hinj (Set.mem_insert_of_mem t hy) (Set.mem_insert t _) he ▸ hy)
      have hxy : f x.task = f y.task := by rw [Core.eq_other hxt, Core.eq_other hyt]
      have heq := hinj (Set.mem_insert_of_mem t hx) (Set.mem_insert_of_mem t hy) hxy
      have hnodup := ok.nodup
      simp [heq] at hnodup

/-! ## The scan -/

/-- The candidates after the scan of `ts`. -/
def scan (sl : Slots) (k : Knl) (ts : List Tid) : List Candidate := ts.foldl (offer sl k) []

theorem mem_of_chosen_scan (h : t ∈ chosen (scan sl k pre)) : t ∈ pre := by
  obtain ⟨x, hx, rfl⟩ := h
  rcases task_mem_of_foldl hx with hx | hx
  · cases hx
  · exact hx

theorem chosen_scan_append (h : t ∈ chosen (scan sl k pre)) :
    t ∈ chosen (scan sl k (pre ++ post)) := by
  obtain ⟨x, hx, rfl⟩ := h
  refine ⟨x, ?_, rfl⟩
  rw [scan, List.foldl_append]
  exact mem_foldl_of_mem hx post

/-- One round takes the task exactly when it can be placed with those taken before. -/
theorem chosen_scan_self :
    t ∈ chosen (scan sl k (pre ++ [t])) ↔
      Placeable (Admits sl k) (insert t (chosen (scan sl k pre))) := by
  have ok : CandidatesOk sl k (scan sl k pre) := candidatesOk sl k pre
  by_cases ht : t ∈ chosen (scan sl k pre)
  · rw [Set.insert_eq_of_mem ht]
    exact ⟨fun _ => ok.placeable, fun _ => chosen_scan_append ht⟩
  · rw [← ok.feasible_iff ht]
    have hscan : scan sl k (pre ++ [t]) = offer sl k (scan sl k pre) t := by
      rw [scan, List.foldl_append]
      rfl
    rw [hscan]
    constructor
    · intro hmem
      rcases offer_cases sl k (scan sl k pre) t with he | ⟨hlen, -, hfeas, -⟩
      · rw [he] at hmem
        exact absurd hmem ht
      · exact ⟨hlen, hfeas⟩
    · rintro ⟨hlen, hfeas⟩
      refine ⟨⟨t, knlTaskCoreMask sl k t⟩, ?_, rfl⟩
      rw [offer_of_feasible hlen ht hfeas]
      exact List.mem_append_right _ (List.mem_singleton.2 rfl)

/-- What is taken of a prefix is taken while the prefix is scanned. -/
theorem chosen_scan_prefix :
    chosen (scan sl k (pre ++ post)) ∩ {u | u ∈ pre} = chosen (scan sl k pre) := by
  apply Set.Subset.antisymm
  · rintro u ⟨hu, hpre⟩
    obtain ⟨a, b, hab⟩ := List.append_of_mem hpre
    have hall : Placeable (Admits sl k) (insert u (chosen (scan sl k a))) := by
      refine (candidatesOk sl k (pre ++ post)).placeable.mono ?_
      rintro v (rfl | hv)
      · exact hu
      · have hsplit : pre ++ post = a ++ (u :: b ++ post) := by rw [hab, List.append_assoc]
        show v ∈ chosen (scan sl k (pre ++ post))
        rw [hsplit]
        exact chosen_scan_append hv
    have hself : u ∈ chosen (scan sl k ((a ++ [u]) ++ b)) :=
      chosen_scan_append (chosen_scan_self.2 hall)
    rwa [List.append_assoc, List.singleton_append, ← hab] at hself
  · exact fun u hu => ⟨chosen_scan_append hu, mem_of_chosen_scan hu⟩

theorem candidates_greedy (sl : Slots) (k : Knl) :
    TakesGreedily (Admits sl k) (scanOrder k) (chosen (candidates sl k)) := by
  intro pre t post ho
  have hcand : candidates sl k = scan sl k (pre ++ t :: post) := by rw [← ho]; rfl
  have hsplit : pre ++ t :: post = (pre ++ [t]) ++ post := by simp
  rw [hcand, chosen_scan_prefix, ← chosen_scan_self, hsplit]
  constructor
  · intro ht
    have hprefix : chosen (scan sl k ((pre ++ [t]) ++ post)) ∩ {u | u ∈ pre ++ [t]} =
        chosen (scan sl k (pre ++ [t])) := chosen_scan_prefix
    rw [← hprefix]
    exact ⟨ht, by simp⟩
  · exact chosen_scan_append

/-- The tasks of a selection. -/
def selected (sl : Slots) (k : Knl) : Set Tid := {t | ∃ c, knlReadyQueueAssign sl k c = some t}

/-- `knl_assign_cores` drops no candidate and adds none. -/
theorem selected_eq : selected sl k = chosen (candidates sl k) := by
  have ok : CandidatesOk sl k (candidates sl k) := candidatesOk sl k (scanOrder k)
  apply Set.Subset.antisymm
  · rintro t ⟨c, hc⟩
    obtain ⟨⟨x, hx, hxt, -⟩, -⟩ := ok.sound hc
    exact ⟨x, hx, hxt⟩
  · rintro t ⟨x, hx, rfl⟩
    obtain ⟨c, hc, -⟩ := ok.placed hx
    exact ⟨c, hc⟩

/-- The selection puts READY tasks on cores that their masks admit, none on two, and all that were
chosen; a task is passed over only when, however the better ones chosen are placed, each core that
admits it is taken; and no tasks that could be placed together come before those selected. -/
theorem ready_queue_assign_best (sl : Slots) (k : Knl) :
    (scanOrder k).Pairwise (Before k) ∧ (∀ t, t ∈ scanOrder k ↔ t ∈ k.readyTasks) ∧
    (∀ c t, knlReadyQueueAssign sl k c = some t →
      t ∈ k.readyTasks ∧ Admits sl k t c ∧ knlReadyQueueAssign sl k c.other ≠ some t) ∧
    (∀ x ∈ candidates sl k, x.task ∈ selected sl k) ∧
    (∀ pre t post, scanOrder k = pre ++ t :: post → t ∉ selected sl k →
      ∀ f, Placement (Admits sl k) (selected sl k ∩ {u | u ∈ pre}) f →
        ∀ c, Admits sl k t c → ∃ u ∈ selected sl k, u ∈ pre ∧ f u = c) ∧
    (∀ S, Placeable (Admits sl k) S → ∀ pre t post, scanOrder k = pre ++ t :: post →
      (∀ u ∈ pre, u ∈ S ↔ u ∈ selected sl k) → t ∈ S → t ∈ selected sl k) := by
  have greedy := candidates_greedy sl k
  rw [← selected_eq] at greedy
  refine ⟨scanOrder_before, fun t => mem_scanOrder, ?_, ?_, ?_, ?_⟩
  · intro c t hc
    obtain ⟨hready, hmask⟩ := assign_sound hc
    exact ⟨hready, hmask, assign_inj hc⟩
  · intro x hx
    rw [selected_eq]
    exact ⟨x, hx, rfl⟩
  · intro pre t post ho ht f hf c hc
    exact greedy.taken ho ht hf hc
  · intro S hS pre t post ho hsame ht
    exact greedy.best hS ho hsame ht

end Mtk3Smp
