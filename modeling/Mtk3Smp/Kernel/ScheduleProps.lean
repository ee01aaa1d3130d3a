import Mtk3Smp.Kernel.Schedule

/-!
# What the assignment guarantees

`knl_ready_queue_assign` places no task twice and only where its mask allows
(`assign_sound`, `assign_inj`); a READY task it leaves out is outranked on every core its
mask admits (`assign_outranked`); the only task admitted to a core is placed there
(`assign_only`). The guards of `knl_smp_reschedule_all` only drop selections.
-/

namespace Mtk3Smp

theorem Core.exists_iff {p : Core → Prop} : (∃ c, p c) ↔ p .core0 ∨ p .core1 := by
  constructor
  · rintro ⟨c, h⟩
    cases c
    exacts [.inl h, .inr h]
  · rintro (h | h)
    exacts [⟨_, h⟩, ⟨_, h⟩]

theorem Core.forall_iff {p : Core → Prop} : (∀ c, p c) ↔ p .core0 ∧ p .core1 := by
  constructor
  · intro h
    exact ⟨h _, h _⟩
  · rintro ⟨h, h'⟩ c
    cases c
    exacts [h, h']

@[simp] theorem Core.other_core0 : Core.other .core0 = .core1 := rfl
@[simp] theorem Core.other_core1 : Core.other .core1 = .core0 := rfl

/-! ## Masks -/

section Mask

variable {sl : Slots} {k : Knl} {t : Tid} {c x : Core}

theorem mask_current (h : knlCtxtskCore sl t = some c) :
    knlTaskCoreMask sl k t x = true ↔ x = c ∧ sl.onlineMask x = true := by
  simp [knlTaskCoreMask, h]

theorem mask_published (h : knlCtxtskCore sl t = none) (h' : schedtskCore sl t = some c) :
    knlTaskCoreMask sl k t x = true ↔ x = c ∧ sl.onlineMask x = true := by
  simp [knlTaskCoreMask, h, h']

theorem mask_unpinned (h : knlCtxtskCore sl t = none) (h' : schedtskCore sl t = none) :
    knlTaskCoreMask sl k t x = true ↔ (k.tcb t).assprc x = true ∧ sl.onlineMask x = true ∧
      sl.dispatchDisabled x < DDS_DISABLE := by
  simp [knlTaskCoreMask, h, h']

theorem schedtskCore_some (h : schedtskCore sl t = some c) : sl.schedtsk c = some t := by
  unfold schedtskCore at h
  split at h
  · obtain rfl : Core.core0 = c := by simpa using h
    assumption
  · split at h
    · obtain rfl : Core.core1 = c := by simpa using h
      assumption
    · cases h

theorem schedtskCore_none : schedtskCore sl t = none ↔ ∀ c, sl.schedtsk c ≠ some t := by
  rw [Core.forall_iff]
  unfold schedtskCore
  split <;> rename_i h0
  · simp [h0]
  · split <;> rename_i h1 <;> simp [h0, h1]

theorem knlCtxtskCore_none : knlCtxtskCore sl t = none ↔ ∀ c, sl.ctxtsk c ≠ .task t := by
  rw [Core.forall_iff]
  unfold knlCtxtskCore
  split <;> rename_i h0
  · simp [h0]
  · split <;> rename_i h1 <;> simp [h0, h1]

theorem mask_online (h : knlTaskCoreMask sl k t x = true) : sl.onlineMask x = true := by
  cases hc : knlCtxtskCore sl t with
  | some c => exact ((mask_current hc).1 h).2
  | none =>
    cases hs : schedtskCore sl t with
    | some c => exact ((mask_published hc hs).1 h).2
    | none => exact ((mask_unpinned hc hs).1 h).2.1

/-- A task published on one core and current on none stays on that core. -/
theorem mask_of_published (hn : ∀ d, sl.ctxtsk d ≠ .task t) (hs : sl.schedtsk c = some t)
    (hd : sl.schedtsk c.other ≠ some t) (h : knlTaskCoreMask sl k t x = true) : x = c := by
  have hc := knlCtxtskCore_none.2 hn
  cases hp : schedtskCore sl t with
  | none => exact absurd hs (schedtskCore_none.1 hp c)
  | some d =>
    obtain ⟨rfl, -⟩ := (mask_published hc hp).1 h
    by_contra hne
    exact hd (Core.eq_other hne ▸ schedtskCore_some hp)

/-- A task current on one core only stays on that core. -/
theorem mask_of_current (hs : sl.ctxtsk c = .task t) (hd : sl.ctxtsk c.other ≠ .task t)
    (h : knlTaskCoreMask sl k t x = true) : x = c := by
  cases hp : knlCtxtskCore sl t with
  | none => exact absurd hs (knlCtxtskCore_none.1 hp c)
  | some d =>
    obtain ⟨rfl, -⟩ := (mask_current hp).1 h
    by_contra hne
    exact hd (Core.eq_other hne ▸ knlCtxtskCore_some hp)

end Mask

/-! ## Placement -/

/-- A single candidate is placed on a core of its mask. -/
theorem assign_one (sl : Slots) (x : Candidate) (hx : ∃ c, x.mask c = true) :
    ∃ c, knlAssignCores sl [x] c = some x.task ∧ x.mask c = true ∧
      knlAssignCores sl [x] c.other = none := by
  rw [Core.exists_iff] at *
  cases h0 : x.mask .core0 <;> cases h1 : x.mask .core1 <;> simp only [h0, h1] at hx <;>
    simp [knlAssignCores, placeAll, place, knlPopcount, h0, h1] at hx ⊢
  by_cases c0 : sl.ctxtsk .core0 = .task x.task <;>
    by_cases c1 : sl.ctxtsk .core1 = .task x.task <;> simp [placeAll, place, c0, c1, h0]

/-- Two candidates that together cover both cores are both placed, whatever the preference
for the core a task is current on does. -/
theorem assign_pair (sl : Slots) (x y : Candidate) (hne : x.task ≠ y.task)
    (hx : ∃ c, x.mask c = true) (hy : ∃ c, y.mask c = true)
    (hu : ∀ c, x.mask c = true ∨ y.mask c = true) :
    ∃ c, knlAssignCores sl [x, y] c = some x.task ∧ x.mask c = true ∧
      knlAssignCores sl [x, y] c.other = some y.task ∧ y.mask c.other = true := by
  rw [Core.exists_iff] at *
  rw [Core.forall_iff] at hu
  cases h0 : x.mask .core0 <;> cases h1 : x.mask .core1 <;> cases h2 : y.mask .core0 <;>
    cases h3 : y.mask .core1 <;> simp [h0, h1, h2, h3] at hx hy hu <;>
    simp [knlAssignCores, placeAll, place, knlPopcount, h0, h1, h2, h3]
  -- what is left has a migratable candidate: where it stays decides
  all_goals
    by_cases c0 : sl.ctxtsk .core0 = .task x.task <;>
    by_cases c1 : sl.ctxtsk .core1 = .task x.task <;>
    by_cases d0 : sl.ctxtsk .core0 = .task y.task <;>
    by_cases d1 : sl.ctxtsk .core1 = .task y.task <;>
      simp [placeAll, place, c0, c1, d0, d1, h0, h1, h2, h3, hne, hne.symm]

/-- The arrays `candidate[]` and `masks[]` between two rounds of the scan. -/
structure CandidatesOk (sl : Slots) (k : Knl) (cand : List Candidate) : Prop where
  length_le : cand.length ≤ 2
  nodup : (cand.map Candidate.task).Nodup
  mask_eq : ∀ x ∈ cand, x.mask = knlTaskCoreMask sl k x.task
  nonempty : ∀ x ∈ cand, ∃ c, x.mask c = true
  hall : cand.length = 2 → ∀ c, ∃ x ∈ cand, x.mask c = true

section Scan

variable {sl : Slots} {k : Knl} {cand : List Candidate} {t : Tid} {x y : Candidate}

theorem popcount_pos {m : CoreMask} : knlPopcount m ≠ 0 ↔ ∃ c, m c = true := by
  rw [Core.exists_iff]
  cases h0 : m .core0 <;> cases h1 : m .core1 <;> simp [knlPopcount, h0, h1]

theorem popcount_two {m : CoreMask} : 2 ≤ knlPopcount m ↔ ∀ c, m c = true := by
  rw [Core.forall_iff]
  cases h0 : m .core0 <;> cases h1 : m .core1 <;> simp [knlPopcount, h0, h1]

theorem feasible_nil {next : CoreMask} :
    knlCandidateFeasible [] next = true ↔ ∃ c, next c = true := by
  rw [← popcount_pos, knlCandidateFeasible, Bool.and_eq_true, bne_iff_ne, decide_eq_true_eq]
  simp only [List.any_nil, Bool.or_false, List.length_nil, Nat.zero_add]
  exact ⟨fun h => h.1, fun h => ⟨h, Nat.one_le_iff_ne_zero.2 h⟩⟩

theorem feasible_one {next : CoreMask} :
    knlCandidateFeasible [x] next = true ↔
      (∃ c, next c = true) ∧ ∀ c, next c = true ∨ x.mask c = true := by
  rw [← popcount_pos, knlCandidateFeasible, Bool.and_eq_true, bne_iff_ne, decide_eq_true_eq]
  simp [popcount_two]

theorem offer_cases (sl : Slots) (k : Knl) (cand : List Candidate) (t : Tid) :
    offer sl k cand t = cand ∨
      (cand.length < 2 ∧ (∀ x ∈ cand, x.task ≠ t) ∧
        knlCandidateFeasible cand (knlTaskCoreMask sl k t) = true ∧
        offer sl k cand t = cand ++ [⟨t, knlTaskCoreMask sl k t⟩]) := by
  unfold offer
  split
  · rename_i h
    simp only [Bool.and_eq_true, decide_eq_true_eq, Bool.not_eq_true', knlAlreadyCandidate,
      List.any_eq_false, beq_iff_eq] at h
    exact .inr ⟨h.1.1, h.1.2, h.2, rfl⟩
  · exact .inl rfl

theorem CandidatesOk.offer (ok : CandidatesOk sl k cand) (t : Tid) :
    CandidatesOk sl k (offer sl k cand t) := by
  rcases offer_cases sl k cand t with h | ⟨hl, fresh, feas, h⟩ <;> rw [h]
  · exact ok
  rcases cand with _ | ⟨x, _ | ⟨y, rest⟩⟩
  · rw [feasible_nil] at feas
    exact ⟨by simp, by simp, by simp, by simpa using feas, by simp⟩
  · rw [feasible_one] at feas
    refine ⟨by simp, ?_, ?_, ?_, ?_⟩
    · simpa using fresh x (by simp)
    · intro z hz
      rcases List.mem_append.1 hz with hz | hz
      · exact ok.mask_eq z hz
      · simp_all
    · intro z hz
      rcases List.mem_append.1 hz with hz | hz
      · exact ok.nonempty z hz
      · obtain rfl : z = _ := by simpa using hz
        exact feas.1
    · intro _ c
      rcases feas.2 c with h | h
      exacts [⟨⟨t, knlTaskCoreMask sl k t⟩, by simp, h⟩, ⟨x, by simp, h⟩]
  · exact absurd hl (by simp)

theorem CandidatesOk.foldl (ok : CandidatesOk sl k cand) (ts : List Tid) :
    CandidatesOk sl k (ts.foldl (Mtk3Smp.offer sl k) cand) := by
  induction ts generalizing cand with
  | nil => exact ok
  | cons t ts ih => exact ih (ok.offer t)

theorem candidatesOk (sl : Slots) (k : Knl) (ts : List Tid) :
    CandidatesOk sl k (ts.foldl (offer sl k) []) :=
  CandidatesOk.foldl ⟨by simp, by simp, by simp, by simp, by simp⟩ ts

/-- Candidates stay, and new ones come from the scanned tasks. -/
theorem mem_offer_of_mem (h : x ∈ cand) (t : Tid) : x ∈ offer sl k cand t := by
  rcases offer_cases sl k cand t with e | ⟨-, -, -, e⟩ <;> simp [e, h]

theorem mem_foldl_of_mem (h : x ∈ cand) (ts : List Tid) : x ∈ ts.foldl (offer sl k) cand := by
  induction ts generalizing cand with
  | nil => exact h
  | cons t ts ih => exact ih (mem_offer_of_mem h t)

theorem task_mem_of_foldl {ts : List Tid} (h : x ∈ ts.foldl (offer sl k) cand) :
    x ∈ cand ∨ x.task ∈ ts := by
  induction ts generalizing cand with
  | nil => exact .inl h
  | cons t ts ih =>
    rcases ih h with h | h
    · rcases offer_cases sl k cand t with e | ⟨-, -, -, e⟩
      · exact .inl (e ▸ h)
      · rw [e, List.mem_append, List.mem_singleton] at h
        rcases h with h | rfl
        exacts [.inl h, .inr (by simp)]
    · exact .inr (by simp [h])

theorem foldl_full (h : 2 ≤ cand.length) (ts : List Tid) :
    ts.foldl (offer sl k) cand = cand := by
  induction ts with
  | nil => rfl
  | cons t ts ih =>
    rcases offer_cases sl k cand t with e | ⟨hl, -⟩
    · simpa [e] using ih
    · omega

end Scan

section Assign

variable {sl : Slots} {k : Knl} {cand : List Candidate} {c d : Core} {t : Tid} {x : Candidate}

/-- Every candidate is placed, on a core of its mask. -/
theorem CandidatesOk.placed (ok : CandidatesOk sl k cand) (hx : x ∈ cand) :
    ∃ c, knlAssignCores sl cand c = some x.task ∧ x.mask c = true := by
  rcases cand with _ | ⟨y, _ | ⟨z, _ | ⟨w, rest⟩⟩⟩
  · cases hx
  · obtain rfl : x = y := by simpa using hx
    obtain ⟨c, h, hm, -⟩ := assign_one sl x (ok.nonempty x hx)
    exact ⟨c, h, hm⟩
  · have hu : ∀ c, y.mask c = true ∨ z.mask c = true := by
      intro c
      simpa using ok.hall rfl c
    obtain ⟨c, hy, hmy, hz, hmz⟩ := assign_pair sl y z (by simpa using ok.nodup)
      (ok.nonempty y (by simp)) (ok.nonempty z (by simp)) hu
    rcases List.mem_pair.1 hx with rfl | rfl
    exacts [⟨c, hy, hmy⟩, ⟨c.other, hz, hmz⟩]
  · exact absurd ok.length_le (by simp)

/-- Only candidates are placed, each on one core of its mask. -/
theorem CandidatesOk.sound (ok : CandidatesOk sl k cand)
    (h : knlAssignCores sl cand c = some t) :
    (∃ x ∈ cand, x.task = t ∧ x.mask c = true) ∧ knlAssignCores sl cand c.other ≠ some t := by
  rcases cand with _ | ⟨y, _ | ⟨z, _ | ⟨w, rest⟩⟩⟩
  · simp [knlAssignCores, placeAll] at h
  · obtain ⟨d, hy, hm, hn⟩ := assign_one sl y (ok.nonempty y (by simp))
    by_cases e : c = d
    · subst e
      exact ⟨⟨y, by simp, by simpa [hy] using h, hm⟩, by simp [hn]⟩
    · rw [Core.eq_other e, hn] at h
      cases h
  · have hu : ∀ c, y.mask c = true ∨ z.mask c = true := by
      intro c
      simpa using ok.hall rfl c
    have hne : y.task ≠ z.task := by simpa using ok.nodup
    obtain ⟨d, hy, hmy, hz, hmz⟩ := assign_pair sl y z hne
      (ok.nonempty y (by simp)) (ok.nonempty z (by simp)) hu
    by_cases e : c = d
    · subst e
      obtain rfl : y.task = t := by simpa [hy] using h
      exact ⟨⟨y, by simp, rfl, hmy⟩, by simpa [hz] using hne.symm⟩
    · obtain rfl := Core.eq_other e
      obtain rfl : z.task = t := by simpa [hz] using h
      exact ⟨⟨z, by simp, rfl, hmz⟩, by simpa [hy] using hne⟩
  · exact absurd ok.length_le (by simp)

theorem mem_scanOrder : t ∈ scanOrder k ↔ t ∈ k.readyTasks := by
  simp only [scanOrder, List.mem_append, List.mem_filter, Bool.not_eq_true']
  constructor
  · rintro (h | h)
    exacts [h.1, h.1]
  · intro h
    cases hl : (k.tcb t).klocked
    exacts [.inr ⟨h, rfl⟩, .inl ⟨h, rfl⟩]

/-- Placements are READY tasks on cores their mask admits. -/
theorem assign_sound (h : knlReadyQueueAssign sl k c = some t) :
    t ∈ k.readyTasks ∧ knlTaskCoreMask sl k t c = true := by
  have ok := candidatesOk sl k (scanOrder k)
  obtain ⟨⟨x, hx, rfl, hm⟩, -⟩ := ok.sound h
  refine ⟨?_, ok.mask_eq x hx ▸ hm⟩
  rcases task_mem_of_foldl hx with h | h
  · cases h
  · exact mem_scanOrder.1 h

/-- No task is placed on both cores. -/
theorem assign_inj (h : knlReadyQueueAssign sl k c = some t) :
    knlReadyQueueAssign sl k c.other ≠ some t :=
  ((candidatesOk sl k (scanOrder k)).sound h).2

/-- The ready queue files every task under its current priority. -/
def RdyPriority (k : Knl) : Prop :=
  ∀ p, ∀ t ∈ k.rings.que (.ready p), (k.tcb t).priority = p

/-- `u` goes before `t` on a core that admits both. -/
def Outranks (k : Knl) (u t : Tid) : Prop :=
  (k.tcb u).klocked = true ∨ (k.tcb u).priority ≤ (k.tcb t).priority

theorem readyTasks_pairwise (hp : RdyPriority k) :
    k.readyTasks.Pairwise fun u t => (k.tcb u).priority ≤ (k.tcb t).priority := by
  unfold Knl.readyTasks
  rw [List.pairwise_flatMap]
  refine ⟨fun p _ => ?_, ?_⟩
  · refine List.pairwise_of_forall_mem_list fun u hu t ht => ?_
    rw [hp p u hu, hp p t ht]
  · refine List.pairwise_lt_range.imp fun {p q} hlt u hu t ht => ?_
    rw [hp p u hu, hp q t ht]
    exact hlt.le

theorem scanOrder_pairwise (hp : RdyPriority k) : (scanOrder k).Pairwise (Outranks k) := by
  unfold scanOrder
  rw [List.pairwise_append]
  refine ⟨?_, ?_, ?_⟩
  · refine List.pairwise_of_forall_mem_list fun u hu t _ => .inl ?_
    simpa using (List.mem_filter.1 hu).2
  · exact ((readyTasks_pairwise hp).filter _).imp fun h => .inr h
  · intro u hu t _
    exact .inl (by simpa using (List.mem_filter.1 hu).2)

/-- A READY task that is left out is outranked on every core its mask admits. -/
theorem assign_outranked (hp : RdyPriority k) (ht : t ∈ k.readyTasks)
    (hout : ∀ d, knlReadyQueueAssign sl k d ≠ some t)
    (hm : knlTaskCoreMask sl k t c = true) :
    ∃ u, knlReadyQueueAssign sl k c = some u ∧ Outranks k u t := by
  obtain ⟨pre, post, hs, -⟩ := List.eq_append_cons_of_mem (mem_scanOrder.2 ht)
  have before : ∀ u ∈ pre, Outranks k u t := by
    intro u hu
    have pw := scanOrder_pairwise hp
    rw [hs, List.pairwise_append] at pw
    exact pw.2.2 u hu t (by simp)
  have okPre := candidatesOk sl k pre
  have okAll := candidatesOk sl k (scanOrder k)
  have hfold : (scanOrder k).foldl (offer sl k) [] =
      post.foldl (offer sl k) (offer sl k (pre.foldl (offer sl k) []) t) := by
    rw [hs, List.foldl_append, List.foldl_cons]
  -- a candidate for `t` would have been placed
  have absent : ∀ x ∈ (scanOrder k).foldl (offer sl k) [], x.task ≠ t := by
    rintro x hx rfl
    obtain ⟨d, hd, -⟩ := okAll.placed hx
    exact hout d hd
  have keep : ∀ x ∈ pre.foldl (offer sl k) [], x ∈ (scanOrder k).foldl (offer sl k) [] := by
    intro x hx
    rw [hfold]
    exact mem_foldl_of_mem (mem_offer_of_mem hx t) post
  -- whoever holds `c` in the end was chosen before `t`
  suffices h : ∃ x ∈ pre.foldl (offer sl k) [], knlReadyQueueAssign sl k c = some x.task by
    obtain ⟨x, hx, hc⟩ := h
    rcases task_mem_of_foldl hx with h | h
    · cases h
    · exact ⟨x.task, hc, before _ h⟩
  rcases hc : pre.foldl (offer sl k) [] with _ | ⟨x, _ | ⟨y, rest⟩⟩
  · -- nothing chosen yet: `t` is feasible
    exfalso
    have feas : knlCandidateFeasible [] (knlTaskCoreMask sl k t) = true :=
      feasible_nil.2 ⟨c, hm⟩
    have he : offer sl k [] t = [⟨t, knlTaskCoreMask sl k t⟩] := by
      simp [offer, knlAlreadyCandidate, feas]
    refine absent ⟨t, knlTaskCoreMask sl k t⟩ ?_ rfl
    rw [hfold, hc, he]
    exact mem_foldl_of_mem (by simp) post
  · -- one chosen: `t` was infeasible, so both are bound to `c`
    have hx := keep x (by simp [hc])
    refine ⟨x, by simp, ?_⟩
    have infeasible : ¬ ∀ d, knlTaskCoreMask sl k t d = true ∨ x.mask d = true := by
      intro hall
      have feas : knlCandidateFeasible [x] (knlTaskCoreMask sl k t) = true :=
        feasible_one.2 ⟨⟨c, hm⟩, hall⟩
      have he : offer sl k [x] t = [x, ⟨t, knlTaskCoreMask sl k t⟩] := by
        simp [offer, knlAlreadyCandidate, feas, absent x hx]
      refine absent ⟨t, knlTaskCoreMask sl k t⟩ ?_ rfl
      rw [hfold, hc, he]
      exact mem_foldl_of_mem (by simp) post
    obtain ⟨d, hd, hxd⟩ := okAll.placed hx
    by_cases e : d = c
    · exact e ▸ hd
    · refine absurd (fun e' => ?_) infeasible
      by_cases e'' : e' = c
      · exact .inl (e'' ▸ hm)
      · rw [Core.eq_other e'', ← Core.eq_other e]
        exact .inr hxd
  · -- two chosen: both cores are theirs
    have hlen : rest = [] := by
      have := okPre.length_le
      rw [hc] at this
      simpa using this
    subst hlen
    have hall : (scanOrder k).foldl (offer sl k) [] = [x, y] := by
      have hfull : offer sl k [x, y] t = [x, y] := by simp [offer]
      rw [hfold, hc, hfull]
      exact foldl_full (by simp) post
    have hu : ∀ c, x.mask c = true ∨ y.mask c = true := by
      intro c
      rw [hc] at okPre
      simpa using okPre.hall rfl c
    rw [hc] at okPre
    obtain ⟨d, hx, -, hy, -⟩ := assign_pair sl x y (by simpa using okPre.nodup)
      (okPre.nonempty x (by simp)) (okPre.nonempty y (by simp)) hu
    unfold knlReadyQueueAssign candidates
    rw [hall]
    by_cases e : c = d
    · exact ⟨x, by simp, e ▸ hx⟩
    · exact ⟨y, by simp, Core.eq_other e ▸ hy⟩

/-- A READY task bound to a core that admits no other READY task is placed there. -/
theorem assign_only (ht : t ∈ k.readyTasks)
    (hm : ∀ d, knlTaskCoreMask sl k t d = true ↔ d = c)
    (others : ∀ u ∈ k.readyTasks, u ≠ t → knlTaskCoreMask sl k u c = false) :
    knlReadyQueueAssign sl k c = some t := by
  obtain ⟨pre, post, hs, fresh⟩ := List.eq_append_cons_of_mem (mem_scanOrder.2 ht)
  have okPre := candidatesOk sl k pre
  have okAll := candidatesOk sl k (scanOrder k)
  have hfold : (scanOrder k).foldl (offer sl k) [] =
      post.foldl (offer sl k) (offer sl k (pre.foldl (offer sl k) []) t) := by
    rw [hs, List.foldl_append, List.foldl_cons]
  have avoid : ∀ x ∈ pre.foldl (offer sl k) [], x.task ≠ t ∧ x.mask c = false := by
    intro x hx
    have hmem : x.task ∈ pre := by
      rcases task_mem_of_foldl hx with h | h
      · cases h
      · exact h
    have hne : x.task ≠ t := fun e => fresh (e ▸ hmem)
    have hrdy : x.task ∈ k.readyTasks := mem_scanOrder.1 (by rw [hs]; simp [hmem])
    exact ⟨hne, okPre.mask_eq x hx ▸ others _ hrdy hne⟩
  -- at most one candidate is chosen before `t`, and it leaves `c` free
  have he : offer sl k (pre.foldl (offer sl k) []) t =
      pre.foldl (offer sl k) [] ++ [⟨t, knlTaskCoreMask sl k t⟩] := by
    rcases hc : pre.foldl (offer sl k) [] with _ | ⟨x, _ | ⟨y, rest⟩⟩
    · have feas := feasible_nil.2 ⟨c, (hm c).2 rfl⟩
      simp [offer, knlAlreadyCandidate, feas]
    · have hx := avoid x (by simp [hc])
      have feas : knlCandidateFeasible [x] (knlTaskCoreMask sl k t) = true := by
        refine feasible_one.2 ⟨⟨c, (hm c).2 rfl⟩, fun d => ?_⟩
        by_cases e : d = c
        · exact .inl ((hm d).2 e)
        · obtain ⟨e', hxe⟩ := okPre.nonempty x (by simp [hc])
          have hne : e' ≠ c := by
            rintro rfl
            simp [hx.2] at hxe
          rw [Core.eq_other e, ← Core.eq_other hne]
          exact .inr hxe
      simp [offer, knlAlreadyCandidate, feas, hx.1]
    · obtain rfl : rest = [] := by
        have := okPre.length_le
        rw [hc] at this
        simpa using this
      obtain ⟨z, hz, hzc⟩ := okPre.hall (by simp [hc]) c
      simp [(avoid z hz).2] at hzc
  have hmem : (⟨t, knlTaskCoreMask sl k t⟩ : Candidate) ∈ (scanOrder k).foldl (offer sl k) [] := by
    rw [hfold, he]
    exact mem_foldl_of_mem (by simp) post
  obtain ⟨d, hd, hmd⟩ := okAll.placed hmem
  exact (hm d).1 hmd ▸ hd

end Assign

/-! ## Guards and publication -/

section Publish

variable {sl : Slots} {k : Knl} {c : Core} {t : Tid} {sel : Selection}

theorem dropPublished_le (h : dropPublished sl d sel c = some t) : sel c = some t := by
  unfold dropPublished at h
  split at h
  · by_cases e : c = d
    · subst e; simp at h
    · simpa [e] using h
  · exact h

theorem dropDuplicate_le (h : dropDuplicate sel c = some t) : sel c = some t := by
  unfold dropDuplicate at h
  split at h
  · cases c
    · simpa using h
    · simp at h
  · exact h

theorem dropIllegal_eq (k : Knl) (d : Core) (sel : Selection) :
    dropIllegal k d sel = sel ∨
      (dropIllegal k d sel = sel.set d none ∧
        ∃ u, sel d = some u ∧ (k.tcb u).assprc d ≠ true) := by
  unfold dropIllegal
  cases hu : sel d with
  | none => exact .inl rfl
  | some u =>
    by_cases ha : (k.tcb u).assprc d = true
    · exact .inl (by simp [ha])
    · exact .inr ⟨by simp [ha], u, rfl, ha⟩

theorem dropIllegal_le (h : dropIllegal k d sel c = some t) : sel c = some t := by
  rcases dropIllegal_eq k d sel with e | ⟨e, -⟩ <;> rw [e] at h
  · exact h
  · by_cases hc : c = d
    · subst hc; simp at h
    · simpa [hc] using h

/-- What is published was assigned. -/
theorem guardedSelection_le (h : guardedSelection sl k c = some t) :
    knlReadyQueueAssign sl k c = some t :=
  dropPublished_le (dropPublished_le (dropDuplicate_le (dropIllegal_le (dropIllegal_le h))))

theorem guardedSelection_inj (h : guardedSelection sl k c = some t) :
    guardedSelection sl k c.other ≠ some t :=
  fun h' => assign_inj (guardedSelection_le h) (guardedSelection_le h')

/-- The guards let a selection through that is legal and in no other slot. -/
theorem guardedSelection_eq (h : knlReadyQueueAssign sl k c = some t)
    (hs : sl.schedtsk c.other ≠ some t) (ha : (k.tcb t).assprc c = true) :
    guardedSelection sl k c = some t := by
  have hd := assign_inj h
  have pub : ∀ d sel, sel c = some t → dropPublished sl d sel c = some t := by
    intro d sel hsel
    unfold dropPublished
    split
    · rename_i hg
      by_cases e : c = d
      · subst e
        simp only [hsel, Option.isSome_some, Bool.true_and, Bool.and_eq_true, beq_iff_eq] at hg
        exact absurd hg.1 hs
      · simpa [e] using hsel
    · exact hsel
  have ill : ∀ d sel, sel c = some t → dropIllegal k d sel c = some t := by
    intro d sel hsel
    rcases dropIllegal_eq k d sel with e | ⟨e, u, hu, hn⟩ <;> rw [e]
    · exact hsel
    · by_cases hc : c = d
      · subst hc
        obtain rfl : t = u := by simpa [hsel] using hu
        exact absurd ha hn
      · simpa [hc] using hsel
  refine ill _ _ (ill _ _ ?_)
  have h2 := pub .core1 _ (pub .core0 _ h)
  unfold dropDuplicate
  split
  · rename_i hg
    cases c
    · simpa using h2
    · -- a duplicate would have been assigned twice
      simp only [h2, Option.isSome_some, Bool.true_and, beq_iff_eq] at hg
      exact absurd (dropPublished_le (dropPublished_le hg.symm)) hd
  · exact h2

/-- The other slots are untouched by a reschedule. -/
@[simp] theorem knlSmpRescheduleAll_ctxtsk : (knlSmpRescheduleAll sl k).ctxtsk = sl.ctxtsk := rfl
@[simp] theorem knlSmpRescheduleAll_disabled :
    (knlSmpRescheduleAll sl k).dispatchDisabled = sl.dispatchDisabled := rfl
@[simp] theorem knlSmpRescheduleAll_online :
    (knlSmpRescheduleAll sl k).onlineMask = sl.onlineMask := rfl

theorem schedtsk_online (h : sl.onlineMask c = true) :
    (knlSmpRescheduleAll sl k).schedtsk c = guardedSelection sl k c := by
  simp [knlSmpRescheduleAll, h]

theorem schedtsk_offline (h : sl.onlineMask c = false) :
    (knlSmpRescheduleAll sl k).schedtsk c = sl.schedtsk c := by
  simp [knlSmpRescheduleAll, h]

/-- A slot of another core that changes is followed by a request to that core. -/
theorem request_of_change {self : Core} (hc : c ≠ self)
    (h : (knlSmpRescheduleAll sl k).schedtsk c ≠ sl.schedtsk c) :
    rescheduleRequests sl k self c = true := by
  cases ho : sl.onlineMask c with
  | false => exact absurd (schedtsk_offline ho) h
  | true =>
    rw [schedtsk_online ho] at h
    simp [rescheduleRequests, hc, ho, Ne.symm h]

end Publish

end Mtk3Smp
