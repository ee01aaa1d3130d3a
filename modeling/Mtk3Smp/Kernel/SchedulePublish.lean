import Mtk3Smp.Kernel.ScheduleProps

/-!
# Publication

`knl_smp_reschedule_all` with the diagnostic counters of its guards: in an orderly state the
masks leave the guards nothing to refuse.
-/

namespace Mtk3Smp

variable {sl : Slots} {k : Knl} {cand : List Candidate} {c d self : Core} {t : Tid}
  {ts : List Tid}

/-- `knl_smp_dup_candidate`, `knl_smp_dup_publish` and `knl_smp_bad_assign`. -/
structure SmpDiag where
  dupCandidate : Nat
  dupPublish : Nat
  badAssign : Nat

/-- How often `knl_already_candidate` finds the task it is given, in a scan of the tasks. -/
def scanDuplicates (sl : Slots) (k : Knl) : List Candidate → List Tid → Nat
  | _, [] => 0
  | cand, t :: ts =>
    (if cand.length < 2 && knlAlreadyCandidate cand t then 1 else 0) +
      scanDuplicates sl k (offer sl k cand t) ts

/-- The test of `dropPublished`. -/
def hitsPublished (sl : Slots) (c : Core) (sel : Selection) : Bool :=
  (sel c).isSome && sl.schedtsk c.other == sel c && sel c.other != sel c

/-- The test of `dropDuplicate`. -/
def hitsDuplicate (sel : Selection) : Bool :=
  (sel .core1).isSome && sel .core1 == sel .core0

/-- The test of `dropIllegal`. -/
def hitsIllegal (k : Knl) (c : Core) (sel : Selection) : Bool :=
  (sel c).any fun t => !(k.tcb t).assprc c

def SmpDiag.published (g : SmpDiag) (hit : Bool) : SmpDiag :=
  if hit then { g with dupPublish := g.dupPublish + 1 } else g

def SmpDiag.illegal (g : SmpDiag) (hit : Bool) : SmpDiag :=
  if hit then { g with badAssign := g.badAssign + 1 } else g

/-- The counters after `knl_smp_reschedule_all`. -/
def knlSmpRescheduleAllDiag (sl : Slots) (k : Knl) (g : SmpDiag) : SmpDiag :=
  let g := { g with dupCandidate := g.dupCandidate + scanDuplicates sl k [] (scanOrder k) }
  let sel := knlReadyQueueAssign sl k
  let g := g.published (hitsPublished sl .core0 sel)
  let sel := dropPublished sl .core0 sel
  let g := g.published (hitsPublished sl .core1 sel)
  let sel := dropPublished sl .core1 sel
  let g := g.published (hitsDuplicate sel)
  let sel := dropDuplicate sel
  let g := g.illegal (hitsIllegal k .core0 sel)
  let sel := dropIllegal k .core0 sel
  g.illegal (hitsIllegal k .core1 sel)

/-- The orderly states of the slots and the ready queue. -/
structure SlotsOk (sl : Slots) (k : Knl) : Prop where
  readyOnce : k.readyTasks.Nodup
  ctxtskDistinct : ∀ c t, sl.ctxtsk c = .task t → sl.ctxtsk c.other ≠ .task t
  schedtskDistinct : ∀ c t, sl.schedtsk c = some t → sl.schedtsk c.other ≠ some t
  currentHere : ∀ c t, sl.ctxtsk c = .task t → sl.schedtsk c.other ≠ some t
  currentAllowed : ∀ c t, sl.ctxtsk c = .task t → (k.tcb t).assprc c = true
  publishedAllowed : ∀ c t, sl.schedtsk c = some t → (k.tcb t).assprc c = true

/-! ## The guards -/

/-- A task that is not scanned again is not found again. -/
theorem scanDuplicates_eq_zero (hnodup : ts.Nodup) (hnew : ∀ x ∈ cand, x.task ∉ ts) :
    scanDuplicates sl k cand ts = 0 := by
  induction ts generalizing cand with
  | nil => rfl
  | cons t ts ih =>
    obtain ⟨ht, hnodup⟩ := List.nodup_cons.1 hnodup
    have hfresh : knlAlreadyCandidate cand t = false := by
      rw [knlAlreadyCandidate, List.any_eq_false]
      intro x hx hxt
      exact hnew x hx (beq_iff_eq.1 hxt ▸ List.mem_cons_self)
    have hrest : scanDuplicates sl k (offer sl k cand t) ts = 0 := by
      refine ih hnodup ?_
      intro x hx hxts
      rcases offer_cases sl k cand t with he | ⟨-, -, -, he⟩
      · rw [he] at hx
        exact hnew x hx (List.mem_cons_of_mem t hxts)
      · rw [he] at hx
        rcases List.mem_append.1 hx with hx | hx
        · exact hnew x hx (List.mem_cons_of_mem t hxts)
        · obtain rfl := List.mem_singleton.1 hx
          exact ht hxts
    rw [scanDuplicates, hfresh, hrest, Bool.and_false]
    rfl

theorem scanOrder_nodup (h : k.readyTasks.Nodup) : (scanOrder k).Nodup := by
  refine List.nodup_append.2 ⟨h.filter _, h.filter _, ?_⟩
  rintro u hu t ht rfl
  have h1 := (List.mem_filter.1 hu).2
  have h2 := (List.mem_filter.1 ht).2
  rw [h1] at h2
  cases h2

/-- A selected task that is current or published somewhere is so on that core. -/
theorem SlotsOk.assign_here (h : SlotsOk sl k) (hs : knlReadyQueueAssign sl k c = some t) :
    sl.ctxtsk c.other ≠ .task t ∧ sl.schedtsk c.other ≠ some t := by
  have hmask := (assign_sound hs).2
  have hcur : ∀ d, sl.ctxtsk d = .task t → c = d := fun d hd =>
    mask_of_current hd (h.ctxtskDistinct d t hd) hmask
  have hother : c ≠ c.other := by cases c <;> simp
  refine ⟨fun hd => hother (hcur c.other hd), fun hd => ?_⟩
  by_cases hn : ∃ d, sl.ctxtsk d = .task t
  · obtain ⟨d, hd⟩ := hn
    obtain rfl := hcur d hd
    exact h.currentHere c t hd ‹_›
  · have hnone : ∀ d, sl.ctxtsk d ≠ .task t := fun d hd => hn ⟨d, hd⟩
    exact hother (mask_of_published hnone hd (h.schedtskDistinct c.other t hd) hmask)

/-- The affinity of a selected task allows the core. -/
theorem SlotsOk.assign_allowed (h : SlotsOk sl k) (hs : knlReadyQueueAssign sl k c = some t) :
    (k.tcb t).assprc c = true := by
  have hmask := (assign_sound hs).2
  cases hc : knlCtxtskCore sl t with
  | some d =>
    obtain ⟨rfl, -⟩ := (mask_current hc).1 hmask
    exact h.currentAllowed c t (knlCtxtskCore_some hc)
  | none =>
    cases hp : schedtskCore sl t with
    | some d =>
      obtain ⟨rfl, -⟩ := (mask_published hc hp).1 hmask
      exact h.publishedAllowed c t (schedtskCore_some hp)
    | none => exact ((mask_unpinned hc hp).1 hmask).1

theorem SlotsOk.hitsPublished (h : SlotsOk sl k) (c : Core) :
    hitsPublished sl c (knlReadyQueueAssign sl k) = false := by
  cases hs : knlReadyQueueAssign sl k c with
  | none => simp [Mtk3Smp.hitsPublished, hs]
  | some t =>
    have hne := (h.assign_here hs).2
    simp [Mtk3Smp.hitsPublished, hs, hne]

theorem dropPublished_eq {sel : Selection} (h : hitsPublished sl c sel = false) :
    dropPublished sl c sel = sel := by
  unfold dropPublished
  rw [if_neg]
  exact Bool.eq_false_iff.1 h

theorem hitsDuplicate_assign : hitsDuplicate (knlReadyQueueAssign sl k) = false := by
  cases hs : knlReadyQueueAssign sl k .core1 with
  | none => simp [hitsDuplicate, hs]
  | some t =>
    have hne : knlReadyQueueAssign sl k .core0 ≠ some t := assign_inj hs
    simp [hitsDuplicate, hs, Ne.symm hne]

theorem dropDuplicate_eq {sel : Selection} (h : hitsDuplicate sel = false) :
    dropDuplicate sel = sel := by
  unfold dropDuplicate
  rw [if_neg]
  exact Bool.eq_false_iff.1 h

theorem SlotsOk.hitsIllegal (h : SlotsOk sl k) (c : Core) :
    hitsIllegal k c (knlReadyQueueAssign sl k) = false := by
  cases hs : knlReadyQueueAssign sl k c with
  | none => simp [Mtk3Smp.hitsIllegal, hs]
  | some t => simp [Mtk3Smp.hitsIllegal, hs, h.assign_allowed hs]

theorem dropIllegal_same {sel : Selection} (h : hitsIllegal k c sel = false) :
    dropIllegal k c sel = sel := by
  rcases dropIllegal_eq k c sel with he | ⟨-, u, hu, hn⟩
  · exact he
  · rw [hitsIllegal, hu] at h
    simp [hn] at h

/-- The guards refuse nothing. -/
theorem SlotsOk.guarded (h : SlotsOk sl k) : guardedSelection sl k = knlReadyQueueAssign sl k := by
  unfold guardedSelection
  rw [dropPublished_eq (h.hitsPublished .core0), dropPublished_eq (h.hitsPublished .core1),
    dropDuplicate_eq hitsDuplicate_assign, dropIllegal_same (h.hitsIllegal .core0),
    dropIllegal_same (h.hitsIllegal .core1)]

theorem SlotsOk.diag (h : SlotsOk sl k) (g : SmpDiag) : knlSmpRescheduleAllDiag sl k g = g := by
  have hscan : scanDuplicates sl k [] (scanOrder k) = 0 :=
    scanDuplicates_eq_zero (scanOrder_nodup h.readyOnce) fun x hx => by cases hx
  unfold knlSmpRescheduleAllDiag
  simp only [dropPublished_eq (h.hitsPublished .core0), dropPublished_eq (h.hitsPublished .core1),
    dropDuplicate_eq hitsDuplicate_assign, dropIllegal_same (h.hitsIllegal .core0), hscan,
    h.hitsPublished, hitsDuplicate_assign, h.hitsIllegal]
  rfl

/-! ## The slots after the run -/

/-- A slot holds what was selected for its core or, offline, what it held. -/
theorem SlotsOk.schedtsk_cases (h : SlotsOk sl k)
    (hs : (knlSmpRescheduleAll sl k).schedtsk c = some t) :
    sl.onlineMask c = true ∧ knlReadyQueueAssign sl k c = some t ∨
      sl.onlineMask c = false ∧ sl.schedtsk c = some t := by
  cases ho : sl.onlineMask c with
  | true =>
    rw [schedtsk_online ho, h.guarded] at hs
    exact .inl ⟨rfl, hs⟩
  | false =>
    rw [schedtsk_offline ho] at hs
    exact .inr ⟨rfl, hs⟩

theorem SlotsOk.reschedule (h : SlotsOk sl k) : SlotsOk (knlSmpRescheduleAll sl k) k where
  readyOnce := h.readyOnce
  ctxtskDistinct := h.ctxtskDistinct
  schedtskDistinct := by
    intro c t hc hd
    rcases h.schedtsk_cases hc with ⟨-, hc⟩ | ⟨-, hc⟩
    · rcases h.schedtsk_cases hd with ⟨-, hd⟩ | ⟨-, hd⟩
      · exact assign_inj hc hd
      · exact (h.assign_here hc).2 hd
    · rcases h.schedtsk_cases hd with ⟨-, hd⟩ | ⟨-, hd⟩
      · have hback := (h.assign_here hd).2
        cases c <;> exact hback hc
      · exact h.schedtskDistinct c t hc hd
  currentHere := by
    intro c t hc hd
    rcases h.schedtsk_cases hd with ⟨-, hd⟩ | ⟨-, hd⟩
    · have hback := (h.assign_here hd).1
      cases c <;> exact hback hc
    · exact h.currentHere c t hc hd
  currentAllowed := h.currentAllowed
  publishedAllowed := by
    intro c t hc
    rcases h.schedtsk_cases hc with ⟨-, hc⟩ | ⟨-, hc⟩
    · exact h.assign_allowed hc
    · exact h.publishedAllowed c t hc

/-- From an orderly state a run leads to an orderly state, publishes only tasks of the ready queue,
counts nothing that its guards would refuse, and asks every other online core whose slot changed
to dispatch. -/
theorem reschedule_all_publishes (self : Core) (g : SmpDiag) (h : SlotsOk sl k) :
    SlotsOk (knlSmpRescheduleAll sl k) k ∧
    (∀ c t, sl.onlineMask c = true → (knlSmpRescheduleAll sl k).schedtsk c = some t →
      t ∈ k.readyTasks) ∧
    (∀ c, sl.onlineMask c = false → (knlSmpRescheduleAll sl k).schedtsk c = sl.schedtsk c) ∧
    knlSmpRescheduleAllDiag sl k g = g ∧
    ∀ c, c ≠ self → (knlSmpRescheduleAll sl k).schedtsk c ≠ sl.schedtsk c →
      rescheduleRequests sl k self c = true := by
  refine ⟨h.reschedule, ?_, fun c ho => schedtsk_offline ho, h.diag g, ?_⟩
  · intro c t ho hc
    rw [schedtsk_online ho, h.guarded] at hc
    exact (assign_sound hc).1
  · intro c hc hne
    exact request_of_change hc hne

/-- Two tasks are READY, the one on core 0 is current and published there: the other one is
published on core 1. -/
theorem reschedule_all_publishes_two :
    let k : Knl :=
      { Knl.boot 2 with
        tcb := fun _ => { Tcb.blank with assprc := .ofFn fun _ => true, state := .ready }
        rings :=
          { que := fun q => if q = .ready 0 then [0, 1] else []
            link := fun _ => .member (.ready 0)
            corrupt := false } }
    let sl : Slots := ⟨.ofFn fun c => if c = .core0 then .task 0 else .idle,
      .ofFn fun c => if c = .core0 then some 0 else none, .ofFn fun _ => 0, .ofFn fun _ => true⟩
    (knlSmpRescheduleAll sl k).schedtsk .core1 = some 1 ∧ SlotsOk (knlSmpRescheduleAll sl k) k ∧
      rescheduleRequests sl k .core0 .core1 = true := by
  intro k sl
  have hready : k.readyTasks = [0, 1] := by decide
  have hsched : (knlSmpRescheduleAll sl k).schedtsk .core1 = some 1 := by decide
  have ok : SlotsOk sl k :=
    { readyOnce := by
        rw [hready]
        decide
      ctxtskDistinct := by
        intro c t h h'
        cases c <;> cases h
        cases h'
      schedtskDistinct := by
        intro c t h h'
        cases c <;> cases h
        cases h'
      currentHere := by
        intro c t h h'
        cases c <;> cases h
        cases h'
      currentAllowed := by intro c t _; cases c <;> rfl
      publishedAllowed := by intro c t _; cases c <;> rfl }
  have hall := reschedule_all_publishes .core0 ⟨0, 0, 0⟩ ok
  refine ⟨hsched, hall.1, hall.2.2.2.2 .core1 (by decide) ?_⟩
  rw [hsched]
  decide

end Mtk3Smp
