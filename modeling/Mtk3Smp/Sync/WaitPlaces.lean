import Mtk3Smp.Sync.WaitShape

/-!
# Where the tasks are linked

`Placed s r a b`: the pointers of `s` spell out the rings `r`, and every task is in the queue of
its state and its timer event linked accordingly, but for the tasks that the owner of the kernel
lock has taken out: `a` out of the timer queue and `b` out of their queue. A queue that is not
empty belongs to an object that exists, or to a mutex with an owner. One lemma for each way in
which a link or a state changes.
-/

namespace Mtk3Smp

/-- The link of a waiting task. -/
def WaitSpec.link (w : WaitSpec) : Link WaitQue :=
  match w.queue with
  | none => .selfRing
  | some (q, _) => .member q

/-- The link that belongs to a state. -/
def AtPlace (w : WaitSpec) (l : Link WaitQue) : TStat → Prop
  | .ready => ∃ p, l = .member (.ready p)
  | .wait | .waitsus => l = w.link
  | _ => ∀ q, l ≠ .member q

/-- The links of a task, which may be out of the timer queue and out of its queue. -/
structure TaskAt (l : Link WaitQue) (tl : Link Unit) (st : TStat) (w : WaitSpec)
    (tout qout : Prop) : Prop where
  place : ¬ qout → AtPlace w l st
  free : qout → ∀ q, l ≠ .member q
  timed : ¬ tout → st.hasWait = true → tl ≠ .loose ∧ (w = .rdv → ∀ u, tl ≠ .member u)
  untimed : tout ∨ st.hasWait = false → ∀ u, tl ≠ .member u

namespace WaitSys

variable (s : WaitSys)

/-- A wait specification agrees with the attribute of what the task waits for. -/
def Fits : WaitSpec → Prop
  | .gcb o tpri => (s.objcb o).tpri = tpri
  | .mtx m atr => (s.mtxcb m).mtxatr = atr
  | _ => True

/-- Tasks can be in the queue. -/
def Open : WaitQue → Prop
  | .ready _ => True
  | .wait o => (s.objcb o).exists_ = true
  | .mtx m => ∃ u, s.owner m = some u

end WaitSys

structure Placed (s : WaitSys) (r : Rings WaitQue Tid) (a b : Set Tid) : Prop where
  reps : s.links.Represents r
  wf : r.WF
  timerWf : s.timer.WF
  task : ∀ t, TaskAt (r.link t) (s.timer.link t) (s.tcb t).state (s.tcb t).wspec (t ∈ a) (t ∈ b)
  fits : ∀ t, s.hasWait t = true → s.Fits (s.tcb t).wspec
  isOpen : ∀ q, r.que q ≠ [] → s.Open q

/-- What a step leaves alone: the attributes and the owners, and all tasks but `t`. -/
structure SameElse (s s' : WaitSys) (t : Tid) : Prop where
  tcb : ∀ y, y ≠ t → (s'.tcb y).state = (s.tcb y).state ∧ (s'.tcb y).wspec = (s.tcb y).wspec
  objcb : s'.objcb = s.objcb
  atr : ∀ m, (s'.mtxcb m).mtxatr = (s.mtxcb m).mtxatr
  owner : ∀ m, s'.owner m = s.owner m

namespace Placed

variable {s s' : WaitSys} {r r' : Rings WaitQue Tid} {a a' b b' : Set Tid} {t u : Tid}
  {q : WaitQue} {m : MtxId}

theorem fits_congr {w : WaitSpec} (ho : s'.objcb = s.objcb)
    (hm : ∀ m, (s'.mtxcb m).mtxatr = (s.mtxcb m).mtxatr) : s'.Fits w ↔ s.Fits w := by
  cases w with
  | gcb o tpri => simp only [WaitSys.Fits, ho]
  | mtx m atr => simp only [WaitSys.Fits, hm]
  | _ => exact Iff.rfl

theorem open_congr (ho : s'.objcb = s.objcb) (hm : ∀ m, s'.owner m = s.owner m) :
    s'.Open q ↔ s.Open q := by
  cases q with
  | ready p => exact Iff.rfl
  | wait o => simp only [WaitSys.Open, ho]
  | mtx m => simp only [WaitSys.Open, hm]

/-- Nothing that matters here changes. -/
theorem congr (h : Placed s r a b) (hl : s'.links = s.links) (ht : s'.timer = s.timer)
    (hst : ∀ y, (s'.tcb y).state = (s.tcb y).state)
    (hw : ∀ y, (s'.tcb y).wspec = (s.tcb y).wspec) (ho : s'.objcb = s.objcb)
    (hatr : ∀ m, (s'.mtxcb m).mtxatr = (s.mtxcb m).mtxatr)
    (howner : ∀ m, s'.owner m = s.owner m) : Placed s' r a b where
  reps := by rw [hl]; exact h.reps
  wf := h.wf
  timerWf := by rw [ht]; exact h.timerWf
  task y := by rw [ht, hst, hw]; exact h.task y
  fits y hy := by
    rw [hw, fits_congr ho hatr]
    refine h.fits y ?_
    rw [← hy, WaitSys.hasWait, WaitSys.hasWait, hst]
  isOpen q hq := (open_congr ho howner).2 (h.isOpen q hq)

/-- Other tasks are out. -/
theorem outs (h : Placed s r a b) (ha : a' = a) (hb : b' = b) : Placed s r a' b' := by
  rw [ha, hb]
  exact h

/-- Only the links and the state of `t` change. -/
theorem update (h : Placed s r a b) (same : SameElse s s' t)
    (hreps : s'.links.Represents r') (hwf : r'.WF) (htwf : s'.timer.WF)
    (hlink : ∀ y, y ≠ t → r'.link y = r.link y)
    (htimer : ∀ y, y ≠ t → s'.timer.link y = s.timer.link y)
    (ha : ∀ y, y ≠ t → (y ∈ a' ↔ y ∈ a)) (hb : ∀ y, y ≠ t → (y ∈ b' ↔ y ∈ b))
    (hself : TaskAt (r'.link t) (s'.timer.link t) (s'.tcb t).state (s'.tcb t).wspec
      (t ∈ a') (t ∈ b'))
    (hfits : s'.hasWait t = true → s.Fits (s'.tcb t).wspec)
    (hopen : ∀ q, r'.que q ≠ [] → r.que q ≠ [] ∨ s.Open q) : Placed s' r' a' b' where
  reps := hreps
  wf := hwf
  timerWf := htwf
  task y := by
    by_cases hy : y = t
    · subst y
      exact hself
    · have htask := h.task y
      rw [hlink y hy, htimer y hy, (same.tcb y hy).1, (same.tcb y hy).2,
        show (y ∈ a') = (y ∈ a) from propext (ha y hy),
        show (y ∈ b') = (y ∈ b) from propext (hb y hy)]
      exact htask
  fits y hy := by
    rw [fits_congr same.objcb same.atr]
    by_cases hyt : y = t
    · subst y
      exact hfits hy
    · rw [(same.tcb y hyt).2]
      refine h.fits y ?_
      rw [← hy, WaitSys.hasWait, WaitSys.hasWait, (same.tcb y hyt).1]
  isOpen q hq := by
    rw [open_congr same.objcb same.owner]
    rcases hopen q hq with hq | hq
    · exact h.isOpen q hq
    · exact hq

/-! ## Where a task is -/

theorem waiting_link (h : Placed s r a b) (hw : s.hasWait t = true) (ht : t ∉ b) :
    r.link t = (s.tcb t).wspec.link := by
  have hp := (h.task t).place ht
  unfold WaitSys.hasWait at hw
  cases hst : (s.tcb t).state with
  | wait | waitsus =>
    rw [hst] at hp
    exact hp
  | _ =>
    rw [hst] at hw
    cases hw

theorem link_ne_loose (w : WaitSpec) : w.link ≠ .loose := by
  unfold WaitSpec.link
  split <;> simp

theorem ready_link (h : Placed s r a b) (hr : (s.tcb t).state = .ready) (ht : t ∉ b) :
    ∃ p, r.link t = .member (.ready p) := by
  have hp := (h.task t).place ht
  rw [hr] at hp
  exact hp

/-- A task in a queue other than the ready queue waits, and is not out. -/
theorem waiting_of_mem (h : Placed s r a b) (hm : t ∈ r.que q) (hq : ∀ p, q ≠ .ready p) :
    s.hasWait t = true ∧ t ∉ b := by
  have hl := (h.wf.mem_iff t q).1 hm
  have ht : t ∉ b := fun hb => (h.task t).free hb q hl
  refine ⟨?_, ht⟩
  have hp := (h.task t).place ht
  unfold WaitSys.hasWait
  cases hst : (s.tcb t).state with
  | wait | waitsus => rfl
  | ready =>
    rw [hst] at hp
    obtain ⟨p, hp⟩ := hp
    rw [hl] at hp
    injection hp with hp
    exact absurd hp (hq p)
  | _ =>
    rw [hst] at hp
    exact absurd hl (hp q)

/-- A task that neither waits nor is ready is in no queue. -/
theorem idle_free (h : Placed s r a b) (hw : s.hasWait t = false)
    (hr : (s.tcb t).state ≠ .ready) : r.Free t := by
  by_cases ht : t ∈ b
  · exact (h.task t).free ht
  · have hp := (h.task t).place ht
    unfold WaitSys.hasWait at hw
    cases hst : (s.tcb t).state with
    | ready => exact absurd hst hr
    | wait | waitsus =>
      rw [hst] at hw
      cases hw
    | _ =>
      rw [hst] at hp
      exact hp

/-- The queue that a waiting task is in. -/
theorem queue_of_waiting (h : Placed s r a b) (hw : s.hasWait t = true) (ht : t ∉ b) {tpri : Bool}
    (hq : (s.tcb t).wspec.queue = some (q, tpri)) : t ∈ r.que q := by
  refine (h.wf.mem_iff t q).2 ?_
  rw [h.waiting_link hw ht, WaitSpec.link, hq]

theorem que_remove_subset (h : r.WF) (hq : (r.remove t).que q ≠ []) : r.que q ≠ [] := by
  intro he
  unfold Rings.remove at hq
  split at hq
  · exact hq he
  · exact hq he
  · rename_i p hl
    by_cases hp : q = p
    · subst p
      have hmem := (h.mem_iff t q).2 hl
      rw [he] at hmem
      cases hmem
    · simp only [Function.update_of_ne hp] at hq
      exact hq he

/-! ## The ways in which links change -/

/-- The timer event of a waiting task is deleted. -/
theorem timerDelete (h : Placed s r a b) (hw : s.hasWait t = true) (ht : t ∉ a) :
    Placed (s.timerDelete t) r (insert t a) b := by
  have htask := h.task t
  refine h.update (t := t) ⟨fun y _ => ⟨rfl, rfl⟩, rfl, fun _ => rfl, fun _ => rfl⟩ h.reps h.wf
    (h.timerWf.remove (htask.timed ht hw).1) (fun _ _ => rfl)
    (fun y hy => Rings.link_remove_ne hy) (fun y hy => ?_) (fun _ _ => Iff.rfl) ?_
    (fun _ => h.fits t hw) fun q hq => .inl hq
  · simp [hy]
  · exact ⟨htask.place, htask.free, fun hn => absurd (Set.mem_insert t a) hn,
      fun _ => Rings.free_remove⟩

/-- A task that waits or is ready is taken out of its queue. -/
theorem queRemove (h : Placed s r a b) (hl : s.hasWait t = true ∨ (s.tcb t).state = .ready)
    (ht : t ∉ b) : Placed (s.queRemove t) (r.remove t) a (insert t b) := by
  have htask := h.task t
  have hloose : r.link t ≠ .loose := by
    rcases hl with hw | hr
    · rw [h.waiting_link hw ht]
      exact link_ne_loose _
    · obtain ⟨p, hp⟩ := h.ready_link hr ht
      rw [hp]
      simp
  refine h.update (t := t) ⟨fun y _ => ⟨rfl, rfl⟩, rfl, fun _ => rfl, fun _ => rfl⟩
    (h.reps.remove h.wf hloose) (h.wf.remove hloose) h.timerWf
    (fun y hy => Rings.link_remove_ne hy) (fun _ _ => rfl) (fun _ _ => Iff.rfl)
    (fun y hy => ?_) ?_ (fun hw => h.fits t hw) fun q hq => .inl (que_remove_subset h.wf hq)
  · simp [hy]
  · exact ⟨fun hn => absurd (Set.mem_insert t b) hn, fun _ => Rings.free_remove, htask.timed,
      htask.untimed⟩

/-- A task that is out of its queue goes into one that belongs to its state. -/
theorem queInsert (h : Placed s r a b) (ht : t ∈ b) {pre post : List Tid}
    (hq : r.que q = pre ++ post)
    (hplace : AtPlace (s.tcb t).wspec (.member q) (s.tcb t).state) (ho : s.Open q) :
    Placed (s.queInsert t (RingLinks.place q post)) (r.insertAt q pre.length t) a (b \ {t}) := by
  have htask := h.task t
  have hfree : r.Free t := htask.free ht
  have hlink := Rings.link_insertAt (q := q) (i := pre.length) hfree
  have hlen : pre.length ≤ (r.que q).length := by simp [hq]
  refine h.update (t := t) ⟨fun y _ => ⟨rfl, rfl⟩, rfl, fun _ => rfl, fun _ => rfl⟩
    (h.reps.insert h.wf hfree hq) (h.wf.insertAt hfree hlen) h.timerWf (fun y hy => ?_)
    (fun _ _ => rfl) (fun _ _ => Iff.rfl) (fun y hy => ?_) ?_ (fun hw => h.fits t hw) ?_
  · rw [hlink, Function.update_of_ne hy]
  · simp [hy]
  · rw [hlink, Function.update_self]
    exact ⟨fun _ => hplace, fun hn => absurd rfl hn.2, htask.timed, htask.untimed⟩
  · intro p hp
    by_cases he : p = q
    · exact .inr (he ▸ ho)
    · rw [Rings.que_insertAt hfree, Function.update_of_ne he] at hp
      exact .inl hp

/-- A waiting task that is out of its queue becomes a ring of its own. -/
theorem queInit (h : Placed s r a b) (ht : t ∈ b) (hw : s.hasWait t = true)
    (hq : (s.tcb t).wspec.queue = none) : Placed (s.queInit t) (r.selfLink t) a (b \ {t}) := by
  have htask := h.task t
  have hfree : r.Free t := htask.free ht
  have hlink := Rings.link_selfLink hfree
  refine h.update (t := t) ⟨fun y _ => ⟨rfl, rfl⟩, rfl, fun _ => rfl, fun _ => rfl⟩
    (h.reps.init h.wf hfree) (h.wf.selfLink hfree) h.timerWf
    (fun y hy => Rings.link_selfLink_ne hy) (fun _ _ => rfl) (fun _ _ => Iff.rfl)
    (fun y hy => ?_) ?_ (fun hw => h.fits t hw) ?_
  · simp [hy]
  · rw [hlink]
    refine ⟨fun _ => ?_, fun hn => absurd rfl hn.2, htask.timed, htask.untimed⟩
    have hlw : (s.tcb t).wspec.link = .selfRing := by rw [WaitSpec.link, hq]
    unfold WaitSys.hasWait at hw
    show AtPlace (s.tcb t).wspec .selfRing (s.tcb t).state
    cases hst : (s.tcb t).state with
    | wait | waitsus => exact hlw.symm
    | _ =>
      rw [hst] at hw
      cases hw
  · intro p hp
    refine .inl ?_
    have hque : (r.selfLink t).que = r.que := by
      unfold Rings.selfLink
      split <;> rfl
    rwa [hque] at hp

/-- The timer event of a waiting task is inserted, or linked to itself. -/
theorem timerInsert {tmout : Tmo} (h : Placed s r a b) (hw : s.hasWait t = true)
    (hfree : s.timer.Free t) (hrdv : (s.tcb t).wspec = .rdv → tmout = .TMO_FEVR) :
    Placed (s.timerInsert t tmout) r (a \ {t}) b := by
  have htask := h.task t
  have hself : (s.timer.selfLink t).link t = .selfRing := Rings.link_selfLink hfree
  have hnotin : t ∉ a \ {t} := fun hn => hn.2 rfl
  have hmem : ∀ y, y ≠ t → (y ∈ a \ {t} ↔ y ∈ a) := fun y hy => by simp [hy]
  have hat : ∀ tl : Link Unit, tl ≠ .loose → ((s.tcb t).wspec = .rdv → ∀ u, tl ≠ .member u) →
      TaskAt (r.link t) tl (s.tcb t).state (s.tcb t).wspec (t ∈ a \ {t}) (t ∈ b) := by
    intro tl hl hm
    refine ⟨htask.place, htask.free, fun _ _ => ⟨hl, hm⟩, fun hn => ?_⟩
    unfold WaitSys.hasWait at hw
    rcases hn with hn | hn
    · exact absurd hn hnotin
    · rw [hw] at hn
      cases hn
  unfold WaitSys.timerInsert
  split
  · rename_i ms
    refine h.update (t := t) ⟨fun y _ => ⟨rfl, rfl⟩, rfl, fun _ => rfl, fun _ => rfl⟩ h.reps h.wf
      (h.timerWf.insertBefore hfree) (fun _ _ => rfl)
      (fun y hy => Rings.link_insertAt_ne hy) hmem (fun _ _ => Iff.rfl) (hat _ ?_ ?_)
      (fun _ => h.fits t hw) fun q hq => .inl hq
    · show (Rings.insertAt _ _ _ _).link t ≠ _
      rw [Rings.link_insertAt hfree, Function.update_self]
      simp
    · intro he
      cases hrdv he
  · refine h.update (t := t) ⟨fun y _ => ⟨rfl, rfl⟩, rfl, fun _ => rfl, fun _ => rfl⟩ h.reps h.wf
      (h.timerWf.selfLink hfree) (fun _ _ => rfl) (fun y hy => Rings.link_selfLink_ne hy) hmem
      (fun _ _ => Iff.rfl) (hat _ ?_ ?_) (fun _ => h.fits t hw) fun q hq => .inl hq
    · rw [hself]
      simp
    · intro _ u
      rw [hself]
      simp

/-! ## The ways in which states change -/

/-- A task that is linked into nothing may count as out. -/
theorem leave (h : Placed s r a b) (hq : r.Free t) (ht : s.timer.Free t) :
    Placed s r (insert t a) (insert t b) := by
  refine h.update (t := t) ⟨fun y _ => ⟨rfl, rfl⟩, rfl, fun _ => rfl, fun _ => rfl⟩ h.reps h.wf
    h.timerWf (fun _ _ => rfl) (fun _ _ => rfl) (fun y hy => by simp [hy])
    (fun y hy => by simp [hy]) ?_ (fun hw => h.fits t hw) fun q hq => .inl hq
  exact ⟨fun hn => absurd (Set.mem_insert t b) hn, fun _ => hq,
    fun hn => absurd (Set.mem_insert t a) hn, fun _ => ht⟩

/-- A task that does not wait need not count as out of the timer queue. -/
theorem settleTimer (h : Placed s r a b) (hw : s.hasWait t = false) : Placed s r (a \ {t}) b := by
  have htask := h.task t
  refine h.update (t := t) ⟨fun y _ => ⟨rfl, rfl⟩, rfl, fun _ => rfl, fun _ => rfl⟩ h.reps h.wf
    h.timerWf (fun _ _ => rfl) (fun _ _ => rfl) (fun y hy => by simp [hy]) (fun _ _ => Iff.rfl) ?_
    (fun hw => h.fits t hw) fun q hq => .inl hq
  refine ⟨htask.place, htask.free, fun _ hst => ?_, fun _ => htask.untimed (.inr hw)⟩
  unfold WaitSys.hasWait at hw
  rw [hw] at hst
  cases hst

/-- A task that neither waits nor is ready need not count as out of its queue. -/
theorem settleQue (h : Placed s r a b) (hw : s.hasWait t = false)
    (hr : (s.tcb t).state ≠ .ready) : Placed s r a (b \ {t}) := by
  have htask := h.task t
  have hfree := h.idle_free hw hr
  refine h.update (t := t) ⟨fun y _ => ⟨rfl, rfl⟩, rfl, fun _ => rfl, fun _ => rfl⟩ h.reps h.wf
    h.timerWf (fun _ _ => rfl) (fun _ _ => rfl) (fun _ _ => Iff.rfl) (fun y hy => by simp [hy]) ?_
    (fun hw => h.fits t hw) fun q hq => .inl hq
  refine ⟨fun _ => ?_, fun _ => hfree, htask.timed, htask.untimed⟩
  unfold WaitSys.hasWait at hw
  cases hst : (s.tcb t).state with
  | ready => exact absurd hst hr
  | wait | waitsus =>
    rw [hst] at hw
    cases hw
  | _ => exact hfree

/-- The state of a task that is out of both queues changes, or what it waits for. -/
theorem setOut (h : Placed s r a b) (hb : t ∈ b) (ht : s.timer.Free t) {f : WaitTcb → WaitTcb}
    (hfits : (f (s.tcb t)).state.hasWait = true → s.Fits (f (s.tcb t)).wspec) :
    Placed (s.setTcb t f) r (insert t a) b := by
  have htask := h.task t
  have hself : (s.setTcb t f).tcb t = f (s.tcb t) := Function.update_self _ _ _
  refine h.update (t := t) ⟨fun y hy => ?_, rfl, fun _ => rfl, fun _ => rfl⟩ h.reps h.wf
    h.timerWf (fun _ _ => rfl) (fun _ _ => rfl) (fun y hy => by simp [hy]) (fun _ _ => Iff.rfl) ?_
    (fun hw => ?_) fun q hq => .inl hq
  · have hy' : (s.setTcb t f).tcb y = s.tcb y := Function.update_of_ne hy _ _
    rw [hy']
    exact ⟨rfl, rfl⟩
  · exact ⟨fun hn => absurd hb hn, htask.free, fun hn => absurd (Set.mem_insert t a) hn,
      fun _ => ht⟩
  · unfold WaitSys.hasWait at hw
    rw [hself] at hw ⊢
    exact hfits hw

/-- A task goes on waiting, suspended or not. -/
theorem setWait (h : Placed s r a b) (hw : s.hasWait t = true) {f : WaitTcb → WaitTcb}
    (hst : (f (s.tcb t)).state.hasWait = true) (hspec : (f (s.tcb t)).wspec = (s.tcb t).wspec) :
    Placed (s.setTcb t f) r a b := by
  have htask := h.task t
  have hself : (s.setTcb t f).tcb t = f (s.tcb t) := Function.update_self _ _ _
  refine h.update (t := t) ⟨fun y hy => ?_, rfl, fun _ => rfl, fun _ => rfl⟩ h.reps h.wf
    h.timerWf (fun _ _ => rfl) (fun _ _ => rfl) (fun _ _ => Iff.rfl) (fun _ _ => Iff.rfl) ?_
    (fun _ => ?_) fun q hq => .inl hq
  · have hy' : (s.setTcb t f).tcb y = s.tcb y := Function.update_of_ne hy _ _
    rw [hy']
    exact ⟨rfl, rfl⟩
  · rw [hself, hspec]
    refine ⟨fun hn => ?_, htask.free, fun hn _ => htask.timed hn hw, fun hn => ?_⟩
    · have hl := h.waiting_link hw hn
      cases hx : (f (s.tcb t)).state with
      | wait | waitsus => exact hl
      | _ =>
        rw [hx] at hst
        cases hst
    · rcases hn with hn | hn
      · exact htask.untimed (.inl hn)
      · rw [hst] at hn
        cases hn
  · rw [hself, hspec]
    exact h.fits t hw

/-- What a task that does not wait has waited for does not matter. -/
theorem setIdle (h : Placed s r a b) (hw : s.hasWait t = false) {f : WaitTcb → WaitTcb}
    (hst : (f (s.tcb t)).state = (s.tcb t).state) : Placed (s.setTcb t f) r a b := by
  have htask := h.task t
  have hself : (s.setTcb t f).tcb t = f (s.tcb t) := Function.update_self _ _ _
  refine h.update (t := t) ⟨fun y hy => ?_, rfl, fun _ => rfl, fun _ => rfl⟩ h.reps h.wf
    h.timerWf (fun _ _ => rfl) (fun _ _ => rfl) (fun _ _ => Iff.rfl) (fun _ _ => Iff.rfl) ?_
    (fun hn => ?_) fun q hq => .inl hq
  · have hy' : (s.setTcb t f).tcb y = s.tcb y := Function.update_of_ne hy _ _
    rw [hy']
    exact ⟨rfl, rfl⟩
  · rw [hself, hst]
    unfold WaitSys.hasWait at hw
    refine ⟨fun hn => ?_, htask.free, fun _ hx => ?_, htask.untimed⟩
    · have hp := htask.place hn
      cases hx : (s.tcb t).state with
      | wait | waitsus =>
        rw [hx] at hw
        cases hw
      | _ =>
        rw [hx] at hp
        exact hp
    · rw [hw] at hx
      cases hx
  · unfold WaitSys.hasWait at hw hn
    rw [hself, hst, hw] at hn
    cases hn

/-- Other fields of a task change. -/
theorem setOther (h : Placed s r a b) {f : WaitTcb → WaitTcb}
    (hst : (f (s.tcb t)).state = (s.tcb t).state) (hw : (f (s.tcb t)).wspec = (s.tcb t).wspec) :
    Placed (s.setTcb t f) r a b := by
  have hself : (s.setTcb t f).tcb t = f (s.tcb t) := Function.update_self _ _ _
  refine h.congr rfl rfl (fun y => ?_) (fun y => ?_) rfl (fun _ => rfl) fun _ => rfl
  · by_cases hy : y = t
    · rw [hy, hself, hst]
    · rw [show (s.setTcb t f).tcb y = s.tcb y from Function.update_of_ne hy _ _]
  · by_cases hy : y = t
    · rw [hy, hself, hw]
    · rw [show (s.setTcb t f).tcb y = s.tcb y from Function.update_of_ne hy _ _]

/-- `knl_make_ready` of a task that is linked into nothing -/
theorem makeReady (h : Placed s r a b) (hb : t ∈ b) (ht : s.timer.Free t) :
    ∃ r', Placed (s.makeReady t) r' (a \ {t}) (b \ {t}) := by
  have h₁ := h.setOut hb ht (f := fun x => { x with state := .ready }) (fun hn => nomatch hn)
  have hself : (s.setTcb t fun x => { x with state := .ready }).tcb t =
      { s.tcb t with state := .ready } := Function.update_self _ _ _
  have h₂ := h₁.queInsert (q := .ready (s.tcb t).priority) hb (List.append_nil _).symm
    (by rw [hself]; exact ⟨_, rfl⟩) trivial
  refine ⟨_, (h₂.settleTimer (t := t) ?_).outs ?_ rfl⟩
  · show ((s.setTcb t fun x => { x with state := .ready }).tcb t).state.hasWait = false
    rw [hself]
    rfl
  · ext y
    by_cases hy : y = t
    · simp [hy]
    · simp [hy]

/-! ## Objects and mutexes -/

/-- Objects or mutexes are created, deleted, locked or unlocked. -/
theorem reopen (h : Placed s r a b) (hl : s'.links = s.links) (ht : s'.timer = s.timer)
    (htcb : ∀ y, (s'.tcb y).state = (s.tcb y).state ∧ (s'.tcb y).wspec = (s.tcb y).wspec)
    (hfits : ∀ y, s.hasWait y = true → s'.Fits (s.tcb y).wspec)
    (hopen : ∀ q, r.que q ≠ [] → s.Open q → s'.Open q) : Placed s' r a b where
  reps := by rw [hl]; exact h.reps
  wf := h.wf
  timerWf := by rw [ht]; exact h.timerWf
  task y := by rw [ht, (htcb y).1, (htcb y).2]; exact h.task y
  fits y hy := by
    rw [(htcb y).2]
    refine hfits y ?_
    rw [← hy, WaitSys.hasWait, WaitSys.hasWait, (htcb y).1]
  isOpen q hq := hopen q hq (h.isOpen q hq)

/-- When no task is out, nobody waits for what does not exist. -/
theorem not_waiting (h : Placed s r a ∅) (hw : s.hasWait t = true) {tpri : Bool}
    (hq : (s.tcb t).wspec.queue = some (q, tpri)) : s.Open q :=
  h.isOpen q (List.ne_nil_of_mem (h.queue_of_waiting hw (Set.notMem_empty t) hq))

end Placed

end Mtk3Smp
