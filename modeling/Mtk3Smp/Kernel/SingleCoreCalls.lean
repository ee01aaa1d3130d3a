import Mtk3Smp.Kernel.SingleCoreProps

/-!
# Kernel calls on one core

The condition on the steps (`agrees`), the invariant `Ok` of the machine, and what the body
of each call leaves of it (`body_ok`): every call is about one task and touches the state of
no other, nor the locks.
-/

namespace Mtk3Smp.Single

namespace Cpu

/-- The task that `knl_ter_tsk` is working on. -/
def dying (s : Cpu) : Tid → Prop := fun t => ∃ e, s.ending = some (t, e)

/-- The task that the event passes to `knl_make_ready`. -/
def readied (s : Cpu) : Event → Option Tid
  | .call (.sta t) => if (s.knl.tcb t).state = .dormant then some t else none
  | .call (.rsm t) =>
    if (s.knl.tcb t).state = .suspend ∧ (s.knl.tcb t).suscnt - 1 = 0 then some t else none
  | .call (.frsm t) => if (s.knl.tcb t).state = .suspend then some t else none
  | .call (.release t) => if (s.knl.tcb t).state = .wait then some t else none
  | _ => none

/-- While an object lock is held no task is made ready above `top_priority`; a free lock is
taken by the scheduled task; a task that is being terminated keeps its priority; and a task
that has been deleted while it runs does not exit. -/
def agrees (s : Cpu) (e : Event) : Bool :=
  (match s.readied e with
    | some t => s.knl.klocktsk.isNone || decide (s.knl.topPriority ≤ (s.knl.tcb t).priority)
    | none => true) &&
  match e, s.caller with
  | .lockOBJ loc, some t =>
    (s.knl.tcb t).klocked || s.knl.locked loc || s.schedtsk == some t
  | .call (.inherit t _), _ => s.ending.all fun e => e.1 != t
  | .ext, some t | .exd, some t => (s.knl.tcb t).state != .nonexist
  | _, _ => true

/-- `o` is the READY task that holds an object lock if there is one, else the first task of
the highest nonempty priority. -/
def Designates (k : Knl) (o : Option Tid) : Prop :=
  (∃ t, (k.tcb t).state = .ready ∧ (k.tcb t).klocked = true ∧ o = some t) ∨
    (∀ t, (k.tcb t).state = .ready → (k.tcb t).klocked = false) ∧ o = k.readyTasks.head?

/-- Outside the critical sections `knl_schedtsk` is the designated task. -/
def SchedtskOk (s : Cpu) : Prop :=
  s.cs = false → s.schedtsk = knlReadyQueueTop s.knl ∧ Designates s.knl s.schedtsk

/-- The invariant of the runs that agree. -/
structure Ok (s : Cpu) : Prop where
  sched : SchedOk s.dying s.toSched
  owner : ∀ t, s.knl.klocktsk = some t ↔ ∃ loc, s.mpf t = .inside loc
  locked : ∀ loc, s.knl.locked loc = true → ∃ t, s.mpf t = .inside loc
  entering : ∀ t loc, s.mpf t ≠ .entering loc
  holder : ∀ t, s.knl.klocktsk = some t → s.ctxtsk = .task t ∨ s.ctxtsk = .null
  /-- the running task is READY, unless the dispatch is held back -/
  running : ∀ t, s.ctxtsk = .task t → s.dispatchDisabled = 0 → s.pendsv = false →
    s.taskindp = 0 ∨ s.cs = false → (s.knl.tcb t).state = .ready
  victim : ∀ t, s.ending = some (t, .ter) → s.caller ≠ some t
  quiet : ∀ t e, s.ending = some (t, e) → s.cs = true ∧ (s.knl.tcb t).klocked = false
  masked : 0 < s.taskindp → s.primask = false
  entered : s.cs = true → s.taskindp = 0 → s.primask = false → s.pendsv = false

end Cpu

/-! ## Frames -/

/-- What no operation on task `t` touches: the other tasks and the locks. -/
structure Frame (t : Tid) (k k' : Knl) : Prop where
  tcb : ∀ u, u ≠ t → k'.tcb u = k.tcb u
  klocktsk : k'.klocktsk = k.klocktsk
  locked : k'.locked = k.locked

namespace Frame

variable {D : Tid → Prop} {x : Sched} {k k' k'' : Knl} {t : Tid}

theorem refl (t : Tid) (k : Knl) : Frame t k k := ⟨fun _ _ => rfl, rfl, rfl⟩

theorem trans (h : Frame t k k') (h' : Frame t k' k'') : Frame t k k'' :=
  ⟨fun u hu => (h'.tcb u hu).trans (h.tcb u hu), h'.klocktsk.trans h.klocktsk,
    h'.locked.trans h.locked⟩

theorem setTcb (t : Tid) (k : Knl) (f : Tcb → Tcb) : Frame t k (k.setTcb t f) :=
  ⟨fun _ hu => Knl.setTcb_ne hu, rfl, rfl⟩

theorem delete (hw : (k.tcb t).klockwait = false) (hl : k.klocktsk ≠ some t) :
    Frame t k (knlReadyQueueDelete k t) := by
  rw [ReadyOk.delete_eq hw]
  exact ⟨fun _ _ => rfl, by simp [hl], rfl⟩

theorem rings (t : Tid) (k : Knl) (r : Rings Que Tid) : Frame t k { k with rings := r } :=
  ⟨fun _ _ => rfl, rfl, rfl⟩

theorem insert (hl : (k.tcb t).klocked = false) : Frame t k (knlReadyQueueInsert k t) :=
  ⟨fun _ _ => rfl, by simp [hl], rfl⟩

theorem makeReady (hl : (x.knl.tcb t).klocked = false) :
    Frame t x.knl (knlMakeReady x t).knl :=
  (setTcb t x.knl _).trans (insert (by simpa using hl))

theorem release (hl : (x.knl.tcb t).klocked = false) :
    Frame t x.knl (knlWaitRelease x t).knl := by
  let x' : Sched := { x with knl := { x.knl with rings := x.knl.rings.remove t } }
  have out : Frame t x.knl x'.knl := rings t x.knl _
  show Frame t x.knl (knlMakeNonWait x' t).knl
  unfold knlMakeNonWait
  split
  · exact out.trans (makeReady (x := x') hl)
  · exact out.trans (setTcb t x'.knl fun y => { y with state := .suspend })

/-- A change of priority changes no state. -/
theorem changePriority (ok : SchedOk D x) (hD : ¬ D t) (p : Nat) :
    Frame t x.knl (knlChangeTaskPriority x.knl t p).knl ∧
      ((knlChangeTaskPriority x.knl t p).knl.tcb t).state = (x.knl.tcb t).state := by
  unfold knlChangeTaskPriority
  split
  · have hw := ok.knl.nowait t
    have hk := ok.knl.klocktsk t
    show Frame t x.knl (knlReadyQueueInsert _ t) ∧
      ((knlReadyQueueInsert _ t).tcb t).state = (x.knl.tcb t).state
    rw [ReadyOk.delete_eq hw]
    refine ⟨⟨fun u hu => ?_, ?_, rfl⟩, ?_⟩
    · rw [insert_tcb, Knl.setTcb_ne hu]
    · -- the lock is put down and taken up again
      rw [insert_klocktsk, Knl.setTcb_self]
      show (if (x.knl.tcb t).klocked then some t
        else if x.knl.klocktsk = some t then none else x.knl.klocktsk) = _
      cases hl : (x.knl.tcb t).klocked with
      | true => simp [hk.2 ⟨hl, hD⟩]
      | false =>
        rw [hl] at hk
        simp only [Bool.false_eq_true, false_and, iff_false] at hk
        simp [hk]
    · rw [insert_tcb, Knl.setTcb_self]
  · dsimp only
    have first := setTcb t x.knl fun y => { y with priority := p }
    split
    · refine ⟨first.trans ⟨fun _ _ => rfl, rfl, rfl⟩, ?_⟩
      show ((x.knl.setTcb t fun y => { y with priority := p }).tcb t).state = _
      rw [Knl.setTcb_self]
    · refine ⟨first, ?_⟩
      show ((x.knl.setTcb t fun y => { y with priority := p }).tcb t).state = _
      rw [Knl.setTcb_self]

end Frame

namespace Cpu

/-! ## Calls -/

section Calls

variable {s : Cpu} {x : Sched} {t : Tid}

theorem caller_ctxtsk (h : s.caller = some t) : s.taskindp = 0 ∧ s.ctxtsk = .task t := by
  unfold caller at h
  split at h
  · rename_i h0 h1
    obtain rfl : _ = t := by simpa using h
    exact ⟨h0, h1⟩
  · cases h

theorem nonself_ok {r : Except ER Sched} (h : s.nonself t r = .ok x) :
    s.caller ≠ some t ∧ r = .ok x := by
  unfold nonself at h
  split at h
  · cases h
  · rename_i hne
    exact ⟨hne, h⟩

/-- What a call body leaves, apart from the task it is about. -/
structure Does (s : Cpu) (t : Tid) (x : Sched) : Prop where
  other : ¬ s.dying t
  sched : SchedOk s.dying x
  frame : Frame t s.knl x.knl
  caller : s.caller = some t → (s.knl.tcb t).state = .ready → (x.knl.tcb t).state = .ready

theorem not_dying (h : s.ending = none) (t : Tid) : ¬ s.dying t := by
  rintro ⟨e, he⟩
  rw [h] at he
  cases he

namespace Does

theorem start (ok : s.Ok) (hD : ¬ s.dying t) : Does s t s.toSched :=
  ⟨hD, ok.sched, Frame.refl t _, fun _ h => h⟩

theorem inert (d : Does s t x) {f : Tcb → Tcb}
    (h : ∀ y, (f y).state = y.state ∧ (f y).priority = y.priority ∧
      (f y).ipriority = y.ipriority ∧ (f y).klockwait = y.klockwait ∧ (f y).klocked = y.klocked) :
    Does s t { x with knl := x.knl.setTcb t f } := by
  refine ⟨d.other, d.sched.inert h, d.frame.trans (Frame.setTcb t _ f), fun hc hs => ?_⟩
  rw [Knl.setTcb_self, (h _).1]
  exact d.caller hc hs

theorem makeReady (d : Does s t x) (hne : s.caller ≠ some t)
    (hst : (x.knl.tcb t).state = .suspend ∨ (x.knl.tcb t).state = .dormant)
    (hc : x.knl.klocktsk = none ∨ x.knl.topPriority ≤ (x.knl.tcb t).priority) :
    Does s t (knlMakeReady x t) := by
  have hs : (x.knl.tcb t).state ≠ .ready := by
    rcases hst with h | h <;> simp [h]
  have hl := d.sched.knl.klocked_false hs
  have okl : SchedOk (With t s.dying) x :=
    ⟨d.sched.knl.loosen (d.sched.knl.idle_free hst) hl, d.sched.sched⟩
  exact ⟨d.other, okl.makeReady d.other hl hc, d.frame.trans (Frame.makeReady hl), fun h => absurd h hne⟩

/-- A state outside the ready queue follows `knl_make_non_ready`. -/
theorem makeNonReady (d : Does s t x) (hne : s.caller ≠ some t)
    (h : (x.knl.tcb t).state = .ready) (hl : (x.knl.tcb t).klocked = false) :
    Does s t { knlMakeNonReady x t with
      knl := (knlMakeNonReady x t).knl.setTcb t fun y => { y with state := .suspend } } := by
  have ok₁ := d.sched.makeNonReady d.other h hl
  have hw := d.sched.knl.nowait t
  have htcb : (knlMakeNonReady x t).knl.tcb = x.knl.tcb := by
    show (knlReadyQueueDelete x.knl t).tcb = _
    rw [ReadyOk.delete_eq hw]
  have hk : x.knl.klocktsk ≠ some t := by
    intro h'
    rw [((d.sched.knl.klocktsk t).1 h').1] at hl
    cases hl
  refine ⟨d.other, ok₁.settle d.other (.inl rfl) (by rw [htcb]; exact hl), ?_, fun h => absurd h hne⟩
  exact d.frame.trans ((Frame.delete hw hk).trans
    (Frame.setTcb t _ fun y => { y with state := .suspend }))

/-- A waiting task becomes `TS_WAIT|TS_SUSPEND`, or no longer. -/
theorem waitState (d : Does s t x) (hw : (x.knl.tcb t).state.hasWait = true)
    {st : TStat} (hst : st.hasWait = true) :
    Does s t { x with knl := x.knl.setTcb t fun y => { y with state := st } } := by
  have hs : (x.knl.tcb t).state ≠ .ready := by
    intro h
    rw [h] at hw
    cases hw
  have hl := d.sched.knl.klocked_false hs
  have hlink := d.sched.knl.wait_link d.other hw
  refine ⟨d.other, d.sched.same (SameBut.setTcb t _ _) ?_,
    d.frame.trans (Frame.setTcb t _ fun y => { y with state := st }), ?_⟩
  · refine d.sched.knl.update (SameBut.setTcb t _ _) (fun _ _ => Iff.rfl)
      (d.sched.knl.out_of_ready (.inl hs)) (.inl hl) d.sched.knl.ready.wf ?_ ?_ ?_ ?_
      (fun _ => ?_) (fun h => absurd h d.other)
    · simpa using d.sched.knl.ready.low t
    · simpa using d.sched.knl.ini t
    · simpa using d.sched.knl.nowait t
    · simpa using hl
    · rw [Knl.setTcb_self]
      cases st with
      | wait | waitsus => exact hlink
      | ready | nonexist | suspend | dormant => cases hst
  · intro hc hr
    exact absurd (d.caller hc hr) hs

end Does

theorem sta_ok (ok : s.Ok) (hend : s.ending = none) (ha : s.agrees (.call (.sta t)) = true)
    (h : s.body (.sta t) = .ok x) : Does s t x := by
  obtain ⟨hne, h⟩ := nonself_ok h
  unfold tkStaTsk at h
  cases hst : (s.knl.tcb t).state with
  | dormant =>
    rw [hst] at h
    obtain rfl : _ = x := by simpa using h
    refine (Does.start ok (not_dying hend t)).makeReady hne (.inr hst) ?_
    simpa [agrees, readied, hst] using ha
  | nonexist | ready | wait | suspend | waitsus => rw [hst] at h; cases h

theorem sus_ok (ok : s.Ok) (hend : s.ending = none) (h : s.body (.sus t) = .ok x) :
    Does s t x := by
  obtain ⟨hne, h⟩ := nonself_ok h
  have hD := not_dying hend t
  have d₀ := (Does.start ok hD).inert (f := fun y => { y with suscnt := y.suscnt + 1 })
    (fun _ => ⟨rfl, rfl, rfl, rfl, rfl⟩)
  unfold tkSusTsk at h
  dsimp only at h
  split at h
  · cases h
  split at h
  · cases h
  split at h
  · cases h
  rename_i hl
  split at h
  · cases h
  split at h
  · cases h
  cases hst : (s.knl.tcb t).state with
  | ready =>
    rw [hst] at h
    obtain rfl : _ = x := by simpa using h
    exact d₀.makeNonReady hne (by simpa using hst) (by simpa using hl)
  | wait =>
    rw [hst] at h
    obtain rfl : _ = x := by simpa using h
    exact d₀.waitState (by simp [hst, TStat.hasWait]) (show TStat.waitsus.hasWait = true from rfl)
  | nonexist | suspend | waitsus | dormant =>
    rw [hst] at h
    obtain rfl : _ = x := by simpa using h
    exact d₀

/-- tk_rsm_tsk and tk_frsm_tsk. -/
theorem resume_ok (ok : s.Ok) (hend : s.ending = none) (hne : s.caller ≠ some t) {count : Nat}
    (hc : (s.knl.tcb t).state = .suspend → count = 0 →
      s.knl.klocktsk = none ∨ s.knl.topPriority ≤ (s.knl.tcb t).priority)
    (h : s.resumeTsk t count = .ok x) : Does s t x := by
  have hD := not_dying hend t
  have d₀ := (Does.start ok hD).inert (f := fun y => { y with suscnt := count })
    (fun _ => ⟨rfl, rfl, rfl, rfl, rfl⟩)
  unfold resumeTsk at h
  dsimp only at h
  cases hst : (s.knl.tcb t).state with
  | suspend =>
    rw [hst] at h
    obtain rfl : _ = x := by simpa using h
    split
    · rename_i h0
      refine d₀.makeReady hne (.inl (by simpa using hst)) ?_
      simpa using hc hst h0
    · exact d₀
  | waitsus =>
    rw [hst] at h
    obtain rfl : _ = x := by simpa using h
    split
    · exact d₀.waitState (by simp [hst, TStat.hasWait]) (show TStat.wait.hasWait = true from rfl)
    · exact d₀
  | nonexist | dormant | ready | wait => rw [hst] at h; cases h

theorem rsm_ok (ok : s.Ok) (hend : s.ending = none) (ha : s.agrees (.call (.rsm t)) = true)
    (h : s.body (.rsm t) = .ok x) : Does s t x := by
  obtain ⟨hne, h⟩ := nonself_ok h
  refine resume_ok ok hend hne (fun hst h0 => ?_) h
  simpa [agrees, readied, hst, h0] using ha

theorem frsm_ok (ok : s.Ok) (hend : s.ending = none) (ha : s.agrees (.call (.frsm t)) = true)
    (h : s.body (.frsm t) = .ok x) : Does s t x := by
  obtain ⟨hne, h⟩ := nonself_ok h
  refine resume_ok ok hend hne (fun hst _ => ?_) h
  simpa [agrees, readied, hst] using ha

theorem release_ok (ok : s.Ok) (ha : s.agrees (.call (.release t)) = true)
    (h : s.body (.release t) = .ok x) : Does s t x := by
  simp only [body] at h
  split at h
  · rename_i hr
    obtain rfl : _ = x := by simpa using h
    simp only [releasable, Bool.and_eq_true, Bool.or_eq_true] at hr
    obtain ⟨hw, hq⟩ := hr
    have hD : ¬ s.dying t := by
      rintro ⟨e, he⟩
      have free := ok.sched.knl.unlinked t ⟨e, he⟩
      rcases hq with hq | hq
      · simp [he] at hq
      · split at hq
        · rename_i o hl
          exact free _ hl
        · cases hq
    have hs : (s.knl.tcb t).state ≠ .ready := by
      intro h'
      rw [h'] at hw
      cases hw
    refine ⟨hD, ok.sched.release hD hw (fun hst => ?_),
      Frame.release (ok.sched.knl.klocked_false hs), fun _ hst => absurd hst hs⟩
    simpa [agrees, readied, hst] using ha
  · cases h

theorem chgPri_ok (ok : s.Ok) (hend : s.ending = none) {bp p : Nat}
    (h : s.body (.chgPri t bp p) = .ok x) : Does s t x := by
  simp only [body, tkChgPri] at h
  split at h
  · cases h
  rename_i hp
  split at h
  · cases h
  rename_i hs
  obtain rfl : _ = x := by simpa using h
  have hD := not_dying hend t
  have d₀ := (Does.start ok hD).inert (f := fun y => { y with bpriority := bp })
    (fun _ => ⟨rfl, rfl, rfl, rfl, rfl⟩)
  have hc := Frame.changePriority d₀.sched hD p
  have hk : ∀ o : Outcome, (s.toSched.after o).knl = o.knl := by
    intro o
    unfold Sched.after
    split <;> rfl
  have heq : s.toSched.after (Mtk3Smp.tkChgPri s.knl t bp p) =
      Sched.after { s.toSched with knl := s.knl.setTcb t fun y => { y with bpriority := bp } }
        (knlChangeTaskPriority (s.knl.setTcb t fun y => { y with bpriority := bp }) t p) := by
    unfold Mtk3Smp.tkChgPri
    rw [if_neg hs]
    rfl
  rw [heq]
  refine ⟨hD, d₀.sched.changePriority hD (by omega), ?_, fun _ hr => ?_⟩
  · rw [← heq, hk]
    unfold Mtk3Smp.tkChgPri
    rw [if_neg hs]
    exact d₀.frame.trans hc.1
  · rw [← heq, hk]
    unfold Mtk3Smp.tkChgPri
    rw [if_neg hs]
    refine hc.2.trans ?_
    simpa using hr

theorem inherit_ok (ok : s.Ok) {p : Nat} (ha : s.agrees (.call (.inherit t p)) = true)
    (h : s.body (.inherit t p) = .ok x) : Does s t x := by
  simp only [body] at h
  split at h
  · rename_i hp
    simp only [Bool.and_eq_true, decide_eq_true_eq] at hp
    obtain rfl : _ = x := by simpa using h
    have hD : ¬ s.dying t := by
      rintro ⟨e, he⟩
      simp [agrees, readied, he] at ha
    have hc := Frame.changePriority ok.sched hD p
    have hk : (s.toSched.after (knlChangeTaskPriority s.knl t p)).knl =
        (knlChangeTaskPriority s.knl t p).knl := by
      unfold Sched.after
      split <;> rfl
    refine ⟨hD, ok.sched.changePriority hD hp.2, ?_, fun _ hr => ?_⟩
    · rw [hk]
      exact hc.1
    · rw [hk]
      exact hc.2.trans hr
  · cases h

theorem rot_ok (ok : s.Ok) (hend : s.ending = none) (priority : Nat) (t : Tid) :
    Does s t (knlRotateReadyQueue s.toSched priority) := by
  have hrest : ∀ k : Knl, (knlReadyQueueRotate k priority).tcb = k.tcb ∧
      (knlReadyQueueRotate k priority).klocktsk = k.klocktsk ∧
      (knlReadyQueueRotate k priority).locked = k.locked := by
    intro k
    unfold knlReadyQueueRotate
    cases k.rings.que (.ready priority) <;> exact ⟨rfl, rfl, rfl⟩
  obtain ⟨h₁, h₂, h₃⟩ := hrest s.knl
  refine ⟨not_dying hend t, SchedOk.rescheduled (ok.sched.knl.rotate priority),
    ⟨fun u _ => ?_, h₂, h₃⟩, fun _ hr => ?_⟩
  · show (knlReadyQueueRotate s.knl priority).tcb u = _
    rw [h₁]
  · show ((knlReadyQueueRotate s.knl priority).tcb t).state = _
    rw [h₁]
    exact hr

theorem rotRun_ok (ok : s.Ok) (hend : s.ending = none) (t : Tid) :
    Does s t (knlRotateReadyQueueRun s.toSched) := by
  unfold knlRotateReadyQueueRun
  split
  · exact Does.start ok (not_dying hend t)
  · exact rot_ok ok hend s.knl.topPriority t

/-- What `knl_del_tsk` does to a task in no queue. -/
theorem delTsk_knl {D D' : Tid → Prop} {k : Knl} (ok : KnlOk D k) (free : k.rings.Free t)
    (hl : (k.tcb t).klocked = false) (hD : ∀ u, u ≠ t → (D' u ↔ D u)) (hD' : ¬ D' t) :
    SameBut t k (knlDelTsk k t) ∧ Frame t k (knlDelTsk k t) ∧ KnlOk D' (knlDelTsk k t) := by
  have hins := SameBut.insertAt (k := k) (q := .free) (i := (k.rings.que .free).length) free (by simp)
  have same : SameBut t k (knlDelTsk k t) := by
    unfold knlDelTsk
    split
    all_goals
      refine ⟨fun u hu => ?_, hins.link, hins.que, rfl, rfl, rfl⟩
      simp [Knl.setTcb_ne hu]
  have hr : (knlDelTsk k t).rings = k.rings.insertLast .free t := by
    unfold knlDelTsk
    split <;> rfl
  have ht : (knlDelTsk k t).tcb t = { k.tcb t with state := .nonexist } := by
    unfold knlDelTsk
    split <;> simp
  have hlocked : (knlDelTsk k t).locked = k.locked := by
    unfold knlDelTsk
    split <;> rfl
  refine ⟨same, ⟨same.tcb, same.klocktsk, hlocked⟩, ?_⟩
  refine ok.update same hD (fun _ => free _) (.inl hl) (hr ▸ ok.ready.wf.insertLast free) ?_ ?_ ?_ ?_
    (fun _ => ?_) (fun h => absurd h hD')
  · rw [ht]; exact ok.ready.low t
  · rw [ht]; exact ok.ini t
  · rw [ht]; exact ok.nowait t
  · rw [ht]; exact hl
  · rw [ht]
    show ∀ q, (knlDelTsk k t).rings.link t = .member q → q = .free
    intro q hq
    rw [hr] at hq
    have hm : (k.rings.insertLast .free t).link t = .member .free := by
      show (k.rings.insertAt _ _ t).link t = _
      rw [Rings.link_insertAt free, Function.update_self]
    rw [hm] at hq
    exact (Link.member.inj hq).symm

theorem del_ok (ok : s.Ok) (hend : s.ending = none) (h : s.body (.del t) = .ok x) :
    Does s t x := by
  obtain ⟨hne, h⟩ := nonself_ok h
  unfold tkDelTsk at h
  cases hst : (s.knl.tcb t).state with
  | dormant =>
    rw [hst] at h
    obtain rfl : _ = x := by simpa using h
    have hl := ok.sched.knl.klocked_false (t := t) (by simp [hst])
    obtain ⟨same, frame, okk⟩ := delTsk_knl ok.sched.knl (ok.sched.knl.idle_free (.inr hst)) hl
      (fun _ _ => Iff.rfl) (not_dying hend t)
    exact ⟨not_dying hend t, ok.sched.same same okk, frame, fun hc => absurd hc hne⟩
  | nonexist | ready | wait | suspend | waitsus => rw [hst] at h; cases h

/-- tk_cre_tsk takes the first unused task, or none. -/
theorem creTsk_knl (k : Knl) (pk : TCtsk) :
    (SameBut 0 k (tkCreTsk k pk).knl ∧ (tkCreTsk k pk).knl.rings = k.rings ∧
      (tkCreTsk k pk).knl.tcb = k.tcb ∧ (tkCreTsk k pk).knl.locked = k.locked) ∨
    ∃ t rest y, k.rings.que .free = t :: rest ∧
      (tkCreTsk k pk).knl.rings = k.rings.remove t ∧
      (tkCreTsk k pk).knl.tcb = Function.update k.tcb t y ∧
      (y.state = .dormant ∧ y.priority = pk.itskpri ∧ y.ipriority = pk.itskpri ∧
        y.klockwait = false ∧ y.klocked = false) ∧
      (tkCreTsk k pk).knl.bitmap = k.bitmap ∧
      (tkCreTsk k pk).knl.topPriority = k.topPriority ∧
      (tkCreTsk k pk).knl.klocktsk = k.klocktsk ∧ (tkCreTsk k pk).knl.locked = k.locked := by
  unfold tkCreTsk
  cases hb : pk.bufptr.isSome <;> cases hq : k.rings.que .free
  case false.nil | true.nil =>
    refine .inl ?_
    simp only [hq, ↓reduceIte, Bool.false_eq_true]
    exact ⟨⟨fun _ _ => rfl, fun _ _ => rfl, fun _ => rfl, rfl, rfl, rfl⟩, rfl, rfl, rfl⟩
  case false.cons t rest | true.cons t rest =>
    refine .inr ⟨t, rest, ?_⟩
    simp only [hq, ↓reduceIte, Bool.false_eq_true]
    refine ⟨?_, trivial, rfl, ?_, ?_, rfl, rfl, rfl, rfl⟩
    rotate_left
    · simp only [Outcome.done, knlSetupContext, knlMakeDormant, Knl.setTcb, Function.update_idem,
        Function.update_self]
      rfl
    · exact ⟨rfl, rfl, rfl, rfl, rfl⟩

theorem cre_ok (ok : s.Ok) (hend : s.ending = none) {pk : TCtsk} (h : s.body (.cre pk) = .ok x) :
    ∃ t, Does s t x := by
  simp only [body] at h
  split at h
  · cases h
  rename_i hp
  obtain rfl : _ = x := by simpa using h
  have hx : s.toSched.after (tkCreTsk s.knl pk) =
      { s.toSched with knl := (tkCreTsk s.knl pk).knl } := by
    have hdue : (tkCreTsk s.knl pk).due = false := by
      unfold tkCreTsk
      dsimp only
      split <;> rfl
    simp [Sched.after, hdue]
  rw [hx]
  rcases creTsk_knl s.knl pk with ⟨same, hr, ht, hlk⟩ | ⟨t, rest, y, hq, hr, ht, hy, hb, htop, hk, hlk⟩
  · have hrdy : ReadyOk (tkCreTsk s.knl pk).knl := ok.sched.knl.ready.congr (hr ▸ ok.sched.knl.ready.wf)
      same.que (fun _ _ _ => by rw [ht]) (fun u => by rw [ht]; exact ok.sched.knl.ready.low u)
      same.bitmap same.topPriority
    refine ⟨0, not_dying hend 0, ok.sched.same same ⟨hrdy, ?_, ?_, ?_, ?_, ?_, ?_, ?_⟩,
      ⟨same.tcb, same.klocktsk, hlk⟩, fun _ hs => by rw [ht]; exact hs⟩
    · rw [hr, ht]; exact ok.sched.knl.placed
    · rw [hr]; exact ok.sched.knl.unlinked
    · rw [ht]; exact ok.sched.knl.ini
    · rw [ht]; exact ok.sched.knl.nowait
    · rw [same.klocktsk, ht]; exact ok.sched.knl.klocktsk
    · rw [ht]; exact ok.sched.knl.single
    · rw [ht]; exact ok.sched.knl.runs
  · have hlink := ok.sched.knl.ready.wf.link_head hq
    have out : ∀ p, s.knl.rings.link t ≠ .member (.ready p) := by simp [hlink]
    have hst : (s.knl.tcb t).state ≠ .ready := by
      intro h'
      have hl := ok.sched.knl.ready_link (not_dying hend t) h'
      rw [hlink] at hl
      cases hl
    have hrem := SameBut.remove out
    have same : SameBut t s.knl (tkCreTsk s.knl pk).knl := by
      refine ⟨fun u hu => ?_, fun u hu => ?_, fun p => ?_, hb, htop, hk⟩
      · rw [ht, Function.update_of_ne hu]
      · rw [hr]; exact hrem.link u hu
      · rw [hr]; exact hrem.que p
    have hself : (tkCreTsk s.knl pk).knl.tcb t = y := by rw [ht, Function.update_self]
    refine ⟨t, not_dying hend t, ok.sched.same same ?_, ⟨same.tcb, hk, hlk⟩,
      fun _ hs => absurd hs hst⟩
    refine ok.sched.knl.update same (fun _ _ => Iff.rfl) out (.inl (ok.sched.knl.klocked_false hst))
      (hr ▸ ok.sched.knl.ready.wf.remove (by simp [hlink])) ?_ ?_ ?_ ?_ (fun _ => ?_)
      (fun h => absurd h (not_dying hend t))
    · rw [hself, hy.2.1]; omega
    · rw [hself, hy.2.2.1]; omega
    · rw [hself]; exact hy.2.2.2.1
    · rw [hself]; exact hy.2.2.2.2
    · rw [hself, hr, Placed, hy.1]
      exact Rings.free_remove

/-- Every call body keeps what it is not about. -/
theorem body_ok (ok : s.Ok) {c : Call} (hend : s.ending = none ∨ c.ofMutex = true)
    (ha : s.agrees (.call c) = true) (h : s.body c = .ok x) : ∃ t, Does s t x := by
  have last : c.ofMutex = false → s.ending = none := by
    intro hc
    rw [hc] at hend
    simpa using hend
  cases c with
  | cre pk => exact cre_ok ok (last rfl) h
  | del t => exact ⟨t, del_ok ok (last rfl) h⟩
  | sta t => exact ⟨t, sta_ok ok (last rfl) ha h⟩
  | sus t => exact ⟨t, sus_ok ok (last rfl) h⟩
  | rsm t => exact ⟨t, rsm_ok ok (last rfl) ha h⟩
  | frsm t => exact ⟨t, frsm_ok ok (last rfl) ha h⟩
  | chgPri t bp p => exact ⟨t, chgPri_ok ok (last rfl) h⟩
  | rotRdq p =>
    obtain rfl : _ = x := by simpa [body] using h
    exact ⟨0, rot_ok ok (last rfl) p 0⟩
  | rotRdqRun =>
    obtain rfl : _ = x := by simpa [body] using h
    exact ⟨0, rotRun_ok ok (last rfl) 0⟩
  | release t => exact ⟨t, release_ok ok ha h⟩
  | inherit t p => exact ⟨t, inherit_ok ok ha h⟩

end Calls

end Cpu

end Mtk3Smp.Single
