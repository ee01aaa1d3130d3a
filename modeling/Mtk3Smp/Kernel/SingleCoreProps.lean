import Mtk3Smp.Kernel.ReadyQueue

/-!
# The scheduled task on one core

As long as no task is made ready above everything that is READY while another one holds an
object lock, and no task takes one while it is not the scheduled task, `knl_schedtsk` is
what `knl_ready_queue_top` returns (`schedtskOk_of_agrees`). Then a lock is never
contended, and the invariant needs no waiters: `KnlOk` says where each task is linked and
who holds the lock, `SchedOk` adds the scheduled task and `Ok` the rest of the machine. A
predicate `D` picks out the tasks that are between two queues.
-/

namespace Mtk3Smp.Single

/-- The link of a task agrees with its state. -/
def Placed (y : Tcb) (l : Link Que) : Prop :=
  match y.state with
  | .nonexist => ∀ q, l = .member q → q = .free
  | .ready => l = .member (.ready y.priority)
  | .wait | .waitsus => l = .selfRing ∨ ∃ o, l = .member (.waitq o)
  | .suspend | .dormant => ∀ q, l ≠ .member q

structure KnlOk (D : Tid → Prop) (k : Knl) : Prop where
  ready : ReadyOk k
  placed : ∀ t, ¬ D t → Placed (k.tcb t) (k.rings.link t)
  unlinked : ∀ t, D t → k.rings.Free t
  ini : ∀ t, (k.tcb t).ipriority < NUM_TSKPRI
  nowait : ∀ t, (k.tcb t).klockwait = false
  klocktsk : ∀ t, k.klocktsk = some t ↔ (k.tcb t).klocked = true ∧ ¬ D t
  single : ∀ t u, (k.tcb t).klocked = true → (k.tcb u).klocked = true → t = u
  runs : ∀ t, (k.tcb t).klocked = true → (k.tcb t).state = .ready

structure SchedOk (D : Tid → Prop) (x : Sched) : Prop where
  knl : KnlOk D x.knl
  sched : x.schedtsk = knlReadyQueueTop x.knl

/-- `D` and one more task. -/
def With (t : Tid) (D : Tid → Prop) : Tid → Prop := fun u => u = t ∨ D u

theorem with_ne {t u : Tid} {D : Tid → Prop} (h : u ≠ t) : With t D u ↔ D u := by
  simp [With, h]

theorem with_self {t : Tid} {D : Tid → Prop} : With t D t := Or.inl rfl

/-! ## Changes to one task -/

/-- `k'` differs from `k` in task `t` only, and in no ready queue. -/
structure SameBut (t : Tid) (k k' : Knl) : Prop where
  tcb : ∀ u, u ≠ t → k'.tcb u = k.tcb u
  link : ∀ u, u ≠ t → k'.rings.link u = k.rings.link u
  que : ∀ p, k'.rings.que (.ready p) = k.rings.que (.ready p)
  bitmap : k'.bitmap = k.bitmap
  topPriority : k'.topPriority = k.topPriority
  klocktsk : k'.klocktsk = k.klocktsk

namespace SameBut

variable {t : Tid} {k k' k'' : Knl}

theorem refl (t : Tid) (k : Knl) : SameBut t k k :=
  ⟨fun _ _ => rfl, fun _ _ => rfl, fun _ => rfl, rfl, rfl, rfl⟩

theorem trans (h : SameBut t k k') (h' : SameBut t k' k'') : SameBut t k k'' :=
  ⟨fun u hu => (h'.tcb u hu).trans (h.tcb u hu), fun u hu => (h'.link u hu).trans (h.link u hu),
    fun p => (h'.que p).trans (h.que p), h'.bitmap.trans h.bitmap,
    h'.topPriority.trans h.topPriority, h'.klocktsk.trans h.klocktsk⟩

theorem setTcb (t : Tid) (k : Knl) (f : Tcb → Tcb) : SameBut t k (k.setTcb t f) :=
  ⟨fun _ hu => Knl.setTcb_ne hu, fun _ _ => rfl, fun _ => rfl, rfl, rfl, rfl⟩

theorem remove (out : ∀ p, k.rings.link t ≠ .member (.ready p)) :
    SameBut t k { k with rings := k.rings.remove t } := by
  refine ⟨fun _ _ => rfl, fun u hu => Rings.link_remove_ne hu, fun p => ?_, rfl, rfl, rfl⟩
  show (k.rings.remove t).que (.ready p) = _
  cases hl : k.rings.link t with
  | loose | selfRing => simp [Rings.remove, hl]
  | member q =>
    rw [Rings.que_remove_of_member hl, Function.update_of_ne]
    rintro rfl
    exact out p hl

theorem insertAt {q : Que} {i : Nat} (free : k.rings.Free t) (hq : ∀ p, q ≠ .ready p) :
    SameBut t k { k with rings := k.rings.insertAt q i t } := by
  refine ⟨fun _ _ => rfl, fun u hu => Rings.link_insertAt_ne hu, fun p => ?_, rfl, rfl, rfl⟩
  show (k.rings.insertAt q i t).que (.ready p) = _
  rw [Rings.que_insertAt free, Function.update_of_ne (fun h => hq p h.symm)]

theorem selfLink : SameBut t k { k with rings := k.rings.selfLink t } := by
  refine ⟨fun _ _ => rfl, fun u hu => Rings.link_selfLink_ne hu, fun p => ?_, rfl, rfl, rfl⟩
  show (k.rings.selfLink t).que (.ready p) = _
  unfold Rings.selfLink
  cases k.rings.link t <;> rfl

theorem readyTop (h : SameBut t k k') : knlReadyQueueTop k' = knlReadyQueueTop k :=
  readyTop_congr h.klocktsk h.topPriority h.que

end SameBut

namespace KnlOk

variable {D D' : Tid → Prop} {k k' : Knl} {t : Tid}

/-- What a task is and where it is linked may change outside the ready queues, as long as
the two agree again and the task holds no lock. -/
theorem update (ok : KnlOk D k) (same : SameBut t k k') (hD : ∀ u, u ≠ t → (D' u ↔ D u))
    (out : ∀ p, k.rings.link t ≠ .member (.ready p))
    (free : (k.tcb t).klocked = false ∨ D t)
    (wf : k'.rings.WF) (prio : (k'.tcb t).priority < NUM_TSKPRI)
    (ini : (k'.tcb t).ipriority < NUM_TSKPRI) (nowait : (k'.tcb t).klockwait = false)
    (free' : (k'.tcb t).klocked = false)
    (placed : ¬ D' t → Placed (k'.tcb t) (k'.rings.link t))
    (unlinked : D' t → k'.rings.Free t) : KnlOk D' k' := by
  have hlocked : ∀ u, (k'.tcb u).klocked = true → u ≠ t ∧ (k.tcb u).klocked = true := by
    intro u hu
    by_cases e : u = t
    · rw [e, free'] at hu
      cases hu
    · exact ⟨e, same.tcb u e ▸ hu⟩
  refine ⟨?_, fun u hu => ?_, fun u hu => ?_, fun u => ?_, fun u => ?_, fun u => ?_, ?_, ?_⟩
  · refine ok.ready.congr wf same.que (fun p u hu => ?_) (fun u => ?_) same.bitmap
      same.topPriority
    · by_cases e : u = t
      · subst e
        exact absurd ((ok.ready.wf.mem_iff u _).1 hu) (out p)
      · rw [same.tcb u e]
    · by_cases e : u = t
      · exact e ▸ prio
      · rw [same.tcb u e]
        exact ok.ready.low u
  · by_cases e : u = t
    · subst e
      exact placed hu
    · rw [same.tcb u e, same.link u e]
      exact ok.placed u (fun h => hu ((hD u e).2 h))
  · by_cases e : u = t
    · subst e
      exact unlinked hu
    · intro q
      rw [same.link u e]
      exact ok.unlinked u ((hD u e).1 hu) q
  · by_cases e : u = t
    · exact e ▸ ini
    · rw [same.tcb u e]
      exact ok.ini u
  · by_cases e : u = t
    · exact e ▸ nowait
    · rw [same.tcb u e]
      exact ok.nowait u
  · rw [same.klocktsk, ok.klocktsk u]
    by_cases e : u = t
    · subst e
      rw [free']
      rcases free with free | free <;> simp [free]
    · rw [same.tcb u e, hD u e]
  · intro u v hu hv
    exact ok.single u v (hlocked u hu).2 (hlocked v hv).2
  · intro u hu
    obtain ⟨e, hu'⟩ := hlocked u hu
    rw [same.tcb u e]
    exact ok.runs u hu'

theorem congr (ok : KnlOk D k) (h : ∀ u, D' u ↔ D u) : KnlOk D' k := by
  have he : D' = D := funext fun u => propext (h u)
  exact he ▸ ok

/-- A task that is not READY holds no lock. -/
theorem klocked_false (ok : KnlOk D k) (h : (k.tcb t).state ≠ .ready) :
    (k.tcb t).klocked = false := by
  cases hl : (k.tcb t).klocked with
  | false => rfl
  | true => exact absurd (ok.runs t hl) h

theorem ready_link (ok : KnlOk D k) (hD : ¬ D t) (h : (k.tcb t).state = .ready) :
    k.rings.link t = .member (.ready (k.tcb t).priority) := by
  have hp := ok.placed t hD
  rw [Placed, h] at hp
  exact hp

/-- Only READY tasks are in a ready queue. -/
theorem out_of_ready (ok : KnlOk D k) (h : (k.tcb t).state ≠ .ready ∨ D t) (p : Nat) :
    k.rings.link t ≠ .member (.ready p) := by
  intro hl
  by_cases hD : D t
  · exact ok.unlinked t hD _ hl
  · have hs := h.resolve_right hD
    have hp := ok.placed t hD
    unfold Placed at hp
    cases hst : (k.tcb t).state with
    | ready => exact hs hst
    | nonexist => rw [hst] at hp; cases hp _ hl
    | wait | waitsus =>
      rw [hst] at hp
      rcases hp with hp | ⟨o, hp⟩ <;> rw [hl] at hp <;> cases hp
    | suspend | dormant => rw [hst] at hp; exact hp _ hl

theorem wait_link (ok : KnlOk D k) (hD : ¬ D t) (h : (k.tcb t).state.hasWait = true) :
    k.rings.link t = .selfRing ∨ ∃ o, k.rings.link t = .member (.waitq o) := by
  have hp := ok.placed t hD
  unfold Placed at hp
  cases hst : (k.tcb t).state with
  | wait | waitsus => rw [hst] at hp; exact hp
  | ready | nonexist | suspend | dormant => rw [hst] at h; cases h

theorem idle_free (ok : KnlOk D k)
    (h : (k.tcb t).state = .suspend ∨ (k.tcb t).state = .dormant) : k.rings.Free t := by
  by_cases hD : D t
  · exact ok.unlinked t hD
  · have hp := ok.placed t hD
    rcases h with h | h <;> rw [Placed, h] at hp <;> exact hp

/-- A task in no queue may be left out. -/
theorem loosen (ok : KnlOk D k) (free : k.rings.Free t) (hl : (k.tcb t).klocked = false) :
    KnlOk (With t D) k :=
  ok.update (SameBut.refl t k) (fun _ hu => with_ne hu) (fun _ => free _) (.inl hl) ok.ready.wf
    (ok.ready.low t) (ok.ini t) (ok.nowait t) hl (fun h => absurd with_self h) fun _ => free

/-- Fields of a task in no queue. -/
theorem setLoose (ok : KnlOk D k) (hD : D t) (f : Tcb → Tcb)
    (prio : (f (k.tcb t)).priority < NUM_TSKPRI)
    (ini : (f (k.tcb t)).ipriority < NUM_TSKPRI) (nowait : (f (k.tcb t)).klockwait = false)
    (hl' : (f (k.tcb t)).klocked = false) : KnlOk D (k.setTcb t f) := by
  refine ok.update (SameBut.setTcb t k f) (fun _ _ => Iff.rfl) (fun _ => ok.unlinked t hD _)
    (.inr hD) ok.ready.wf ?_ ?_ ?_ ?_ (fun h => absurd hD h) fun _ => ok.unlinked t hD
  all_goals simpa

/-! ## The ready queue -/

theorem insert (ok : KnlOk (With t D) k) (hD : ¬ D t) (h : (k.tcb t).state = .ready) :
    KnlOk D (knlReadyQueueInsert k t) := by
  have free := ok.unlinked t with_self
  have hlink : (knlReadyQueueInsert k t).rings.link =
      Function.update k.rings.link t (.member (.ready (k.tcb t).priority)) :=
    Rings.link_insertAt free
  have htcb : (knlReadyQueueInsert k t).tcb = k.tcb := rfl
  refine ⟨ok.ready.insert free, fun u hu => ?_, fun u hu => ?_, ok.ini, ok.nowait, fun u => ?_,
    ok.single, ok.runs⟩
  · rw [hlink, htcb]
    by_cases e : u = t
    · subst e
      rw [Function.update_self, Placed, h]
    · rw [Function.update_of_ne e]
      exact ok.placed u fun hw => hu ((with_ne e).1 hw)
  · intro q
    have e : u ≠ t := by
      rintro rfl
      exact hD hu
    rw [hlink, Function.update_of_ne e]
    exact ok.unlinked u ((with_ne e).2 hu) q
  · show (if (k.tcb t).klocked then some t else k.klocktsk) = some u ↔
      (k.tcb u).klocked = true ∧ ¬ D u
    have hold := ok.klocktsk u
    by_cases e : u = t
    · subst e
      cases hl : (k.tcb u).klocked with
      | true => simp [hD]
      | false => simp [hold, hl]
    · rw [with_ne e] at hold
      cases hl : (k.tcb t).klocked with
      | false => simpa using hold
      | true =>
        -- the lock is held by `t` alone
        have hu : (k.tcb u).klocked = false := by
          cases hlu : (k.tcb u).klocked with
          | false => rfl
          | true => exact absurd (ok.single u t hlu hl) e
        simp [hu, Ne.symm e]

theorem delete (ok : KnlOk D k) (hD : ¬ D t) (h : (k.tcb t).state = .ready) :
    KnlOk (With t D) (knlReadyQueueDelete k t) := by
  have hl := ok.ready_link hD h
  have hw := ok.nowait t
  have hr := ok.ready.delete hw hl
  rw [ReadyOk.delete_eq hw] at hr ⊢
  refine ⟨hr, fun u hu => ?_, fun u hu => ?_, ok.ini, ok.nowait, fun u => ?_, ok.single, ok.runs⟩
  · have e : u ≠ t := fun e => hu (.inl e)
    show Placed (k.tcb u) ((k.rings.remove t).link u)
    rw [Rings.link_remove_ne e]
    exact ok.placed u fun hd => hu (.inr hd)
  · rcases hu with rfl | hu
    · exact Rings.free_remove
    · exact (ok.unlinked u hu).remove
  · show (if k.klocktsk = some t then none else k.klocktsk) = some u ↔
      (k.tcb u).klocked = true ∧ ¬ With t D u
    have hold := ok.klocktsk u
    by_cases e : u = t
    · subst e
      have hself : With u D u := with_self
      by_cases hk : k.klocktsk = some u <;> simp [hk, hself]
    · rw [with_ne e, ← hold]
      by_cases hk : k.klocktsk = some t
      · simp [hk, Ne.symm e]
      · simp [hk]

theorem rotate (ok : KnlOk D k) (priority : Nat) : KnlOk D (knlReadyQueueRotate k priority) := by
  have hr := ok.ready.rotate priority
  have hlink : ∀ u, (knlReadyQueueRotate k priority).rings.link u = k.rings.link u := by
    intro u
    unfold knlReadyQueueRotate
    cases hq : k.rings.que (.ready priority) with
    | nil => rfl
    | cons t ts =>
      show ((k.rings.remove t).insertAt _ _ t).link u = _
      rw [Rings.link_insertAt Rings.free_remove]
      by_cases e : u = t
      · subst e
        rw [Function.update_self, ok.ready.wf.link_head hq]
      · rw [Function.update_of_ne e, Rings.link_remove_ne e]
  have hrest : (knlReadyQueueRotate k priority).tcb = k.tcb ∧
      (knlReadyQueueRotate k priority).klocktsk = k.klocktsk := by
    unfold knlReadyQueueRotate
    cases k.rings.que (.ready priority) <;> exact ⟨rfl, rfl⟩
  refine ⟨hr, fun u hu => ?_, fun u hu q => ?_, ?_, ?_, fun u => ?_, ?_, ?_⟩
  · rw [hlink, hrest.1]
    exact ok.placed u hu
  · rw [hlink]
    exact ok.unlinked u hu q
  · rw [hrest.1]; exact ok.ini
  · rw [hrest.1]; exact ok.nowait
  · rw [hrest.1, hrest.2]
    exact ok.klocktsk u
  · rw [hrest.1]; exact ok.single
  · rw [hrest.1]; exact ok.runs

/-! ## Fields -/

/-- Fields that neither the queues nor the lock depend on. -/
theorem inert (ok : KnlOk D k) {f : Tcb → Tcb}
    (h : ∀ y, (f y).state = y.state ∧ (f y).priority = y.priority ∧
      (f y).ipriority = y.ipriority ∧ (f y).klockwait = y.klockwait ∧ (f y).klocked = y.klocked) :
    KnlOk D (k.setTcb t f) := by
  have hf : ∀ u, ((k.setTcb t f).tcb u).state = (k.tcb u).state ∧
      ((k.setTcb t f).tcb u).priority = (k.tcb u).priority ∧
      ((k.setTcb t f).tcb u).ipriority = (k.tcb u).ipriority ∧
      ((k.setTcb t f).tcb u).klockwait = (k.tcb u).klockwait ∧
      ((k.setTcb t f).tcb u).klocked = (k.tcb u).klocked := by
    intro u
    by_cases e : u = t
    · subst e
      rw [Knl.setTcb_self]
      exact h _
    · rw [Knl.setTcb_ne e]
      exact ⟨rfl, rfl, rfl, rfl, rfl⟩
  refine ⟨ok.ready.congr ok.ready.wf (fun _ => rfl) (fun _ u _ => (hf u).2.1) (fun u => ?_) rfl rfl,
    fun u hu => ?_, ok.unlinked, fun u => ?_, fun u => ?_, fun u => ?_, fun u v hu hv => ?_,
    fun u hu => ?_⟩
  · rw [(hf u).2.1]
    exact ok.ready.low u
  · have hp := ok.placed u hu
    unfold Placed at hp ⊢
    rw [(hf u).1, (hf u).2.1]
    exact hp
  · rw [(hf u).2.2.1]
    exact ok.ini u
  · rw [(hf u).2.2.2.1]
    exact ok.nowait u
  · rw [(hf u).2.2.2.2]
    exact ok.klocktsk u
  · rw [(hf _).2.2.2.2] at hu hv
    exact ok.single u v hu hv
  · rw [(hf u).2.2.2.2] at hu
    rw [(hf u).1]
    exact ok.runs u hu

/-- The priority of a task in no queue, which may hold a lock. -/
theorem setPriority (ok : KnlOk D k) (hD : D t) {p : Nat} (hp : p < NUM_TSKPRI) :
    KnlOk D (k.setTcb t fun y => { y with priority := p }) := by
  refine ⟨ok.ready.congr ok.ready.wf (fun _ => rfl) (fun q u hu => ?_) (fun u => ?_) rfl rfl,
    fun u hu => ?_, ok.unlinked, fun u => ?_, fun u => ?_, fun u => ?_, fun u v => ?_, fun u => ?_⟩
  · rw [Knl.setTcb_ne]
    rintro rfl
    exact ok.unlinked u hD _ ((ok.ready.wf.mem_iff u _).1 hu)
  · rw [Knl.setTcb_tcb]
    split
    · exact hp
    · exact ok.ready.low u
  · have e : u ≠ t := by
      rintro rfl
      exact hu hD
    rw [Knl.setTcb_ne e]
    exact ok.placed u hu
  · rw [Knl.setTcb_tcb]
    split
    · exact ok.ini t
    · exact ok.ini u
  · rw [Knl.setTcb_tcb]
    split
    · exact ok.nowait t
    · exact ok.nowait u
  · rw [Knl.setTcb_tcb]
    split
    · rename_i e
      exact e ▸ ok.klocktsk t
    · exact ok.klocktsk u
  · simp only [Knl.setTcb_tcb, apply_ite Tcb.klocked]
    intro hu hv
    refine ok.single u v ?_ ?_
    · split at hu <;> simp_all
    · split at hv <;> simp_all
  · simp only [Knl.setTcb_tcb, apply_ite Tcb.klocked, apply_ite Tcb.state]
    intro hu
    split
    · rename_i e
      exact ok.runs t (by simpa [e] using hu)
    · rename_i e
      exact ok.runs u (by simpa [e] using hu)

/-! ## Waiting tasks -/

/-- Out of its wait queue. -/
theorem unlink (ok : KnlOk D k) (hD : ¬ D t) (hw : (k.tcb t).state.hasWait = true) :
    KnlOk (With t D) { k with rings := k.rings.remove t } := by
  have hs : (k.tcb t).state ≠ .ready := by
    intro h
    rw [h] at hw
    cases hw
  have hl := ok.klocked_false hs
  have hlink : k.rings.link t ≠ .loose := by
    rcases ok.wait_link hD hw with h | ⟨o, h⟩ <;> simp [h]
  exact ok.update (SameBut.remove (ok.out_of_ready (.inl hs))) (fun _ hu => with_ne hu)
    (ok.out_of_ready (.inl hs)) (.inl hl) (ok.ready.wf.remove hlink) (ok.ready.low t) (ok.ini t)
    (ok.nowait t) hl (fun h => absurd with_self h) fun _ => Rings.free_remove

end KnlOk

/-- `linkWaiting` changes one link, and no TCB. -/
structure Linked (t : Tid) (k k' : Knl) : Prop where
  same : SameBut t k k'
  wf : k'.rings.WF
  tcb : k'.tcb = k.tcb
  locked : k'.locked = k.locked
  link : k'.rings.link t = .selfRing ∨ ∃ o, k'.rings.link t = .member (.waitq o)

theorem linked_linkWaiting {k : Knl} {t : Tid} (wf : k.rings.WF) (free : k.rings.Free t)
    (w : Wspec) : Linked t k (linkWaiting k t w) := by
  have member : ∀ o i, (k.rings.insertAt (.waitq o) i t).link t = .member (.waitq o) := by
    intro o i
    rw [Rings.link_insertAt free, Function.update_self]
  cases w with
  | slp => exact ⟨SameBut.selfLink, wf.selfLink free, rfl, rfl, .inl (Rings.link_selfLink free)⟩
  | dly => exact ⟨SameBut.selfLink, wf.selfLink free, rfl, rfl, .inl (Rings.link_selfLink free)⟩
  | gcb o tpri =>
    cases tpri with
    | false =>
      exact ⟨SameBut.insertAt free (by simp), wf.insertLast free, rfl, rfl, .inr ⟨o, member o _⟩⟩
    | true =>
      exact ⟨SameBut.insertAt free (by simp), wf.insertBefore free, rfl, rfl,
        .inr ⟨o, member o _⟩⟩

/-! ## The scheduled task -/

namespace SchedOk

variable {D : Tid → Prop} {x : Sched} {t : Tid}

theorem rescheduled {k : Knl} (ok : KnlOk D k) : SchedOk D (knlReschedule k) := ⟨ok, rfl⟩

theorem inert (ok : SchedOk D x) {f : Tcb → Tcb}
    (h : ∀ y, (f y).state = y.state ∧ (f y).priority = y.priority ∧
      (f y).ipriority = y.ipriority ∧ (f y).klockwait = y.klockwait ∧ (f y).klocked = y.klocked) :
    SchedOk D { x with knl := x.knl.setTcb t f } :=
  ⟨ok.knl.inert h, ok.sched⟩

/-- `knl_make_ready` may keep `knl_schedtsk` unless its task comes first and no lock is
held. -/
theorem makeReady (ok : SchedOk (With t D) x) (hD : ¬ D t)
    (hl : (x.knl.tcb t).klocked = false)
    (hc : x.knl.klocktsk = none ∨ x.knl.topPriority ≤ (x.knl.tcb t).priority) :
    SchedOk D (knlMakeReady x t) := by
  have okr := ok.knl.setLoose with_self (fun y => { y with state := .ready })
    (ok.knl.ready.low t) (ok.knl.ini t) (ok.knl.nowait t) hl
  refine ⟨okr.insert hD (by simp), ?_⟩
  have hprio : ((x.knl.setTcb t fun y => { y with state := .ready }).tcb t).priority =
      (x.knl.tcb t).priority := by simp
  have hk : (knlMakeReady x t).knl.klocktsk = x.knl.klocktsk := by
    show (if ((x.knl.setTcb t fun y => { y with state := .ready }).tcb t).klocked then some t
      else x.knl.klocktsk) = _
    simp [hl]
  have hfirst := okr.ready.firstReady_insert (okr.unlinked t with_self)
  have hsched := ok.sched
  show (if ((x.knl.setTcb t fun y => { y with state := .ready }).tcb t).priority <
    x.knl.topPriority then some t else x.schedtsk) = knlReadyQueueTop (knlMakeReady x t).knl
  cases hx : x.knl.klocktsk with
  | none =>
    rw [hx] at hk
    rw [readyTop_none hx] at hsched
    rw [readyTop_none hk, hsched]
    exact hfirst.symm
  | some h =>
    rw [hx] at hk
    rw [readyTop_some hx] at hsched
    rw [hprio, if_neg (by have := hc.resolve_left (by simp [hx]); omega), readyTop_some hk]
    exact hsched

/-- Above everything that is READY it replaces a lock holder. -/
theorem makeReady_breaks {h : Tid} (hl : (x.knl.tcb t).klocked = false)
    (hk : x.knl.klocktsk = some h) (hne : h ≠ t)
    (hlt : (x.knl.tcb t).priority < x.knl.topPriority) :
    (knlMakeReady x t).schedtsk ≠ knlReadyQueueTop (knlMakeReady x t).knl := by
  have hk' : (knlMakeReady x t).knl.klocktsk = some h := by
    show (if ((x.knl.setTcb t fun y => { y with state := .ready }).tcb t).klocked then some t
      else x.knl.klocktsk) = _
    simp [hl, hk]
  have hs : (knlMakeReady x t).schedtsk = some t := by
    show (if ((x.knl.setTcb t fun y => { y with state := .ready }).tcb t).priority <
      x.knl.topPriority then some t else x.schedtsk) = some t
    rw [if_pos (by simpa using hlt)]
  rw [hs, readyTop_some hk']
  exact fun e => hne (by simpa using e.symm)

/-- `knl_make_non_ready` may keep `knl_schedtsk` unless it removes that task. -/
theorem makeNonReady (ok : SchedOk D x) (hD : ¬ D t) (h : (x.knl.tcb t).state = .ready)
    (hl : (x.knl.tcb t).klocked = false) : SchedOk (With t D) (knlMakeNonReady x t) := by
  refine ⟨ok.knl.delete hD h, ?_⟩
  show (if x.schedtsk = some t then knlReadyQueueTop (knlReadyQueueDelete x.knl t)
    else x.schedtsk) = knlReadyQueueTop (knlReadyQueueDelete x.knl t)
  split
  · rfl
  · rename_i hne
    have hk : (knlReadyQueueDelete x.knl t).klocktsk = x.knl.klocktsk := by
      rw [ReadyOk.delete_eq (ok.knl.nowait t)]
      show (if x.knl.klocktsk = some t then none else x.knl.klocktsk) = _
      rw [if_neg]
      intro h'
      rw [((ok.knl.klocktsk t).1 h').1] at hl
      cases hl
    have hsched := ok.sched
    cases hx : x.knl.klocktsk with
    | none =>
      rw [hx] at hk
      rw [readyTop_none hx] at hsched
      rw [readyTop_none hk, hsched]
      rw [hsched] at hne
      exact (ok.knl.ready.firstReady_delete (ok.knl.nowait t) (ok.knl.ready_link hD h) hne).symm
    | some u =>
      rw [hx] at hk
      rw [readyTop_some hk, hsched, readyTop_some hx]

/-- Outside the ready queues `knl_schedtsk` is not concerned. -/
theorem same {D' : Tid → Prop} (ok : SchedOk D x) {k : Knl} (h : SameBut t x.knl k)
    (okk : KnlOk D' k) : SchedOk D' { x with knl := k } :=
  ⟨okk, ok.sched.trans h.readyTop.symm⟩

/-- A task in no queue settles in a state that is in none. -/
theorem settle (ok : SchedOk (With t D) x) (hD : ¬ D t) {st : TStat}
    (hs : st = .suspend ∨ st = .dormant) (hl : (x.knl.tcb t).klocked = false) :
    SchedOk D { x with knl := x.knl.setTcb t fun y => { y with state := st } } := by
  have free := ok.knl.unlinked t with_self
  refine ok.same (SameBut.setTcb t _ _) ?_
  refine ok.knl.update (SameBut.setTcb t _ _) (fun _ hu => (with_ne hu).symm) (fun _ => free _)
    (.inl hl) ok.knl.ready.wf ?_ ?_ ?_ ?_ (fun _ => ?_) (fun h => absurd h hD)
  · simpa using ok.knl.ready.low t
  · simpa using ok.knl.ini t
  · simpa using ok.knl.nowait t
  · simpa using hl
  · rw [Knl.setTcb_self]
    rcases hs with rfl | rfl <;> exact free

/-- `knl_wait_release`. -/
theorem release (ok : SchedOk D x) (hD : ¬ D t) (hw : (x.knl.tcb t).state.hasWait = true)
    (hc : (x.knl.tcb t).state = .wait →
      x.knl.klocktsk = none ∨ x.knl.topPriority ≤ (x.knl.tcb t).priority) :
    SchedOk D (knlWaitRelease x t) := by
  have hs : (x.knl.tcb t).state ≠ .ready := by
    intro h
    rw [h] at hw
    cases hw
  have hl := ok.knl.klocked_false hs
  have ok₁ := ok.same (SameBut.remove (ok.knl.out_of_ready (.inl hs))) (ok.knl.unlink hD hw)
  unfold knlWaitRelease knlMakeNonWait
  split
  · rename_i h
    exact ok₁.makeReady hD hl (hc h)
  · exact ok₁.settle hD (.inl rfl) hl

/-- The kernel data after a READY task has been made to wait; whatever lock it held is
free in `k'`. -/
theorem waiting_knl {k k' : Knl} {w : Wspec} (ok : KnlOk D k) (hD : ¬ D t)
    (h : (k.tcb t).state = .ready)
    (same : SameBut t (linkWaiting
      ((knlReadyQueueDelete k t).setTcb t fun y => { y with state := .wait }) t w) k')
    (hr : k'.rings = (linkWaiting
      ((knlReadyQueueDelete k t).setTcb t fun y => { y with state := .wait }) t w).rings)
    (ht : k'.tcb t = { k.tcb t with state := .wait, klocked := false }) : KnlOk D k' := by
  have okd := ok.delete hD h
  have linked := linked_linkWaiting
    (k := (knlReadyQueueDelete k t).setTcb t fun y => { y with state := .wait })
    okd.ready.wf (okd.unlinked t with_self) w
  have all := ((SameBut.setTcb t (knlReadyQueueDelete k t) _).trans linked.same).trans same
  refine okd.update all (fun _ hu => (with_ne hu).symm) (fun _ => okd.unlinked t with_self _)
    (.inr with_self) (hr ▸ linked.wf) ?_ ?_ ?_ ?_ (fun _ => ?_) (fun hd => absurd hd hD)
  · rw [ht]; exact ok.ready.low t
  · rw [ht]; exact ok.ini t
  · rw [ht]; exact ok.nowait t
  · rw [ht]
  · rw [ht, hr]
    exact linked.link

theorem block (ok : SchedOk D x) (hD : ¬ D t) (h : (x.knl.tcb t).state = .ready)
    (hl : (x.knl.tcb t).klocked = false) (w : Wspec) : SchedOk D (blockCaller x t w) := by
  have ok₀ := ok.inert (t := t) (f := fun y => { y with wspec := w }) (fun _ => ⟨rfl, rfl, rfl, rfl, rfl⟩)
  have h₀ : ((x.knl.setTcb t fun y => { y with wspec := w }).tcb t).state = .ready := by
    simpa using h
  have hl₀ : ((x.knl.setTcb t fun y => { y with wspec := w }).tcb t).klocked = false := by
    simpa using hl
  have ok₁ := ok₀.makeNonReady hD h₀ hl₀
  have linked := linked_linkWaiting
    (k := (knlReadyQueueDelete (x.knl.setTcb t fun y => { y with wspec := w }) t).setTcb t
      fun y => { y with state := .wait })
    ok₁.knl.ready.wf (ok₁.knl.unlinked t with_self) w
  have okk := waiting_knl ok₀.knl hD h₀ (SameBut.refl t _) rfl
    (by rw [linked.tcb, Knl.setTcb_self, ReadyOk.delete_eq (ok₀.knl.nowait t)]; simp [hl])
  have hb : blockCaller x t w =
      { schedtsk := (knlMakeNonReady { x with knl := x.knl.setTcb t fun y => { y with wspec := w } }
          t).schedtsk
        knl := linkWaiting ((knlReadyQueueDelete (x.knl.setTcb t fun y => { y with wspec := w })
          t).setTcb t fun y => { y with state := .wait }) t w } := by
    simp only [blockCaller, knlMakeWait, h₀]
    rfl
  rw [hb]
  exact ok₁.same ((SameBut.setTcb t _ _).trans linked.same) okk

/-! ## Priorities -/

theorem placed_priority {y : Tcb} {l : Link Que} {p : Nat} (h : y.state ≠ .ready)
    (hp : Placed y l) : Placed { y with priority := p } l := by
  unfold Placed at hp ⊢
  cases hs : y.state with
  | ready => exact absurd hs h
  | nonexist | wait | waitsus | suspend | dormant => rw [hs] at hp; exact hp

/-- `knl_gcb_change_priority` takes a waiting task out of its wait queue and puts it back. -/
theorem requeue {k : Knl} (ok : KnlOk D k) (hD : ¬ D t) (hw : (k.tcb t).state.hasWait = true)
    (o : ObjId) : SameBut t k (knlGcbChangePriority k t o) ∧ KnlOk D (knlGcbChangePriority k t o) := by
  have hs : (k.tcb t).state ≠ .ready := by
    intro h
    rw [h] at hw
    cases hw
  have ok' := ok.unlink hD hw
  have same' := SameBut.remove (ok.out_of_ready (t := t) (.inl hs))
  have free := ok'.unlinked t with_self
  have linked := linked_linkWaiting ok'.ready.wf free (.gcb o true)
  have heq : knlGcbChangePriority k t o =
      linkWaiting { k with rings := k.rings.remove t } t (.gcb o true) := rfl
  rw [heq]
  refine ⟨same'.trans linked.same, ok'.update linked.same (fun _ hu => (with_ne hu).symm)
    (fun _ => free _) (.inr with_self) linked.wf ?_ ?_ ?_ ?_ (fun _ => ?_) (fun hd => absurd hd hD)⟩
  · rw [linked.tcb]; exact ok'.ready.low t
  · rw [linked.tcb]; exact ok'.ini t
  · rw [linked.tcb]; exact ok'.nowait t
  · rw [linked.tcb]; exact ok.klocked_false hs
  · rw [linked.tcb]
    unfold Placed
    cases hst : (k.tcb t).state with
    | wait | waitsus => simpa only [hst] using linked.link
    | ready | nonexist | suspend | dormant => rw [hst] at hw; cases hw

/-- `knl_change_task_priority`. -/
theorem changePriority (ok : SchedOk D x) (hD : ¬ D t) {p : Nat} (hp : p < NUM_TSKPRI) :
    SchedOk D (x.after (knlChangeTaskPriority x.knl t p)) := by
  unfold knlChangeTaskPriority
  by_cases h : (x.knl.tcb t).state = .ready
  · rw [if_pos h]
    have okd := (ok.knl.delete hD h).setPriority with_self hp
    refine rescheduled (okd.insert hD ?_)
    rw [Knl.setTcb_self, ReadyOk.delete_eq (ok.knl.nowait t)]
    exact h
  · rw [if_neg h]
    have out := ok.knl.out_of_ready (.inl h)
    have hl := ok.knl.klocked_false h
    have ok₁ : KnlOk D (x.knl.setTcb t fun y => { y with priority := p }) := by
      refine ok.knl.update (SameBut.setTcb t _ _) (fun _ _ => Iff.rfl) out (.inl hl)
        ok.knl.ready.wf ?_ ?_ ?_ ?_ (fun _ => ?_) (fun hd => absurd hd hD)
      · simpa using hp
      · simpa using ok.knl.ini t
      · simpa using ok.knl.nowait t
      · simpa using hl
      · rw [Knl.setTcb_self]
        exact placed_priority h (ok.knl.placed t hD)
    have same₁ := SameBut.setTcb t x.knl fun y => { y with priority := p }
    dsimp only
    split
    · rename_i o hw _
      have again := requeue ok₁ hD hw o
      exact ok.same (same₁.trans again.1) again.2
    · exact ok.same same₁ ok₁

end SchedOk

end Mtk3Smp.Single
