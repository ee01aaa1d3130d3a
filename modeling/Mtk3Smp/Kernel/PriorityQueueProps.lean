import Mtk3Smp.Kernel.PriorityQueue

/-!
# The summaries of the ready queue

`RdyOk` relates the pointers, the bitmap and `top_priority` to the lists. A queue whose
contents change is one of: a task linked in, a task unlinked, a task moved to the end; each
keeps `RdyOk` by a lemma of its own, and the operations are put together from these.
-/

namespace Mtk3Smp

universe u

variable {τ : Type u} [DecidableEq τ] {c : RdyCfg}

namespace RdySys

structure RdyOk (c : RdyCfg) (s : State τ) : Prop where
  wf : s.spec.WF
  spelled : s.rq.links.Represents s.spec
  filed : ∀ t p, s.spec.link t = .member (.ready p) → p = s.rq.priority t
  low : ∀ t, s.rq.priority t < c.numTskpri
  fits : s.rq.bitmap.Fits c
  bit : ∀ p < c.numTskpri, s.rq.bitmap.test c p = true ↔ s.spec.que (.ready p) ≠ []
  top : TopOf c (s.rq.bitmap.test c) s.rq.topPriority

variable {s : State τ} {t : τ} {p : Nat}

omit [DecidableEq τ] in
theorem free_of_unqueued (h : unqueued s t = true) : s.spec.Free t := by
  intro q hq
  unfold unqueued at h
  rw [hq] at h
  cases h

theorem isQueEmpty_iff {rq : RDYQUE τ} {spec : Rings Tskque τ}
    (h : rq.links.Represents spec) (p : Nat) :
    rq.isQueEmpty p = true ↔ spec.que (.ready p) = [] := by
  have hnext := h.next_head (.ready p)
  unfold RDYQUE.isQueEmpty
  rw [decide_eq_true_iff, hnext]
  cases hq : spec.que (.ready p) with
  | nil => simp [RingLinks.place]
  | cons x xs => simp [RingLinks.place]

/-- A lower top keeps being the top of a bitmap with one more bit. -/
theorem TopOf.set {m : Bitmap} {n : Nat} (h : TopOf c (m.test c) n) (fits : m.Fits c)
    (hp : p < c.numTskpri) :
    TopOf c ((m.set c p).test c) (if p < n then p else n) := by
  have hle := h.le
  refine ⟨by split <;> omega, fun q hq => ?_, fun hlt => ?_⟩
  · have hqn : q < n := by split at hq <;> omega
    have hqp : ¬q = p := by split at hq <;> omega
    rw [Bitmap.test_set fits (by omega), h.low q hqn]
    simp [hqp]
  · rw [Bitmap.test_set fits (by omega)]
    split
    · simp
    · rename_i hpn
      rw [if_neg hpn] at hlt
      simp [h.bit hlt]

/-! ## A task linked in -/

theorem RdyOk.linked (ok : RdyOk c s) (free : s.spec.Free t) {pre post : List τ}
    (hq : s.spec.que (.ready (s.rq.priority t)) = pre ++ post) (rq : RDYQUE τ)
    (hlinks : rq.links =
      s.rq.links.insert t (RingLinks.place (.ready (s.rq.priority t)) post))
    (hmap : rq.bitmap = s.rq.bitmap.set c (s.rq.priority t))
    (htop : rq.topPriority =
      if s.rq.priority t < s.rq.topPriority then s.rq.priority t else s.rq.topPriority)
    (hpri : rq.priority = s.rq.priority) :
    RdyOk c { rq := rq
              spec := s.spec.insertAt (.ready (s.rq.priority t)) pre.length t } := by
  have hlow := ok.low t
  refine ⟨?_, ?_, fun x q hx => ?_, ?_, ?_, fun q hqN => ?_, ?_⟩
  · exact ok.wf.insertAt free (by rw [hq]; simp)
  · dsimp only
    rw [hlinks]
    exact ok.spelled.insert ok.wf free hq
  · dsimp only at hx ⊢
    rw [hpri]
    by_cases hxt : x = t
    · subst hxt
      rw [Rings.link_insertAt free, Function.update_self] at hx
      injection hx with hx
      injection hx with hx
      exact hx.symm
    · rw [Rings.link_insertAt_ne hxt] at hx
      exact ok.filed x q hx
  · dsimp only
    rw [hpri]
    exact ok.low
  · dsimp only
    rw [hmap]
    exact ok.fits.set
  · dsimp only
    rw [hmap, Bitmap.test_set ok.fits hqN, Rings.que_insertAt free]
    by_cases hqp : q = s.rq.priority t
    · subst hqp
      rw [Function.update_self, hq, RingLinks.insertIdx_append]
      simp
    · have hne : Tskque.ready q ≠ .ready (s.rq.priority t) := fun he => hqp (by injection he)
      rw [Function.update_of_ne hne]
      simpa [hqp] using ok.bit q hqN
  · dsimp only
    rw [hmap, htop]
    exact TopOf.set ok.top ok.fits hlow

theorem RdyOk.insert (ok : RdyOk c s) (h : unqueued s t = true) :
    RdyOk c { rq := (knlReadyQueueInsert c s.rq t).1
              spec := s.spec.insertLast (.ready (s.rq.priority t)) t } := by
  refine ok.linked (free_of_unqueued h) (List.append_nil _).symm _ ?_ ?_ ?_ ?_
  all_goals
    unfold knlReadyQueueInsert
    dsimp only
    split <;> rfl

theorem RdyOk.insertTop (ok : RdyOk c s) (h : unqueued s t = true) :
    RdyOk c { rq := knlReadyQueueInsertTop c s.rq t
              spec := s.spec.insertFirst (.ready (s.rq.priority t)) t } := by
  have hnext := ok.spelled.next_head (.ready (s.rq.priority t))
  refine ok.linked (free_of_unqueued h) (List.nil_append _).symm _ ?_ ?_ ?_ ?_
  all_goals
    unfold knlReadyQueueInsertTop
    dsimp only
    rw [hnext]
    split <;> rfl

/-! ## A task unlinked -/

/-- With the links of a task taken out, the bits are right but that of its own queue. -/
theorem RdyOk.unlinked (ok : RdyOk c s) (hl : s.spec.link t ≠ .loose) (rq : RDYQUE τ)
    (hlinks : rq.links = s.rq.links.remove t) (hpri : rq.priority = s.rq.priority)
    (hmap : rq.bitmap.Fits c)
    (hbit : ∀ p < c.numTskpri, rq.bitmap.test c p = true ↔
      (s.spec.remove t).que (.ready p) ≠ [])
    (htop : TopOf c (rq.bitmap.test c) rq.topPriority) :
    RdyOk c { rq := rq, spec := s.spec.remove t } := by
  refine ⟨ok.wf.remove hl, ?_, fun x q hx => ?_, ?_, hmap, hbit, htop⟩
  · dsimp only
    rw [hlinks]
    exact ok.spelled.remove ok.wf hl
  · dsimp only at hx ⊢
    rw [hpri]
    by_cases hxt : x = t
    · subst hxt
      exact absurd hx (Rings.free_remove _)
    · rw [Rings.link_remove_ne hxt] at hx
      exact ok.filed x q hx
  · dsimp only
    rw [hpri]
    exact ok.low

theorem que_remove_lock {l : Nat} (hl : s.spec.link t = .member (.lock l)) (p : Nat) :
    (s.spec.remove t).que (.ready p) = s.spec.que (.ready p) := by
  have hne : Tskque.ready p ≠ .lock l := fun he => nomatch he
  rw [Rings.que_remove_of_member hl, Function.update_of_ne hne]

theorem que_remove_ready {q : Nat} (hl : s.spec.link t = .member (.ready q)) (hp : p ≠ q) :
    (s.spec.remove t).que (.ready p) = s.spec.que (.ready p) := by
  have hne : Tskque.ready p ≠ .ready q := fun he => hp (by injection he)
  rw [Rings.que_remove_of_member hl, Function.update_of_ne hne]

/-- The bit of the queue that became empty is cleared. -/
theorem RdyOk.bit_clr (ok : RdyOk c s) {q : Nat} (hl : s.spec.link t = .member (.ready q))
    (he : (s.spec.remove t).que (.ready q) = []) (hp : p < c.numTskpri) :
    (s.rq.bitmap.clr c q).test c p = true ↔ (s.spec.remove t).que (.ready p) ≠ [] := by
  rw [Bitmap.test_clr ok.fits hp]
  by_cases hpq : p = q
  · subst hpq
    simp [he]
  · rw [que_remove_ready hl hpq]
    simpa [hpq] using ok.bit p hp

theorem RdyOk.delete (ok : RdyOk c s) (h : inItsQueue s t = true) :
    ∃ rq, knlReadyQueueDelete c s.rq t = some rq ∧
      RdyOk c { rq := rq, spec := s.spec.remove t } := by
  unfold inItsQueue at h
  cases hl : s.spec.link t with
  | loose => simp [hl] at h
  | selfRing => simp [hl] at h
  | member w =>
    have hloose : s.spec.link t ≠ .loose := by simp [hl]
    cases w with
    | lock l =>
      have hwait : s.rq.klockwait t = true := by simpa [hl] using h
      refine ⟨_, if_pos hwait, ok.unlinked hloose _ rfl rfl ok.fits (fun p hp => ?_) ok.top⟩
      rw [que_remove_lock hl]
      exact ok.bit p hp
    | ready q =>
      have hq : q = s.rq.priority t ∧ s.rq.klockwait t = false := by simpa [hl] using h
      obtain ⟨rfl, hwait⟩ := hq
      have hlow := ok.low t
      have hempty := @isQueEmpty_iff _ _ { s.rq with
        klocktsk := if s.rq.klocktsk = some t then none else s.rq.klocktsk
        links := s.rq.links.remove t } _ (ok.spelled.remove ok.wf hloose) (s.rq.priority t)
      unfold knlReadyQueueDelete
      simp only [hwait, Bool.false_eq_true, if_false]
      by_cases he : (s.spec.remove t).que (.ready (s.rq.priority t)) = []
      · rw [if_neg (by simp [hempty.2 he])]
        by_cases htop : s.rq.priority t = s.rq.topPriority
        · -- every bit below the old top stays clear
          obtain ⟨n, hn, hnext⟩ := Bitmap.nextTop_topOf (m := s.rq.bitmap.clr c (s.rq.priority t))
            ok.fits.clr hlow fun q hq => by
              rw [Bitmap.test_clr ok.fits (by omega), ok.top.low q (by omega)]
              simp
          rw [if_neg (not_not.2 htop), hn]
          exact ⟨_, rfl, ok.unlinked hloose _ rfl rfl ok.fits.clr
            (fun p hp => ok.bit_clr hl he hp) hnext⟩
        · rw [if_pos htop]
          refine ⟨_, rfl, ok.unlinked hloose _ rfl rfl ok.fits.clr
            (fun p hp => ok.bit_clr hl he hp) ⟨ok.top.le, fun q hq => ?_, fun hlt => ?_⟩⟩
          · have hle := ok.top.le
            dsimp only at hq ⊢
            rw [Bitmap.test_clr ok.fits (by omega), ok.top.low q hq]
            simp
          · dsimp only at hlt ⊢
            rw [Bitmap.test_clr ok.fits hlt, ok.top.bit hlt]
            simpa using Ne.symm htop
      · have hfull := Bool.eq_false_iff.2 fun h => he (hempty.1 h)
        rw [if_pos (by rw [hfull]; rfl)]
        refine ⟨_, rfl, ok.unlinked hloose _ rfl rfl ok.fits (fun p hp => ?_) ok.top⟩
        by_cases hpq : p = s.rq.priority t
        · subst hpq
          have hmem : t ∈ s.spec.que (.ready (s.rq.priority t)) := (ok.wf.mem_iff t _).2 hl
          have hne := List.ne_nil_of_mem hmem
          have hset := (ok.bit _ hp).2 hne
          exact ⟨fun _ => he, fun _ => hset⟩
        · rw [que_remove_ready hl hpq]
          exact ok.bit p hp

/-! ## A task moved to the end -/

theorem que_toLast (hl : s.spec.link t = .member (.ready p)) :
    (toLast s.spec p t).que =
      Function.update s.spec.que (.ready p) ((s.spec.que (.ready p)).erase t ++ [t]) := by
  have hfree : (s.spec.remove t).Free t := Rings.free_remove
  unfold toLast Rings.insertLast
  rw [Rings.que_insertAt hfree, Rings.que_remove_of_member hl, Function.update_self]
  rw [List.insertIdx_length_self, Function.update_idem]

theorem RdyOk.toLast (ok : RdyOk c s) (hl : s.spec.link t = .member (.ready p)) (rq : RDYQUE τ)
    (hlinks : rq.links = (s.rq.links.remove t).insert t (.head (.ready p)))
    (hrest : rq = { s.rq with links := rq.links }) :
    RdyOk c { rq := rq, spec := toLast s.spec p t } := by
  have hfree : (s.spec.remove t).Free t := Rings.free_remove
  have hloose : s.spec.link t ≠ .loose := by simp [hl]
  have hwf := ok.wf.remove hloose
  have hque := que_toLast hl
  have hpri : rq.priority = s.rq.priority := by rw [hrest]
  have hmap : rq.bitmap = s.rq.bitmap := by rw [hrest]
  have htop : rq.topPriority = s.rq.topPriority := by rw [hrest]
  refine ⟨hwf.insertLast hfree, ?_, fun x q hx => ?_, ?_, ?_, fun q hq => ?_, ?_⟩
  · dsimp only
    rw [hlinks]
    exact (ok.spelled.remove ok.wf hloose).insert hwf hfree (List.append_nil _).symm
  · dsimp only at hx ⊢
    rw [hpri]
    unfold RdySys.toLast Rings.insertLast at hx
    by_cases hxt : x = t
    · subst hxt
      rw [Rings.link_insertAt hfree, Function.update_self] at hx
      injection hx with hx
      injection hx with hx
      subst hx
      exact ok.filed x p hl
    · rw [Rings.link_insertAt_ne hxt, Rings.link_remove_ne hxt] at hx
      exact ok.filed x q hx
  · dsimp only
    rw [hpri]
    exact ok.low
  · dsimp only
    rw [hmap]
    exact ok.fits
  · dsimp only
    rw [hmap, hque]
    by_cases hqp : q = p
    · subst hqp
      have hmem : t ∈ s.spec.que (.ready q) := (ok.wf.mem_iff t _).2 hl
      have hset := (ok.bit q hq).2 (List.ne_nil_of_mem hmem)
      rw [Function.update_self]
      simp [hset]
    · have hne : Tskque.ready q ≠ .ready p := fun he => hqp (by injection he)
      rw [Function.update_of_ne hne]
      exact ok.bit q hq
  · dsimp only
    rw [hmap, htop]
    exact ok.top

/-! ## Every step -/

theorem RdyOk.rotate (ok : RdyOk c s) :
    RdyOk c { rq := knlReadyQueueRotate s.rq p
              spec := match s.spec.que (.ready p) with
                | [] => s.spec
                | t :: _ => RdySys.toLast s.spec p t } := by
  unfold knlReadyQueueRotate
  cases hq : s.spec.que (.ready p) with
  | nil =>
    rw [ok.spelled.removeNext_nil hq]
    exact ok
  | cons t rest =>
    rw [ok.spelled.removeNext_cons ok.wf hq]
    exact ok.toLast (ok.wf.link_head hq) _ rfl rfl

omit [DecidableEq τ] in
/-- A change that leaves the ready queues, their bits and the priorities. -/
theorem RdyOk.other (ok : RdyOk c s) {s' : State τ} (wf : s'.spec.WF)
    (spelled : s'.rq.links.Represents s'.spec)
    (hlink : ∀ t p, s'.spec.link t = .member (.ready p) → s.spec.link t = .member (.ready p))
    (hque : ∀ p, s'.spec.que (.ready p) = s.spec.que (.ready p))
    (hpri : s'.rq.priority = s.rq.priority) (hmap : s'.rq.bitmap = s.rq.bitmap)
    (htop : s'.rq.topPriority = s.rq.topPriority) : RdyOk c s' := by
  refine ⟨wf, spelled, fun t p ht => ?_, ?_, ?_, fun p hp => ?_, ?_⟩
  · rw [hpri]
    exact ok.filed t p (hlink t p ht)
  · rw [hpri]
    exact ok.low
  · rw [hmap]
    exact ok.fits
  · rw [hmap, hque]
    exact ok.bit p hp
  · rw [hmap, htop]
    exact ok.top

theorem RdyOk.setPriority (ok : RdyOk c s) (hp : p < c.numTskpri) (h : notReady s t = true) :
    RdyOk c { s with rq := { s.rq with priority := Function.update s.rq.priority t p } } := by
  refine ⟨ok.wf, ok.spelled, fun x q hx => ?_, fun x => ?_, ok.fits, ok.bit, ok.top⟩
  · have hxt : x ≠ t := by
      rintro rfl
      unfold notReady at h
      rw [show s.spec.link x = .member (.ready q) from hx] at h
      cases h
    dsimp only
    rw [Function.update_of_ne hxt]
    exact ok.filed x q hx
  · dsimp only
    by_cases hxt : x = t
    · subst hxt
      rwa [Function.update_self]
    · rw [Function.update_of_ne hxt]
      exact ok.low x

theorem RdyOk.lockWait (ok : RdyOk c s) (h : unqueued s t = true) (loc : Nat)
    {rq : RDYQUE τ} (hlinks : rq.links = s.rq.links.insert t (.head (.lock loc)))
    (hpri : rq.priority = s.rq.priority) (hmap : rq.bitmap = s.rq.bitmap)
    (htop : rq.topPriority = s.rq.topPriority) :
    RdyOk c { rq := rq, spec := s.spec.insertLast (.lock loc) t } := by
  have hfree := free_of_unqueued h
  refine ok.other (ok.wf.insertLast hfree) ?_ (fun x q hx => ?_) (fun q => ?_) hpri hmap htop
  · dsimp only
    rw [hlinks]
    exact ok.spelled.insert ok.wf hfree (List.append_nil _).symm
  · dsimp only at hx
    unfold Rings.insertLast at hx
    by_cases hxt : x = t
    · subst hxt
      rw [Rings.link_insertAt hfree, Function.update_self] at hx
      injection hx with hx
      cases hx
    · rwa [Rings.link_insertAt_ne hxt] at hx
  · have hne : Tskque.ready q ≠ .lock loc := fun he => nomatch he
    dsimp only
    unfold Rings.insertLast
    rw [Rings.que_insertAt hfree, Function.update_of_ne hne]

theorem RdyOk.unlock (ok : RdyOk c s) {loc : Nat} {rest : List τ}
    (hq : s.spec.que (.lock loc) = t :: rest) {rq : RDYQUE τ}
    (hlinks : rq.links = s.rq.links.remove t) (hpri : rq.priority = s.rq.priority)
    (hmap : rq.bitmap = s.rq.bitmap) (htop : rq.topPriority = s.rq.topPriority) :
    RdyOk c { rq := rq, spec := s.spec.remove t } := by
  have hl := ok.wf.link_head hq
  have hloose : s.spec.link t ≠ .loose := by simp [hl]
  refine ok.other (ok.wf.remove hloose) ?_ (fun x q hx => ?_) (que_remove_lock hl) hpri hmap htop
  · dsimp only
    rw [hlinks]
    exact ok.spelled.remove ok.wf hloose
  · by_cases hxt : x = t
    · subst hxt
      exact absurd hx (Rings.free_remove _)
    · exact (Rings.link_remove_ne hxt).symm.trans hx

theorem RdyOk.step (ok : RdyOk c s) {e : Event τ} {s' : State τ}
    (hs : RdySys.step c s e = some s') : RdyOk c s' := by
  cases e with
  | insert t =>
    obtain ⟨h, hs⟩ := Option.ite_none_right_eq_some.1 hs
    cases hs
    exact ok.insert h
  | insertTop t =>
    obtain ⟨h, hs⟩ := Option.ite_none_right_eq_some.1 hs
    cases hs
    exact ok.insertTop h
  | delete t =>
    obtain ⟨h, hs⟩ := Option.ite_none_right_eq_some.1 hs
    obtain ⟨rq, hrq, hok⟩ := ok.delete h
    rw [hrq] at hs
    cases hs
    exact hok
  | rotate p =>
    obtain ⟨-, hs⟩ := Option.ite_none_right_eq_some.1 hs
    cases hs
    exact ok.rotate
  | moveLast t =>
    obtain ⟨h, hs⟩ := Option.ite_none_right_eq_some.1 hs
    cases hs
    have hl : s.spec.link t = .member (.ready (s.rq.priority t)) := of_decide_eq_true h
    exact ok.toLast hl _ rfl rfl
  | setPriority t p =>
    obtain ⟨⟨hp, h⟩, hs⟩ := Option.ite_none_right_eq_some.1 hs
    cases hs
    exact ok.setPriority hp h
  | setKlocked t b =>
    cases hs
    exact ok.other ok.wf ok.spelled (fun _ _ h => h) (fun _ => rfl) rfl rfl rfl
  | setKlocktsk t =>
    cases hs
    exact ok.other ok.wf ok.spelled (fun _ _ h => h) (fun _ => rfl) rfl rfl rfl
  | lockWait t loc =>
    obtain ⟨h, hs⟩ := Option.ite_none_right_eq_some.1 hs
    cases hs
    exact ok.lockWait h loc rfl rfl rfl rfl
  | unlock loc =>
    simp only [RdySys.step] at hs
    cases hq : s.spec.que (.lock loc) with
    | nil =>
      rw [ok.spelled.removeNext_nil hq] at hs
      cases hs
    | cons t rest =>
      rw [ok.spelled.removeNext_cons ok.wf hq] at hs
      cases hs
      exact ok.unlock hq rfl rfl rfl rfl

theorem RdyOk.init (h : Init c s) : RdyOk c s := by
  obtain ⟨hspec, hlow, rq, hrq⟩ := h
  refine ⟨by rw [hspec]; exact Rings.wf_empty, ⟨fun q => ?_, fun t ht => ?_⟩,
    fun t p ht => ?_, hlow, ?_, fun p _ => ?_, ?_⟩
  · rw [hspec, hrq]
    exact ⟨rfl, rfl⟩
  · rw [hspec] at ht
    cases ht
  · rw [hspec] at ht
    cases ht
  · rw [hrq]
    exact Bitmap.fits_zero
  · rw [hspec, hrq]
    simp [knlReadyQueueInitialize, Bitmap.test_zero, Rings.empty]
  · rw [hrq]
    exact ⟨Nat.le_refl _, fun q _ => Bitmap.test_zero, fun h => absurd h (Nat.lt_irrefl _)⟩

theorem rdyOk (h : (rdySys τ c).Reachable s) : RdyOk c s :=
  h.invariant (RdyOk c) (fun _ hi => RdyOk.init hi) fun _ _ _ ok _ hs => ok.step hs

/-- The summaries agree with the queues, the queues with the lists, and a deletion ends. -/
structure RdyAgrees (c : RdyCfg) (s : State τ) : Prop where
  bit : ∀ p < c.numTskpri, s.rq.bitmap.test c p = true ↔ s.rq.isQueEmpty p = false
  top_le : s.rq.topPriority ≤ c.numTskpri
  top_low : ∀ p < s.rq.topPriority, s.rq.isQueEmpty p = true
  top_first : s.rq.topPriority < c.numTskpri → s.rq.isQueEmpty s.rq.topPriority = false
  queue : ∀ p, DList.Ring s.rq.links.next s.rq.links.prev (.head (.ready p))
    ((s.spec.que (.ready p)).map .node)
  once : ∀ p, (s.spec.que (.ready p)).Nodup
  alone : ∀ t q q', t ∈ s.spec.que q → t ∈ s.spec.que q' → q = q'
  filed : ∀ t p, t ∈ s.spec.que (.ready p) → s.rq.priority t = p
  ends : ∀ t, inItsQueue s t = true → (knlReadyQueueDelete c s.rq t).isSome = true

theorem ready_queue_agrees (c : RdyCfg) (s : State τ) (h : (rdySys τ c).Reachable s) :
    RdyAgrees c s := by
  have ok := rdyOk h
  have hempty := isQueEmpty_iff ok.spelled
  have hle := ok.top.le
  have hbit : ∀ p < c.numTskpri, s.rq.bitmap.test c p = true ↔ s.rq.isQueEmpty p = false := by
    intro p hp
    rw [ok.bit p hp, ← Bool.not_eq_true, hempty]
  refine ⟨hbit, hle, fun p hp => ?_, fun hlt => ?_, fun p => ok.spelled.ring _,
    fun p => ok.wf.nodup _, fun t q q' hq hq' => ?_, fun t p ht => ?_, fun t ht => ?_⟩
  · have hlow := ok.top.low p hp
    by_contra hne
    have hset := (hbit p (by omega)).2 (Bool.eq_false_iff.2 hne)
    rw [hlow] at hset
    cases hset
  · exact (hbit _ hlt).1 (ok.top.bit hlt)
  · have hl := ((ok.wf.mem_iff t q).1 hq).symm.trans ((ok.wf.mem_iff t q').1 hq')
    injection hl
  · exact (ok.filed t p ((ok.wf.mem_iff t _).1 ht)).symm
  · obtain ⟨rq, hrq, -⟩ := ok.delete ht
    rw [hrq]
    rfl

/-- Forty priorities, so a bitmap of bytes; every task starts at priority 35. -/
def fortyCfg : RdyCfg := { numTskpri := 40, bigEndian := false, addressable := by decide }

def fortyStart : State (Fin 3) where
  rq := knlReadyQueueInitialize fortyCfg
    { topPriority := 0, links := .empty, bitmap := .zero fortyCfg, klocktsk := none,
      priority := fun _ => 35, klocked := fun _ => false, klockwait := fun _ => false }
  spec := .empty

/-- The queues change places, one task waits for a lock and is deleted from there, and the
search for the next top crosses a byte. -/
theorem ready_queue_agrees_forty :
    ∃ s : State (Fin 3), RdyAgrees fortyCfg s ∧ s.rq.topPriority = 35 := by
  obtain ⟨s, hs, hp⟩ := Lts.reachable_of_trace (L := rdySys (Fin 3) fortyCfg)
    (p := fun s => s.rq.topPriority == 35) (s := fortyStart)
    [.setPriority 0 3, .insert 0, .insert 1, .insertTop 2, .rotate 35, .moveLast 1,
      .delete 0, .lockWait 0 7, .delete 0, .insert 0, .delete 0]
    ⟨rfl, by decide, _, rfl⟩ (by decide +kernel)
  exact ⟨s, ready_queue_agrees fortyCfg s hs, by simpa using hp⟩

end RdySys

end Mtk3Smp
