import Mtk3Smp.Kernel.SingleCoreCalls

/-!
# Runs of the kernel on one core

One lemma for each kind of event shows that it keeps the invariant when it agrees. The
main results: every run that agrees keeps `knl_schedtsk` at the designated task
(`schedtskOk_of_agrees`), and a task made ready above the holder of an object lock breaks
it (`not_schedtskOk`).
-/

namespace Mtk3Smp.Single.Cpu

variable {s s' : Cpu} {t : Tid}

/-! ## What the invariant gives -/

/-- The scheduled task is READY. -/
theorem sched_ready {D : Tid → Prop} {x : Sched} (ok : SchedOk D x) (h : x.schedtsk = some t) :
    (x.knl.tcb t).state = .ready := by
  have htop := ok.sched.symm.trans h
  cases hk : x.knl.klocktsk with
  | some u =>
    rw [readyTop_some hk] at htop
    obtain rfl : u = t := by simpa using htop
    exact ok.knl.runs u ((ok.knl.klocktsk u).1 hk).1
  | none =>
    rw [readyTop_none hk] at htop
    have hl := ok.knl.ready.firstReady_mem htop
    by_contra hs
    exact ok.knl.out_of_ready (.inl hs) _ hl

/-- No task waits for an object lock. -/
theorem lockq_empty {D : Tid → Prop} {k : Knl} (ok : KnlOk D k) (loc : LockId) :
    k.rings.que (.lockq loc) = [] := by
  refine List.eq_nil_iff_forall_not_mem.2 fun u hu => ?_
  have hl := (ok.ready.wf.mem_iff u _).1 hu
  by_cases hD : D u
  · exact ok.unlinked u hD _ hl
  · have hp := ok.placed u hD
    unfold Placed at hp
    cases hst : (k.tcb u).state with
    | nonexist => rw [hst] at hp; cases hp _ hl
    | ready => rw [hst] at hp; rw [show _ = _ from hp] at hl; cases hl
    | wait | waitsus =>
      rw [hst] at hp
      rcases hp with hp | ⟨o, hp⟩ <;> rw [hp] at hl <;> cases hl
    | suspend | dormant => rw [hst] at hp; exact hp _ hl

theorem Ok.idle_of_outside (ok : s.Ok) (h : s.cs = false) : s.ending = none := by
  cases he : s.ending with
  | none => rfl
  | some p =>
    have hcs := (ok.quiet p.1 p.2 he).1
    rw [h] at hcs
    cases hcs

/-- A task that is not inside a call of `mempfix.c` holds no lock. -/
theorem Ok.unlocked (ok : s.Ok) (hend : s.ending = none) (h : s.mpf t = .out) :
    (s.knl.tcb t).klocked = false := by
  cases hl : (s.knl.tcb t).klocked with
  | false => rfl
  | true =>
    obtain ⟨loc, hin⟩ := (ok.owner t).1 ((ok.sched.knl.klocktsk t).2 ⟨hl, not_dying hend t⟩)
    rw [h] at hin
    cases hin

theorem stale_false (h : s.stale = false) (hc : s.ctxtsk = .task t) : s.schedtsk = some t := by
  unfold stale at h
  split at h
  · simp [hc] at h
  · rename_i u hu
    have : s.ctxtsk = .task u := by simpa using h
    rw [hc] at this
    obtain rfl : t = u := by simpa using this
    exact hu

theorem guardStep_some {p : Bool} {x : Cpu} (h : guardStep p x = some s') : p = true ∧ x = s' := by
  unfold guardStep at h
  split at h
  · rename_i hp
    exact ⟨hp, by simpa using h⟩
  · cases h

/-! ## Outside the critical sections -/

/-- A step that leaves the kernel data, `knl_schedtsk` and the calls as they are. -/
theorem Ok.outside (ok : s.Ok) (hcs : s.cs = false) (hs : s'.toSched = s.toSched)
    (hm : s'.mpf = s.mpf) (he : s'.ending = s.ending)
    (holder : ∀ t, s.knl.klocktsk = some t → s'.ctxtsk = .task t ∨ s'.ctxtsk = .null)
    (running : ∀ t, s'.ctxtsk = .task t → s'.dispatchDisabled = 0 → s'.pendsv = false →
      (s.knl.tcb t).state = .ready)
    (masked : 0 < s'.taskindp → s'.primask = false)
    (entered : s'.cs = true → s'.taskindp = 0 → s'.primask = false → s'.pendsv = false) :
    s'.Ok := by
  have hend := ok.idle_of_outside hcs
  have hk : s'.knl = s.knl := congrArg Sched.knl hs
  have hd : s'.dying = s.dying := by
    unfold dying
    rw [he]
  refine ⟨?_, ?_, ?_, ?_, ?_, ?_, ?_, ?_, masked, entered⟩
  · rw [hd, hs]; exact ok.sched
  · rw [hk, hm]; exact ok.owner
  · rw [hk, hm]; exact ok.locked
  · rw [hm]; exact ok.entering
  · rw [hk]; exact holder
  · rw [hk]
    intro t h₁ h₂ h₃ _
    exact running t h₁ h₂ h₃
  · intro t h
    rw [he, hend] at h
    cases h
  · intro t e h
    rw [he, hend] at h
    cases h

theorem outer_ok (ok : s.Ok) (hcs : s.cs = false) {e : Event} (h : s.outer e = some s') :
    s'.Ok := by
  have old : ∀ t, s.ctxtsk = .task t → s.dispatchDisabled = 0 → s.pendsv = false →
      (s.knl.tcb t).state = .ready := fun t h₁ h₂ h₃ => ok.running t h₁ h₂ h₃ (.inr hcs)
  have off : s.cs = true → s.taskindp = 0 → s.primask = false → s.pendsv = false :=
    ok.entered
  cases e with
  | irq =>
    obtain ⟨hp, rfl⟩ := guardStep_some h
    refine ok.outside hcs rfl rfl rfl ok.holder old (fun _ => by simpa using hp) ?_
    intro h
    rw [show s.cs = true from h] at hcs
    cases hcs
  | ret =>
    obtain ⟨hp, rfl⟩ := guardStep_some h
    refine ok.outside hcs rfl rfl rfl ok.holder old (fun _ => ok.masked (by simpa using hp)) ?_
    intro h
    rw [show s.cs = true from h] at hcs
    cases hcs
  | di | ei =>
    obtain ⟨hp, rfl⟩ := guardStep_some h
    simp only [Bool.and_eq_true, beq_iff_eq] at hp
    refine ok.outside hcs rfl rfl rfl ok.holder old (fun h => ?_) ?_
    · exact absurd (show 0 < s.taskindp from h) (by omega)
    · intro h
      rw [show s.cs = true from h] at hcs
      cases hcs
  | disDsp =>
    obtain ⟨hp, rfl⟩ := guardStep_some h
    refine ok.outside hcs rfl rfl rfl ok.holder (fun _ _ h => ?_) ok.masked off
    cases h
  | enaDsp =>
    obtain ⟨hp, rfl⟩ := guardStep_some h
    refine ok.outside hcs rfl rfl rfl ok.holder (fun t hc _ hv => ?_) ok.masked ?_
    · simp only [Bool.or_eq_false_iff] at hv
      exact sched_ready ok.sched (stale_false hv.2 hc)
    · intro h
      rw [show s.cs = true from h] at hcs
      cases hcs
  | enter =>
    obtain ⟨hp, rfl⟩ := guardStep_some h
    refine ok.outside hcs rfl rfl rfl ok.holder old ok.masked (fun _ h₀ h₁ => ?_)
    simp only [mayEnter, Bool.or_eq_true, Bool.and_eq_true, decide_eq_true_eq] at hp
    rcases hp with hp | ⟨-, hp⟩
    · exact absurd hp (by have : s.taskindp = 0 := h₀; omega)
    · have h₁' : s.primask = false := h₁
      simpa [h₁'] using hp
  | pendsv =>
    obtain ⟨hp, rfl⟩ := guardStep_some h
    refine ok.outside hcs rfl rfl rfl (fun _ _ => .inr rfl) (fun _ h => ?_) ok.masked ?_
    · cases h
    · intro _ _ _
      rfl
  | switch =>
    obtain ⟨hp, rfl⟩ := guardStep_some h
    refine ok.outside hcs rfl rfl rfl (fun t hk => .inl ?_) (fun t hc _ _ => ?_) ok.masked off
    · have hs : s.schedtsk = some t := ok.sched.sched.trans (readyTop_some hk)
      simp [hs]
    · refine sched_ready ok.sched ?_
      cases hs : s.schedtsk with
      | none => simp [hs] at hc
      | some u =>
        rw [hs] at hc
        obtain rfl : u = t := by simpa using hc
        rfl
  | leave | enable | force | call _ | ter _ | ext | exd | finish | block _ | lockOBJ _
  | unlockOBJ | waitMpf _ _ => cases h

/-! ## Calls and the end of a section -/

theorem call_ok (ok : s.Ok) (hcs : s.cs = true) {c : Call} (ha : s.agrees (.call c) = true)
    (h : s.inner (.call c) = some s') : s'.Ok := by
  simp only [inner] at h
  split at h
  · rename_i x hb
    obtain ⟨hend, rfl⟩ := guardStep_some h
    have hend' : s.ending = none ∨ c.ofMutex = true := by simpa using hend
    obtain ⟨u, d⟩ := body_ok ok hend' ha hb
    have hkl : ∀ t, s.dying t → (x.knl.tcb t).klocked = (s.knl.tcb t).klocked := by
      intro t ht
      rw [d.frame.tcb t]
      rintro rfl
      exact d.other ht
    refine ⟨d.sched, ?_, ?_, ok.entering, ?_, ?_, ok.victim, ?_, ok.masked, ok.entered⟩
    · intro t
      show x.knl.klocktsk = some t ↔ _
      rw [d.frame.klocktsk]
      exact ok.owner t
    · intro loc
      show x.knl.locked loc = true → _
      rw [d.frame.locked]
      exact ok.locked loc
    · intro t
      show x.knl.klocktsk = some t → _
      rw [d.frame.klocktsk]
      exact ok.holder t
    · intro t h₁ h₂ h₃ h₄
      show (x.knl.tcb t).state = .ready
      have hr := ok.running t h₁ h₂ h₃ h₄
      by_cases e : t = u
      · subst e
        refine d.caller ?_ hr
        have h₀ : s.taskindp = 0 := h₄.resolve_right (by rw [show (s.setSched x).cs = true from hcs]; simp)
        have h₁' : s.ctxtsk = .task t := h₁
        simp [caller, h₀, h₁']
      · rw [d.frame.tcb t e]
        exact hr
    · intro t e he
      refine ⟨hcs, ?_⟩
      show (x.knl.tcb t).klocked = false
      rw [hkl t ⟨e, he⟩]
      exact (ok.quiet t e he).2
  · obtain rfl : s = s' := by simpa using h
    exact ok

/-- `END_CRITICAL_SECTION` asks for a dispatch when the running task is not the scheduled
one. -/
theorem endSection_ok (ok : s.Ok) (hend : s.ending = none) : s.endSection.Ok := by
  refine ⟨ok.sched, ok.owner, ok.locked, ok.entering, ok.holder, ?_, ok.victim, ?_, ok.masked, ?_⟩
  · intro t hc hd hv _
    have hc' : s.ctxtsk = .task t := hc
    have hd' : s.dispatchDisabled = 0 := hd
    have hv' : (s.pendsv || (!s.primask && (s.stale && s.dispatchDisabled == 0))) = false := hv
    simp only [hd', BEq.rfl, Bool.and_true, Bool.or_eq_false_iff] at hv'
    by_cases h₀ : s.taskindp = 0
    · exact ok.running t hc' hd' hv'.1 (.inl h₀)
    · have hm := ok.masked (by omega)
      simp only [hm, Bool.not_false, Bool.true_and] at hv'
      exact sched_ready ok.sched (stale_false hv'.2 hc')
  · intro t e he
    rw [show s.ending = some (t, e) from he] at hend
    cases hend
  · intro h
    cases h

theorem forceDispatch_ok (ok : s.Ok) (hend : s.ending = none) : s.forceDispatch.Ok := by
  refine ⟨ok.sched, ok.owner, ok.locked, ok.entering, fun _ _ => .inr rfl, ?_, ?_, ?_, fun _ => rfl,
    ?_⟩
  · intro t hc
    cases hc
  · intro t he
    rw [show s.ending = some (t, .ter) from he] at hend
    cases hend
  · intro t e he
    rw [show s.ending = some (t, e) from he] at hend
    cases hend
  · intro h
    cases h

theorem enable_ok (ok : s.Ok) (hend : s.ending = none) (h₀ : s.taskindp = 0) :
    ({ s with cs := false, primask := false } : Cpu).Ok := by
  refine ⟨ok.sched, ok.owner, ok.locked, ok.entering, ok.holder, ?_, ok.victim, ?_, fun _ => rfl, ?_⟩
  · intro t hc hd hv _
    exact ok.running t hc hd hv (.inl h₀)
  · intro t e he
    rw [show s.ending = some (t, e) from he] at hend
    cases hend
  · intro h
    cases h

/-! ## Terminations -/

/-- `knl_ter_tsk` takes its task out of every queue. -/
theorem terTsk_ok {D : Tid → Prop} {x : Sched} (ok : SchedOk D x) (hD : ¬ D t)
    (hl : (x.knl.tcb t).klocked = false) (hs : (x.knl.tcb t).state ≠ .nonexist) :
    SchedOk (With t D) (knlTerTsk x t) ∧ (knlTerTsk x t).knl.tcb = x.knl.tcb ∧
      (knlTerTsk x t).knl.klocktsk = x.knl.klocktsk ∧ (knlTerTsk x t).knl.locked = x.knl.locked := by
  unfold knlTerTsk
  cases hst : (x.knl.tcb t).state with
  | ready =>
    refine ⟨ok.makeNonReady hD hst hl, ?_⟩
    show (knlReadyQueueDelete x.knl t).tcb = _ ∧ (knlReadyQueueDelete x.knl t).klocktsk = _ ∧
      (knlReadyQueueDelete x.knl t).locked = _
    have hk : x.knl.klocktsk ≠ some t := by
      intro h'
      rw [((ok.knl.klocktsk t).1 h').1] at hl
      cases hl
    rw [ReadyOk.delete_eq (ok.knl.nowait t)]
    exact ⟨rfl, if_neg hk, rfl⟩
  | wait | waitsus =>
    have hw : (x.knl.tcb t).state.hasWait = true := by simp [hst, TStat.hasWait]
    have out := ok.knl.out_of_ready (t := t) (.inl (by simp [hst]))
    exact ⟨ok.same (SameBut.remove out) (ok.knl.unlink hD hw), rfl, rfl, rfl⟩
  | suspend | dormant =>
    have free := ok.knl.idle_free (t := t) (by simp [hst])
    exact ⟨⟨ok.knl.loosen free hl, ok.sched⟩, rfl, rfl, rfl⟩
  | nonexist => exact absurd hst hs

/-- The three calls that end a task, up to the mutexes. -/
theorem ending_ok (ok : s.Ok) (hcs : s.cs = true) (hend : s.ending = none) {e : Ending}
    (hl : (s.knl.tcb t).klocked = false) (hs : (s.knl.tcb t).state ≠ .nonexist)
    (hv : e = .ter → s.caller ≠ some t) :
    ({ s.setSched (knlTerTsk s.toSched t) with ending := some (t, e) } : Cpu).Ok := by
  obtain ⟨okt, htcb, hk, hlk⟩ := terTsk_ok ok.sched (not_dying hend t) hl hs
  have hd : ∀ u, dying { s.setSched (knlTerTsk s.toSched t) with ending := some (t, e) } u ↔
      With t s.dying u := by
    intro u
    constructor
    · rintro ⟨e', he'⟩
      have he'' : (t, e) = (u, e') := by simpa using he'
      exact .inl (Prod.mk.inj he'').1.symm
    · rintro (rfl | hu)
      · exact ⟨e, rfl⟩
      · exact absurd hu (not_dying hend u)
  refine ⟨⟨okt.knl.congr hd, okt.sched⟩, ?_, ?_, ok.entering, ?_, ?_, ?_, ?_, ok.masked, ok.entered⟩
  · intro u
    show (knlTerTsk s.toSched t).knl.klocktsk = some u ↔ _
    rw [hk]
    exact ok.owner u
  · intro loc
    show (knlTerTsk s.toSched t).knl.locked loc = true → _
    rw [hlk]
    exact ok.locked loc
  · intro u
    show (knlTerTsk s.toSched t).knl.klocktsk = some u → _
    rw [hk]
    exact ok.holder u
  · intro u h₁ h₂ h₃ h₄
    show ((knlTerTsk s.toSched t).knl.tcb u).state = .ready
    rw [htcb]
    exact ok.running u h₁ h₂ h₃ h₄
  · intro u he
    have he' : (t, e) = (u, .ter) := by simpa using he
    obtain ⟨rfl, rfl⟩ := Prod.mk.inj he'
    exact hv rfl
  · intro u e' he
    have he' : (t, e) = (u, e') := by simpa using he
    obtain ⟨rfl, rfl⟩ := Prod.mk.inj he'
    refine ⟨hcs, ?_⟩
    show ((knlTerTsk s.toSched t).knl.tcb t).klocked = false
    rw [htcb]
    exact hl

theorem ter_ok (ok : s.Ok) (hcs : s.cs = true) (hend : s.ending = none) (t : Tid) :
    (s.terStep t).Ok := by
  unfold terStep
  split
  · exact ok
  · rename_i h
    simp only [Bool.or_eq_true, Bool.not_eq_true', beq_iff_eq, not_or, Bool.not_eq_true,
      Bool.not_eq_false] at h
    refine ending_ok ok hcs hend h.1.2 (fun hs => ?_) (fun _ => h.2)
    rw [hs] at h
    exact absurd h.1.1 (by simp [TStat.knlTaskAlive])

theorem exit_ok (ok : s.Ok) (hcs : s.cs = true) (hend : s.ending = none) {e : Ending}
    (he : e ≠ .ter) (hs : ∀ t, s.caller = some t → (s.knl.tcb t).state ≠ .nonexist)
    (h : s.exitStep e = some s') : s'.Ok := by
  unfold exitStep at h
  cases hc : s.caller with
  | none => simp [hc] at h
  | some t =>
    simp only [hc, Option.bind_eq_bind, Option.bind_some] at h
    obtain ⟨hp, rfl⟩ := guardStep_some h
    exact ending_ok ok hcs hend (ok.unlocked hend (by simpa using hp)) (hs t hc)
      fun h => absurd h he

/-- The task that has been ended is outside the calls of `mempfix.c`. -/
theorem Ok.ended_out (ok : s.Ok) {e : Ending} (he : s.ending = some (t, e)) (loc : LockId) :
    s.mpf t ≠ .inside loc := by
  intro hin
  have hk := (ok.owner t).2 ⟨loc, hin⟩
  exact ((ok.sched.knl.klocktsk t).1 hk).2 ⟨e, he⟩

/-- The rest of the three calls: the task is DORMANT or gone. -/
theorem ended_ok (ok : s.Ok) {e : Ending} (he : s.ending = some (t, e)) {k : Knl}
    (okk : KnlOk (fun _ => False) k) (same : SameBut t s.knl k) (hlk : k.locked = s.knl.locked)
    (run : ∀ u, s.ctxtsk = .task u → s.taskindp = 0 → u ≠ t) :
    ({ s.setMpf t .out with ending := none, knl := k } : Cpu).Ok := by
  have hmpf : ∀ u loc, (s.setMpf t .out).mpf u = .inside loc ↔ s.mpf u = .inside loc := by
    intro u loc
    show Function.update s.mpf t .out u = .inside loc ↔ _
    by_cases hu : u = t
    · subst hu
      rw [Function.update_self]
      exact iff_of_false (by simp) (ok.ended_out he loc)
    · rw [Function.update_of_ne hu]
  have hcs := (ok.quiet t e he).1
  have hd : ∀ u, dying { s.setMpf t .out with ending := none, knl := k } u ↔ False :=
    fun u => iff_false_intro (not_dying rfl u)
  refine ⟨⟨okk.congr hd, ok.sched.sched.trans same.readyTop.symm⟩, ?_, ?_, ?_, ?_, ?_, ?_, ?_, ok.masked, ok.entered⟩
  · intro u
    show k.klocktsk = some u ↔ ∃ loc, (s.setMpf t .out).mpf u = .inside loc
    rw [same.klocktsk, ok.owner u]
    simp only [hmpf]
  · intro loc h
    obtain ⟨u, hu⟩ := ok.locked loc (hlk ▸ h)
    exact ⟨u, (hmpf u loc).2 hu⟩
  · intro u loc
    show Function.update s.mpf t .out u ≠ .entering loc
    by_cases hu : u = t
    · subst hu; simp
    · rw [Function.update_of_ne hu]
      exact ok.entering u loc
  · intro u
    show k.klocktsk = some u → _
    rw [same.klocktsk]
    exact ok.holder u
  · intro u h₁ h₂ h₃ h₄
    have h₀ : s.taskindp = 0 := by
      refine h₄.resolve_right fun hf => ?_
      rw [show s.cs = false from hf] at hcs
      cases hcs
    show (k.tcb u).state = .ready
    rw [same.tcb u (run u h₁ h₀)]
    exact ok.running u h₁ h₂ h₃ (.inl h₀)
  · intro u h
    cases h
  · intro u e h
    cases h

theorem dormant_knl (ok : s.Ok) {e : Ending} (he : s.ending = some (t, e)) :
    KnlOk (fun _ => False) (knlMakeDormant s.knl t) ∧
      SameBut t s.knl (knlMakeDormant s.knl t) := by
  have same : SameBut t s.knl (knlMakeDormant s.knl t) := SameBut.setTcb t s.knl _
  have hd : s.dying t := ⟨e, he⟩
  have only : ∀ u, u ≠ t → (False ↔ s.dying u) := by
    rintro u hu
    refine ⟨fun h => h.elim, ?_⟩
    rintro ⟨e', he'⟩
    rw [he] at he'
    exact hu (by simpa using (Prod.mk.inj (Option.some.inj he')).1.symm)
  have htcb : (knlMakeDormant s.knl t).tcb t = { s.knl.tcb t with
      state := .dormant, priority := (s.knl.tcb t).ipriority, bpriority := (s.knl.tcb t).ipriority,
      wupcnt := 0, suscnt := 0, klockwait := false, klocked := false, stkfree := false,
      mtxlist := [] } := Knl.setTcb_self _ _ _
  have free := ok.sched.knl.unlinked t hd
  refine ⟨ok.sched.knl.update same only (fun _ => free _) (.inr hd) ok.sched.knl.ready.wf ?_ ?_ ?_ ?_
    (fun _ => ?_) (fun h => h.elim), same⟩
  · rw [htcb]; exact ok.sched.knl.ini t
  · rw [htcb]; exact ok.sched.knl.ini t
  · rw [htcb]
  · rw [htcb]
  · rw [htcb]
    exact free

theorem finish_ok (ok : s.Ok) (h : s.finishStep = some s') : s'.Ok := by
  unfold finishStep at h
  cases he : s.ending with
  | none => simp [he] at h
  | some p =>
    obtain ⟨t, e⟩ := p
    simp only [he, Option.bind_eq_bind, Option.bind_some] at h
    have hd : s.dying t := ⟨e, he⟩
    obtain ⟨okd, sd⟩ := dormant_knl ok he
    -- after the two exits no task is current
    have away : ∀ {k : Knl}, KnlOk (fun _ => False) k → SameBut t s.knl k →
        k.locked = s.knl.locked →
        ({ s.setMpf t .out with ending := none, knl := k } : Cpu).forceDispatch.Ok := by
      intro k okk same hlk
      have ok' : Ok { s with ctxtsk := .null } := by
        refine ⟨ok.sched, ok.owner, ok.locked, ok.entering, fun _ _ => .inr rfl, ?_, ?_, ok.quiet,
          ok.masked, ok.entered⟩
        · intro u hu
          cases hu
        · intro u _ hu
          have hc := (caller_ctxtsk hu).2
          cases hc
      have done := ended_ok ok' he okk same hlk (fun u hu => by cases hu)
      have last := forceDispatch_ok done rfl
      exact last
    cases e with
    | ter =>
      obtain rfl : _ = s' := by simpa using h
      refine ended_ok ok he okd sd rfl fun u hu h₀ => ?_
      rintro rfl
      refine ok.victim u he ?_
      simp [caller, h₀, hu]
    | ext =>
      obtain rfl : _ = s' := by simpa using h
      exact away okd sd rfl
    | exd =>
      obtain rfl : _ = s' := by simpa using h
      have only : ∀ u, u ≠ t → (False ↔ s.dying u) := by
        rintro u hu
        refine ⟨fun h => h.elim, ?_⟩
        rintro ⟨e', he'⟩
        rw [he] at he'
        exact hu (by simpa using (Prod.mk.inj (Option.some.inj he')).1.symm)
      obtain ⟨same, frame, okk⟩ := delTsk_knl ok.sched.knl (ok.sched.knl.unlinked t hd)
        (ok.quiet t _ he).2 only (fun h => h)
      exact away okk same frame.locked

/-! ## Waiting -/

theorem linkWaiting_eq (k : Knl) (t : Tid) (w : Wspec) :
    ∃ r, linkWaiting k t w = { k with rings := r } := by
  cases w with
  | slp => exact ⟨_, rfl⟩
  | dly => exact ⟨_, rfl⟩
  | gcb o tpri => cases tpri <;> exact ⟨_, rfl⟩

/-- The kernel data after a READY task has begun to wait. -/
theorem blockCaller_knl {x : Sched} (hs : (x.knl.tcb t).state = .ready) (w : Wspec) :
    (blockCaller x t w).knl = linkWaiting ((knlReadyQueueDelete
      (x.knl.setTcb t fun y => { y with wspec := w }) t).setTcb t
        fun y => { y with state := .wait }) t w := by
  have hs' : ((x.knl.setTcb t fun y => { y with wspec := w }).tcb t).state = .ready := by
    simpa using hs
  simp only [blockCaller, knlMakeWait, hs']
  rfl

/-- A section that ends with the caller waiting asks for a dispatch. -/
theorem blocked_ok (ok : s.Ok) (hend : s.ending = none) (hc : s.caller = some t)
    (hd : s.dispatchDisabled = 0) (hm : s.primask = false) {x : Sched} {m : Tid → Mempfix}
    (okx : SchedOk s.dying x) (hs : (x.knl.tcb t).state ≠ .ready)
    (owner : ∀ u, x.knl.klocktsk = some u ↔ ∃ loc, m u = .inside loc)
    (locked : ∀ loc, x.knl.locked loc = true → ∃ u, m u = .inside loc)
    (entering : ∀ u loc, m u ≠ .entering loc)
    (holder : ∀ u, x.knl.klocktsk = some u → s.ctxtsk = .task u ∨ s.ctxtsk = .null) :
    ({ s.setSched x with mpf := m } : Cpu).endSection.Ok := by
  refine ⟨okx, owner, locked, entering, holder, ?_, ok.victim, ?_, ok.masked, ?_⟩
  · intro u hu _ hv _
    have hu' : s.ctxtsk = .task u := hu
    rw [(caller_ctxtsk hc).2] at hu'
    obtain rfl : t = u := by simpa using hu'
    have hst : ({ s.setSched x with mpf := m } : Cpu).stale = false := by
      have hv' : (s.pendsv || (!s.primask && (({ s.setSched x with mpf := m } : Cpu).stale &&
        s.dispatchDisabled == 0))) = false := hv
      simpa [hm, hd] using (Bool.or_eq_false_iff.1 hv').2
    exact absurd (sched_ready okx (stale_false hst (caller_ctxtsk hc).2)) hs
  · intro u e he
    rw [show s.ending = some (u, e) from he] at hend
    cases hend
  · intro h
    cases h

theorem inDdsp_false (h : s.inDdsp = false) : s.dispatchDisabled = 0 ∧ s.primask = false := by
  simp only [inDdsp, Bool.or_eq_false_iff, bne_eq_false_iff_eq] at h
  exact ⟨h.1.1, h.2⟩

/-- A task that runs with the dispatch enabled, in a section it has begun, is READY. -/
theorem Ok.caller_ready (ok : s.Ok) (hcs : s.cs = true) (hc : s.caller = some t)
    (h : s.inDdsp = false) : (s.knl.tcb t).state = .ready := by
  obtain ⟨h₀, hx⟩ := caller_ctxtsk hc
  obtain ⟨hd, hm⟩ := inDdsp_false h
  exact ok.running t hx hd (ok.entered hcs h₀ hm) (.inl h₀)

theorem block_ok (ok : s.Ok) (hcs : s.cs = true) (hend : s.ending = none) {w : Wspec}
    (h : s.blockStep w = some s') : s'.Ok := by
  unfold blockStep at h
  cases hc : s.caller with
  | none => simp [hc] at h
  | some t =>
    simp only [hc, Option.bind_eq_bind, Option.bind_some] at h
    obtain ⟨hp, rfl⟩ := guardStep_some h
    simp only [Bool.and_eq_true, beq_iff_eq, Bool.not_eq_true'] at hp
    obtain ⟨hd, hm⟩ := inDdsp_false hp.2
    have hs := ok.caller_ready hcs hc hp.2
    have hl := ok.unlocked hend hp.1
    have okb := ok.sched.block (not_dying hend t) hs hl w
    have hk := blockCaller_knl hs w
    obtain ⟨r, hr⟩ := linkWaiting_eq ((knlReadyQueueDelete
      (s.knl.setTcb t fun y => { y with wspec := w }) t).setTcb t
        fun y => { y with state := .wait }) t w
    rw [hr, ReadyOk.delete_eq (by simpa using ok.sched.knl.nowait t)] at hk
    have hlock : s.knl.klocktsk ≠ some t := by
      intro h'
      rw [((ok.sched.knl.klocktsk t).1 h').1] at hl
      cases hl
    have hkl : (blockCaller s.toSched t w).knl.klocktsk = s.knl.klocktsk := by
      rw [hk]
      exact if_neg hlock
    have hwait : ((blockCaller s.toSched t w).knl.tcb t).state ≠ .ready := by
      rw [hk]
      simp
    have hlk : (blockCaller s.toSched t w).knl.locked = s.knl.locked := by
      rw [hk]
      rfl
    exact blocked_ok ok hend hc hd hm okb hwait (fun u => hkl ▸ ok.owner u)
      (fun loc => hlk ▸ ok.locked loc) ok.entering (fun u => hkl ▸ ok.holder u)

/-! ## Object locks -/

/-- The free lock is taken by the scheduled task. -/
theorem lock_ok (ok : s.Ok) (hend : s.ending = none) {loc : LockId}
    (ha : s.agrees (.lockOBJ loc) = true) (h : s.lockStep loc = some s') : s'.Ok := by
  unfold lockStep at h
  cases hc : s.caller with
  | none => simp [hc] at h
  | some t =>
    simp only [hc, Option.bind_eq_bind, Option.bind_some] at h
    obtain ⟨hp, rfl⟩ := guardStep_some h
    obtain ⟨h₀, hx⟩ := caller_ctxtsk hc
    have hp' : s.mpf t = .out := by
      simp only [Bool.or_eq_true, Bool.and_eq_true, beq_iff_eq] at hp
      rcases hp with hp | hp
      · exact absurd hp (ok.entering t loc)
      · exact hp.1
    have hl := ok.unlocked hend hp'
    -- nobody else holds a lock: the holder would be the one that runs
    have alone : ∀ u loc, s.mpf u ≠ .inside loc := by
      intro u loc' hin
      have hk := (ok.owner u).2 ⟨loc', hin⟩
      rcases ok.holder u hk with hu | hu <;> rw [hx] at hu
      · obtain rfl : t = u := by simpa using hu
        rw [hp'] at hin
        cases hin
      · cases hu
    have hfree : s.knl.locked loc = false := by
      cases hlk : s.knl.locked loc with
      | false => rfl
      | true =>
        obtain ⟨u, hu⟩ := ok.locked loc hlk
        exact absurd hu (alone u loc)
    have hnone : ∀ u, (s.knl.tcb u).klocked = false := by
      intro u
      cases hu : (s.knl.tcb u).klocked with
      | false => rfl
      | true =>
        obtain ⟨loc', hin⟩ := (ok.owner u).1 ((ok.sched.knl.klocktsk u).2 ⟨hu, not_dying hend u⟩)
        exact absurd hin (alone u loc')
    have hsched : s.schedtsk = some t := by
      simpa [agrees, readied, hc, hl, hfree] using ha
    let k : Knl := { s.knl with
      locked := Function.update s.knl.locked loc true, klocktsk := some t }
    have hx' : s.toSched.after (knlLockOBJ s.knl t loc) =
        { knl := k.setTcb t fun y => { y with klocked := true }, schedtsk := s.schedtsk } := by
      simp [knlLockOBJ, hl, hfree, Sched.after, Outcome.done, k]
    rw [hx']
    have hflag : ∀ u, ((k.setTcb t fun y => { y with klocked := true }).tcb u).klocked = true ↔
        u = t := by
      intro u
      by_cases e : u = t
      · subst e; simp
      · rw [Knl.setTcb_ne e]
        exact iff_of_false (by rw [show (k.tcb u).klocked = false from hnone u]; simp) e
    have hsame : ∀ u, ((k.setTcb t fun y => { y with klocked := true }).tcb u).state =
          (s.knl.tcb u).state ∧
        ((k.setTcb t fun y => { y with klocked := true }).tcb u).priority =
          (s.knl.tcb u).priority ∧
        ((k.setTcb t fun y => { y with klocked := true }).tcb u).ipriority =
          (s.knl.tcb u).ipriority ∧
        ((k.setTcb t fun y => { y with klocked := true }).tcb u).klockwait =
          (s.knl.tcb u).klockwait := by
      intro u
      by_cases e : u = t
      · subst e; simp [k]
      · rw [Knl.setTcb_ne e]
        exact ⟨rfl, rfl, rfl, rfl⟩
    have old := ok.sched.knl
    have okk : KnlOk s.dying (k.setTcb t fun y => { y with klocked := true }) := by
      refine ⟨old.ready.congr old.ready.wf (fun _ => rfl) (fun _ u _ => (hsame u).2.1)
        (fun u => ?_) rfl rfl, fun u hu => ?_, old.unlinked, fun u => ?_, fun u => ?_, fun u => ?_,
        fun u v hu hv => ?_, fun u hu => ?_⟩
      · rw [(hsame u).2.1]; exact old.ready.low u
      · have hpl := old.placed u hu
        unfold Placed at hpl ⊢
        rw [(hsame u).1, (hsame u).2.1]
        exact hpl
      · rw [(hsame u).2.2.1]; exact old.ini u
      · rw [(hsame u).2.2.2]; exact old.nowait u
      · rw [hflag]
        show some t = some u ↔ _
        constructor
        · intro e
          obtain rfl : t = u := by simpa using e
          exact ⟨rfl, not_dying hend t⟩
        · rintro ⟨rfl, -⟩
          rfl
      · rw [(hflag u).1 hu, (hflag v).1 hv]
      · rw [(hflag u).1 hu, (hsame t).1]
        exact sched_ready ok.sched hsched
    have hm : ((k.setTcb t fun y => { y with klocked := true }).tcb t).klocked = true :=
      (hflag t).2 rfl
    simp only [hm, if_true]
    have hin : ∀ u loc', Function.update s.mpf t (.inside loc) u = .inside loc' ↔
        u = t ∧ loc' = loc := by
      intro u loc'
      by_cases e : u = t
      · subst e
        simp only [Function.update_self, Mempfix.inside.injEq, true_and]
        exact eq_comm
      · rw [Function.update_of_ne e]
        exact iff_of_false (alone u loc') (fun h => e h.1)
    refine ⟨⟨okk, ?_⟩, ?_, ?_, ?_, ?_, ?_, ok.victim, ?_, ok.masked, ok.entered⟩
    · show s.schedtsk = some t
      exact hsched
    · intro u
      show some t = some u ↔ ∃ loc', Function.update s.mpf t (.inside loc) u = .inside loc'
      simp only [hin]
      constructor
      · intro e
        exact ⟨loc, (by simpa using e.symm), rfl⟩
      · rintro ⟨-, rfl, -⟩
        rfl
    · intro loc' hlk
      have hlk' : Function.update s.knl.locked loc true loc' = true := hlk
      by_cases e : loc' = loc
      · exact ⟨t, (hin t loc').2 ⟨rfl, e⟩⟩
      · rw [Function.update_of_ne e] at hlk'
        obtain ⟨u, hu⟩ := ok.locked loc' hlk'
        exact absurd hu (alone u loc')
    · intro u loc'
      show Function.update s.mpf t (.inside loc) u ≠ _
      by_cases e : u = t
      · subst e; simp
      · rw [Function.update_of_ne e]
        exact ok.entering u loc'
    · intro u hu
      obtain rfl : t = u := by simpa using (show some t = some u from hu)
      exact .inl hx
    · intro u h₁ h₂ h₃ h₄
      show ((k.setTcb t fun y => { y with klocked := true }).tcb u).state = .ready
      rw [(hsame u).1]
      exact ok.running u h₁ h₂ h₃ h₄
    · intro u e he
      rw [show s.ending = some (u, e) from he] at hend
      cases hend

/-- What `knl_UnlockOBJ` does when no task waits for the lock. -/
theorem unlockOBJ_knl {k : Knl} (loc : LockId) (hq : k.rings.que (.lockq loc) = []) :
    knlUnlockOBJ k t loc = .resched
      { k.setTcb t fun y => { y with klocked := false } with
        klocktsk := none
        locked := Function.update k.locked loc false } := by
  simp [knlUnlockOBJ, hq]

/-- The words of the object locks after `t` has given its lock up. -/
theorem released_locks (ok : s.Ok) {loc : LockId} (hin : s.mpf t = .inside loc) {k : Knl}
    (hk : k.klocktsk = none) (hlk : k.locked = Function.update s.knl.locked loc false) :
    (∀ u, k.klocktsk = some u ↔ ∃ loc', Function.update s.mpf t .out u = .inside loc') ∧
      (∀ loc', k.locked loc' = true →
        ∃ u, Function.update s.mpf t .out u = .inside loc') ∧
      ∀ u loc', Function.update s.mpf t .out u ≠ .entering loc' := by
  have hown := (ok.owner t).2 ⟨loc, hin⟩
  have only : ∀ u loc', s.mpf u = .inside loc' → u = t := by
    intro u loc' hu
    have hu' := (ok.owner u).2 ⟨loc', hu⟩
    rw [hown] at hu'
    exact (by simpa using hu' : t = u).symm
  have hout : ∀ u loc', Function.update s.mpf t .out u ≠ .inside loc' := by
    intro u loc'
    by_cases e : u = t
    · subst e; simp
    · rw [Function.update_of_ne e]
      exact fun h => e (only u loc' h)
  refine ⟨fun u => ?_, fun loc' h => ?_, fun u loc' => ?_⟩
  · rw [hk]
    exact iff_of_false (by simp) (fun ⟨loc', h⟩ => hout u loc' h)
  · rw [hlk] at h
    by_cases e : loc' = loc
    · subst e; simp at h
    · rw [Function.update_of_ne e] at h
      obtain ⟨u, hu⟩ := ok.locked loc' h
      obtain rfl := only u loc' hu
      rw [hin] at hu
      exact absurd (by simpa using hu.symm) e
  · by_cases e : u = t
    · subst e; simp
    · rw [Function.update_of_ne e]
      exact ok.entering u loc'

/-- `knl_UnlockOBJ` on the kernel data. -/
theorem unlocked_knl {D : Tid → Prop} {k : Knl} (ok : KnlOk D k) (hk : k.klocktsk = some t)
    (loc : LockId) :
    KnlOk D { k.setTcb t fun y => { y with klocked := false } with
      klocktsk := none, locked := Function.update k.locked loc false } := by
  obtain ⟨hl, hD⟩ := (ok.klocktsk t).1 hk
  have hsame : ∀ u, ((k.setTcb t fun y => { y with klocked := false }).tcb u).state =
        (k.tcb u).state ∧
      ((k.setTcb t fun y => { y with klocked := false }).tcb u).priority = (k.tcb u).priority ∧
      ((k.setTcb t fun y => { y with klocked := false }).tcb u).ipriority = (k.tcb u).ipriority ∧
      ((k.setTcb t fun y => { y with klocked := false }).tcb u).klockwait = (k.tcb u).klockwait := by
    intro u
    by_cases e : u = t
    · subst e; simp
    · rw [Knl.setTcb_ne e]
      exact ⟨rfl, rfl, rfl, rfl⟩
  have hflag : ∀ u, ((k.setTcb t fun y => { y with klocked := false }).tcb u).klocked = false := by
    intro u
    by_cases e : u = t
    · subst e; simp
    · rw [Knl.setTcb_ne e]
      cases hu : (k.tcb u).klocked with
      | false => rfl
      | true => exact absurd (ok.single u t hu hl) e
  refine ⟨ok.ready.congr ok.ready.wf (fun _ => rfl) (fun _ u _ => (hsame u).2.1)
    (fun u => ?_) rfl rfl, fun u hu => ?_, ok.unlinked, fun u => ?_, fun u => ?_, fun u => ?_,
    fun u v hu _ => ?_, fun u hu => ?_⟩
  · show ((k.setTcb t fun y => { y with klocked := false }).tcb u).priority < _
    rw [(hsame u).2.1]
    exact ok.ready.low u
  · have hpl := ok.placed u hu
    show Placed ((k.setTcb t fun y => { y with klocked := false }).tcb u) (k.rings.link u)
    unfold Placed at hpl ⊢
    rw [(hsame u).1, (hsame u).2.1]
    exact hpl
  · exact (hsame u).2.2.1 ▸ ok.ini u
  · exact (hsame u).2.2.2.trans (ok.nowait u)
  · exact iff_of_false (by simp) fun h => Bool.noConfusion ((hflag u).symm.trans h.1)
  · rw [show _ = false from hflag u] at hu
    cases hu
  · rw [show _ = false from hflag u] at hu
    cases hu

theorem unlock_ok (ok : s.Ok) (hend : s.ending = none)
    (h : s.unlockStep = some s') : s'.Ok := by
  unfold unlockStep at h
  cases hc : s.caller with
  | none => simp [hc] at h
  | some t =>
    simp only [hc, Option.bind_eq_bind, Option.bind_some] at h
    cases hm : s.mpf t with
    | out | entering loc => rw [hm] at h; cases h
    | inside loc =>
      rw [hm] at h
      obtain rfl : _ = s' := by simpa using h
      have hk := (ok.owner t).2 ⟨loc, hm⟩
      rw [unlockOBJ_knl loc (lockq_empty ok.sched.knl loc)]
      have okk := unlocked_knl ok.sched.knl hk loc
      obtain ⟨h₁, h₂, h₃⟩ := released_locks (k := { s.knl.setTcb t
        fun y => { y with klocked := false } with
          klocktsk := none, locked := Function.update s.knl.locked loc false }) ok hm rfl rfl
      refine ⟨SchedOk.rescheduled okk, h₁, h₂, h₃, ?_, ?_, ok.victim, ?_, ok.masked, ok.entered⟩
      · intro u hu
        cases hu
      · intro u hu hd hv hw
        have hr := ok.running u hu hd hv hw
        show ((s.knl.setTcb t fun y => { y with klocked := false }).tcb u).state = .ready
        by_cases e : u = t
        · subst e; simpa using hr
        · rw [Knl.setTcb_ne e]
          exact hr
      · intro u e he
        rw [show s.ending = some (u, e) from he] at hend
        cases hend

/-- The kernel data of `wait_mpf`, when both parts are done. -/
theorem waitUnlock_knl {D : Tid → Prop} {x b : Sched} {w : Wspec} (hb : b = blockCaller x t w)
    (ok : KnlOk D x.knl) (hD : ¬ D t) (hs : (x.knl.tcb t).state = .ready)
    (hown : x.knl.klocktsk = some t) (loc : LockId) :
    ∃ k, b.after (knlUnlockOBJ b.knl t loc) = knlReschedule k ∧ KnlOk D k ∧
      k.klocktsk = none ∧ k.locked = Function.update x.knl.locked loc false ∧
      (k.tcb t).state ≠ .ready := by
  have hk : b.knl = linkWaiting _ t w := hb ▸ blockCaller_knl hs w
  have okw := ok.inert (t := t) (f := fun y => { y with wspec := w })
    (fun _ => ⟨rfl, rfl, rfl, rfl, rfl⟩)
  have hdel := ReadyOk.delete_eq (okw.nowait t)
  obtain ⟨r, hr⟩ := linkWaiting_eq ((knlReadyQueueDelete
    (x.knl.setTcb t fun y => { y with wspec := w }) t).setTcb t
      fun y => { y with state := .wait }) t w
  have hnone : b.knl.klocktsk = none := by
    rw [hk, hr, hdel]
    exact if_pos hown
  have hlk : b.knl.locked = x.knl.locked := by
    rw [hk, hr, hdel]
    rfl
  have htcb : b.knl.tcb t = { x.knl.tcb t with wspec := w, state := .wait } := by
    rw [hk, hr, hdel]
    simp
  let k : Knl := { b.knl.setTcb t fun y => { y with klocked := false } with
    klocktsk := none, locked := Function.update b.knl.locked loc false }
  have same : SameBut t b.knl k := by
    have first := SameBut.setTcb t b.knl fun y => { y with klocked := false }
    exact ⟨first.tcb, first.link, first.que, rfl, rfl, hnone.symm⟩
  have hself : k.tcb t = { x.knl.tcb t with wspec := w, state := .wait, klocked := false } := by
    show (b.knl.setTcb t fun y => { y with klocked := false }).tcb t = _
    rw [Knl.setTcb_self, htcb]
  have hrings := congrArg Knl.rings hk
  have okk : KnlOk D k := by
    refine SchedOk.waiting_knl (w := w) okw hD (by simpa using hs) (hk ▸ same) hrings ?_
    rw [hself, Knl.setTcb_self]
  refine ⟨k, ?_, okk, rfl, by rw [← hlk], by simp [hself]⟩
  rw [unlockOBJ_knl loc (show b.knl.rings.que (.lockq loc) = [] from lockq_empty okk loc)]
  rfl

/-- `wait_mpf`: the caller waits and gives its lock up. -/
theorem waitMpf_ok (ok : s.Ok) (hcs : s.cs = true) (hend : s.ending = none) {o : ObjId}
    {tpri : Bool} (h : s.waitMpfStep o tpri = some s') : s'.Ok := by
  unfold waitMpfStep at h
  cases hc : s.caller with
  | none => simp [hc] at h
  | some t =>
    have hc' : (s.setSched (blockCaller s.toSched t (.gcb o tpri))).caller = some t := hc
    simp only [hc, hc', unlockStep, Option.bind_eq_bind, Option.bind_some] at h
    cases hm : s.mpf t with
    | out | entering loc =>
      rw [show (s.setSched (blockCaller s.toSched t (.gcb o tpri))).mpf t = _ from hm] at h
      cases h
    | inside loc =>
      rw [show (s.setSched (blockCaller s.toSched t (.gcb o tpri))).mpf t = _ from hm] at h
      simp only [Option.bind_some] at h
      obtain ⟨hp, rfl⟩ := guardStep_some h
      simp only [Bool.not_eq_true'] at hp
      obtain ⟨hd, hpm⟩ := inDdsp_false hp
      have hs := ok.caller_ready hcs hc hp
      have hown := (ok.owner t).2 ⟨loc, hm⟩
      obtain ⟨k, hx, okk, hnone, hlk, hst⟩ := waitUnlock_knl (b := blockCaller s.toSched t
        (.gcb o tpri)) rfl ok.sched.knl (not_dying hend t) hs hown loc
      obtain ⟨h₁, h₂, h₃⟩ := released_locks ok hm hnone hlk
      have last := blocked_ok ok hend hc hd hpm (SchedOk.rescheduled okk) hst h₁ h₂ h₃
        (fun u hu => by rw [show k.klocktsk = some u from hu] at hnone; cases hnone)
      rw [← hx] at last
      exact last

/-! ## Runs -/

theorem inner_ok (ok : s.Ok) (hcs : s.cs = true) {e : Event} (ha : s.agrees e = true)
    (h : s.inner e = some s') : s'.Ok := by
  cases e with
  | call c => exact call_ok ok hcs ha h
  | ter t =>
    obtain ⟨hp, rfl⟩ := guardStep_some h
    exact ter_ok ok hcs (by simpa using hp) t
  | ext | exd =>
    simp only [inner] at h
    split at h
    · rename_i hp
      refine exit_ok ok hcs (by simpa using hp) (by simp) (fun t hc hs => ?_) h
      simp [agrees, readied, hc, hs] at ha
    · cases h
  | finish => exact finish_ok ok h
  | block w =>
    simp only [inner] at h
    split at h
    · rename_i hp
      exact block_ok ok hcs (by simpa using hp) h
    · cases h
  | lockOBJ loc =>
    simp only [inner] at h
    split at h
    · rename_i hp
      exact lock_ok ok (by simpa using hp) ha h
    · cases h
  | unlockOBJ =>
    simp only [inner] at h
    split at h
    · rename_i hp
      exact unlock_ok ok (by simpa using hp) h
    · cases h
  | waitMpf o tpri =>
    simp only [inner] at h
    split at h
    · rename_i hp
      exact waitMpf_ok ok hcs (by simpa using hp) h
    · cases h
  | leave =>
    obtain ⟨hp, rfl⟩ := guardStep_some h
    exact endSection_ok ok (by simpa using hp)
  | enable =>
    obtain ⟨hp, rfl⟩ := guardStep_some h
    simp only [Bool.and_eq_true, beq_iff_eq] at hp
    exact enable_ok ok (by simpa using hp.1.1) hp.1.2
  | force =>
    obtain ⟨hp, rfl⟩ := guardStep_some h
    simp only [Bool.and_eq_true] at hp
    exact forceDispatch_ok ok (by simpa using hp.1.1)
  | irq | ret | di | ei | disDsp | enaDsp | enter | pendsv | switch => cases h

theorem step_ok (ok : s.Ok) {e : Event} (ha : s.agrees e = true) (h : s.step e = some s') :
    s'.Ok := by
  unfold step at h
  split at h
  · rename_i hcs
    exact inner_ok ok hcs ha h
  · rename_i hcs
    exact outer_ok ok (by simpa using hcs) h

theorem boot_ok (n : Nat) : (boot n).Ok := by
  have wf : (Knl.boot n).rings.WF := by
    refine ⟨fun t q => ?_, fun q => ?_, rfl⟩
    · show t ∈ (if q = .free then List.range n else []) ↔
        (if t < n then Link.member Que.free else .loose) = .member q
      by_cases hq : q = .free
      · subst hq
        by_cases ht : t < n <;> simp [ht]
      · by_cases ht : t < n <;> simp [ht, hq, Ne.symm hq]
    · show (if q = .free then List.range n else []).Nodup
      split
      · exact List.nodup_range
      · exact List.nodup_nil
  have ready : ReadyOk (Knl.boot n) := by
    refine ⟨wf, fun p t ht => ?_, fun t => ?_, fun p => ?_, ?_⟩
    · cases ht
    · show 0 < NUM_TSKPRI
      decide
    · exact iff_of_false (by simp [Knl.boot]) (fun h => h rfl)
    · exact ⟨le_rfl, fun _ _ => rfl, fun h => absurd h (lt_irrefl _)⟩
  refine ⟨⟨⟨ready, fun t _ => ?_, ?_, fun _ => ?_, fun _ => rfl, fun t => ?_, ?_, ?_⟩, rfl⟩,
    ?_, ?_, ?_, ?_, ?_, ?_, ?_, ?_, ?_⟩
  · show ∀ q, (if t < n then Link.member Que.free else .loose) = .member q → q = .free
    intro q hq
    split at hq
    · exact (Link.member.inj hq).symm
    · cases hq
  · rintro t ⟨e, h⟩
    cases h
  · show 0 < NUM_TSKPRI
    decide
  · exact iff_of_false (by simp [boot, Knl.boot]) (fun h => Bool.noConfusion h.1)
  · intro t u h
    exact Bool.noConfusion h
  · intro t h
    exact Bool.noConfusion h
  · intro t
    exact iff_of_false (by simp [boot, Knl.boot]) (fun ⟨_, h⟩ => Mempfix.noConfusion h)
  · intro loc h
    exact Bool.noConfusion h
  · intro t loc h
    exact Mempfix.noConfusion h
  · intro t h
    cases h
  · intro t h
    cases h
  · intro t h
    cases h
  · intro t e h
    cases h
  · intro h
    exact absurd h (lt_irrefl 0)
  · intro _ _ h
    cases h

/-- The task that `knl_ready_queue_top` returns is the designated one. -/
theorem Ok.designates (ok : s.Ok) (hcs : s.cs = false) : s.SchedtskOk := by
  intro _
  refine ⟨ok.sched.sched, ?_⟩
  have hend := ok.idle_of_outside hcs
  rw [ok.sched.sched]
  cases hk : s.knl.klocktsk with
  | some t =>
    have hl := ((ok.sched.knl.klocktsk t).1 hk).1
    exact .inl ⟨t, ok.sched.knl.runs t hl, hl, readyTop_some hk⟩
  | none =>
    refine .inr ⟨fun t _ => ?_, ?_⟩
    · cases hl : (s.knl.tcb t).klocked with
      | false => rfl
      | true =>
        have h := (ok.sched.knl.klocktsk t).2 ⟨hl, not_dying hend t⟩
        rw [hk] at h
        cases h
    · rw [readyTop_none hk, ok.sched.knl.ready.head_readyTasks]

/-- A step that makes a task ready above a lock holder breaks it, from every state of the
invariant. -/
theorem Ok.breaks (ok : s.Ok) {t h : Tid} (hend : s.ending = none)
    (hst : (s.knl.tcb t).state = .dormant) (hc : s.caller ≠ some t)
    (hk : s.knl.klocktsk = some h) (hlt : (s.knl.tcb t).priority < s.knl.topPriority)
    (hs : s.inner (.call (.sta t)) = some s') : s'.schedtsk ≠ knlReadyQueueTop s'.knl := by
  have hl := ok.sched.knl.klocked_false (t := t) (by simp [hst])
  have hne : h ≠ t := by
    rintro rfl
    rw [((ok.sched.knl.klocktsk h).1 hk).1] at hl
    cases hl
  have hb : s.body (.sta t) = .ok (knlMakeReady s.toSched t) := by
    simp [body, nonself, hc, tkStaTsk, hst]
  simp only [inner, hb, guardStep, hend, Option.isNone_none, Bool.true_or, if_true,
    Option.some.injEq] at hs
  subst hs
  exact SchedOk.makeReady_breaks hl hk hne hlt

/-- In a run whose steps agree `knl_schedtsk` is the designated task whenever execution is
outside a critical section. -/
theorem schedtskOk_of_agrees (h : machine.ReachableIf (fun s e => s.agrees e = true) s) :
    s.SchedtskOk := by
  have ok : s.Ok := by
    refine h.invariant Ok ?_ ?_
    · rintro s₀ ⟨n, rfl⟩
      exact boot_ok n
    · intro s₁ e s₂ ok₁ ha hs
      exact step_ok ok₁ ha hs
  intro hcs
  exact ok.designates hcs hcs

/-- The creation of a task with a stack of its own. -/
def newTask (priority : Nat) : Event :=
  .call (.cre { bufptr := none, assprc := none, itskpri := priority })

/-- The startup and the first dispatch, with tasks 0, 1 and 2. -/
def startup : List Event :=
  [newTask 10, newTask 5, newTask 20, .call (.sta 0), .force, .pendsv, .switch]

/-- The holder of a lock gives it up and waits, and the next task runs. -/
theorem schedtskOk_of_agrees_waitMpf :
    ∃ s : Cpu, s.ctxtsk = .task 2 ∧ s.SchedtskOk := by
  obtain ⟨s, reach, hp⟩ := @Lts.reachable_of_exec _ _ machine (fun s e => s.agrees e = true)
    (fun s e => s.agrees e) (fun s => s.ctxtsk == .task 2) (fun _ _ h => h) (boot 3)
    (startup ++ [.enter, .lockOBJ 0, .leave, .irq, .enter, .call (.sta 2), .leave, .ret,
      .enter, .waitMpf 0 true, .pendsv, .switch])
    ⟨3, rfl⟩ (by decide +kernel)
  exact ⟨s, by simpa using hp, schedtskOk_of_agrees reach⟩

/-- A handler starts a task above the holder of a lock, and `knl_schedtsk` is that task. -/
theorem not_schedtskOk : ¬ ∀ s, machine.Reachable s → s.SchedtskOk := by
  intro all
  obtain ⟨s, reach, hp⟩ := Lts.reachable_of_trace (L := machine)
    (p := fun s => !s.cs && s.schedtsk != knlReadyQueueTop s.knl) (s := boot 3)
    (startup ++ [.enter, .lockOBJ 0, .leave, .irq, .enter, .call (.sta 1), .leave])
    ⟨3, rfl⟩ (by decide +kernel)
  simp only [Bool.and_eq_true, Bool.not_eq_true', bne_iff_ne] at hp
  exact hp.2 (all s reach hp.1).1

end Mtk3Smp.Single.Cpu
