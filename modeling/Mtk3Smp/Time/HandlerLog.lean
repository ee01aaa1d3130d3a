import Mtk3Smp.Time.HandlerLinks

/-!
# Starts, stops and callbacks

The callback of a handler begins only after a start that no stop has followed, and for the
control block as it was created last.
-/

namespace Mtk3Smp

/-- The creation that `h` was started in, unless it has been stopped since. -/
def startedIn : List TimeLog → Hdr → Option Nat
  | [], _ => none
  | .started y life :: rest, h => if h = y then some life else startedIn rest h
  | .stopped y :: rest, h => if h = y then none else startedIn rest h
  | .begun .. :: rest, h => startedIn rest h

/-- Each callback was begun for a started handler. -/
def LogOk : List TimeLog → Prop
  | [] => True
  | .begun h life _ _ :: rest => startedIn rest h = some life ∧ LogOk rest
  | _ :: rest => LogOk rest

/-- `LogInv x s`: this is so, and the handlers that are started now were started with the present
creation, but for the handler `x`, which a call has in its hands. -/
structure LogInv (x : Option Hdr) (s : TimeSys) : Prop where
  ok : LogOk s.log
  started : ∀ h, x ≠ some h → (s.cb h).hdr ≠ none → (s.cb h).sta = true →
    startedIn s.log h = some (s.life h)

/-- Nothing has been started, stopped or begun. -/
structure SameLog (s t : TimeSys) : Prop where
  log : t.log = s.log
  life : t.life = s.life
  hdr : ∀ h, (t.cb h).hdr = (s.cb h).hdr
  sta : ∀ h, (t.cb h).sta = (s.cb h).sta

section

variable {s t u : TimeSys} {h : Hdr} {x : Option Hdr} {cb : HdrCb} {c self : Core}

theorem SameLog.trans (h₁ : SameLog s t) (h₂ : SameLog t u) : SameLog s u :=
  ⟨h₂.log.trans h₁.log, h₂.life.trans h₁.life, fun h => (h₂.hdr h).trans (h₁.hdr h),
    fun h => (h₂.sta h).trans (h₁.sta h)⟩

theorem LogInv.same (inv : LogInv x s) (h : SameLog s t) : LogInv x t := by
  refine ⟨?_, fun y hy hreg hsta => ?_⟩
  · rw [h.log]
    exact inv.ok
  · rw [h.log, h.life]
    rw [h.hdr] at hreg
    rw [h.sta] at hsta
    exact inv.started y hy hreg hsta

theorem sameLog_setCb (hhdr : cb.hdr = (s.cb h).hdr) (hsta : cb.sta = (s.cb h).sta) :
    SameLog s (s.setCb h cb) := by
  refine ⟨rfl, rfl, fun y => ?_, fun y => ?_⟩
  · by_cases same : y = h
    · subst same
      simpa [TimeSys.setCb] using hhdr
    · simp [TimeSys.setCb, Function.update_of_ne same]
  · by_cases same : y = h
    · subst same
      simpa [TimeSys.setCb] using hsta
    · simp [TimeSys.setCb, Function.update_of_ne same]

theorem sameLog_of_eq (hlog : t.log = s.log) (hlife : t.life = s.life) (hcb : t.cb = s.cb) :
    SameLog s t :=
  ⟨hlog, hlife, fun _ => by rw [hcb], fun _ => by rw [hcb]⟩

theorem sameLog_knlTimerInsertAbs {time : ABSTIM} {callback : Cback} :
    SameLog s (s.knlTimerInsertAbs h time callback) := by
  have hset : SameLog s (s.setCb h { s.cb h with time := time, callback := callback }) :=
    sameLog_setCb rfl rfl
  exact hset.trans (sameLog_of_eq rfl rfl rfl)

theorem sameLog_cancel : SameLog s (s.cancel h) := by
  unfold TimeSys.cancel
  split
  · exact sameLog_of_eq rfl rfl rfl
  · exact sameLog_of_eq rfl rfl rfl

theorem sameLog_knlEnqueueTimehandler {callback : Cback} :
    SameLog s (s.knlEnqueueTimehandler self c h callback) := by
  have hset : SameLog s (s.setCb h { s.cb h with callback := callback }) := sameLog_setCb rfl rfl
  refine hset.trans ?_
  unfold TimeSys.knlEnqueueTimehandler
  dsimp only
  split
  · exact sameLog_of_eq rfl rfl rfl
  · split
    · exact sameLog_of_eq rfl rfl rfl
    · exact sameLog_of_eq rfl rfl rfl

theorem LogInv.opened (inv : LogInv none s) : LogInv (some h) s :=
  ⟨inv.ok, fun y _ => inv.started y (by simp)⟩

/-- The handler in hand is left stopped or unregistered. -/
theorem LogInv.closed (inv : LogInv (some h) s)
    (hstop : (s.cb h).hdr ≠ none → (s.cb h).sta = false) : LogInv none s := by
  refine ⟨inv.ok, fun y _ hreg hsta => ?_⟩
  by_cases same : y = h
  · subst same
    rw [hstop hreg] at hsta
    cases hsta
  · exact inv.started y (fun he => same (Option.some.inj he).symm) hreg hsta

/-- The fields of the handler in hand change. -/
theorem LogInv.setCb (inv : LogInv (some h) s) : LogInv (some h) (s.setCb h cb) := by
  refine ⟨inv.ok, fun y hy hreg hsta => ?_⟩
  have same : y ≠ h := fun he => hy (by rw [he])
  simp only [TimeSys.setCb, Function.update_of_ne same] at hreg hsta
  exact inv.started y hy hreg hsta

/-- The handler in hand is started. -/
theorem LogInv.start (inv : LogInv (some h) s) :
    LogInv none (s.note (.started h (s.life h))) := by
  refine ⟨inv.ok, fun y _ hreg hsta => ?_⟩
  by_cases same : y = h
  · subst same
    simp [TimeSys.note, startedIn]
  · simp only [TimeSys.note, startedIn, if_neg same]
    exact inv.started y (fun he => same (Option.some.inj he).symm) hreg hsta

theorem startedIn_start : startedIn (s.note (.started h (s.life h))).log h = some (s.life h) := by
  simp [TimeSys.note, startedIn]

/-- The handler in hand is stopped. -/
theorem LogInv.stop (inv : LogInv (some h) s)
    (hstop : (s.cb h).hdr ≠ none → (s.cb h).sta = false) :
    LogInv none (s.note (.stopped h)) := by
  have hcl := inv.closed hstop
  refine ⟨hcl.ok, fun y _ hreg hsta => ?_⟩
  by_cases same : y = h
  · subst same
    have hoff := hstop hreg
    rw [show (s.cb y).sta = true from hsta] at hoff
    cases hoff
  · simp only [TimeSys.note, startedIn, if_neg same]
    exact hcl.started y (by simp) hreg hsta

theorem LogInv.callUserHandler (inv : LogInv x s) (hstart : startedIn s.log h = some (s.life h)) :
    LogInv x (s.callUserHandler self h) :=
  ⟨⟨hstart, inv.ok⟩, inv.started⟩

theorem LogInv.knlCallCychdr (inv : LogInv x s) (hstart : startedIn s.log h = some (s.life h)) :
    LogInv x (s.knlCallCychdr self h) := by
  have same : SameLog s (s.knlCycTimerInsert h (s.knlCycNextTime h)) := sameLog_knlTimerInsertAbs
  refine (inv.same same).callUserHandler ?_
  rw [same.log, same.life]
  exact hstart

theorem LogInv.knlCallAlmhdr (inv : LogInv none s) (hstart : startedIn s.log h = some (s.life h)) :
    LogInv none (s.knlCallAlmhdr self h) := by
  have hset : LogInv (some h) (s.setSta h false) := inv.opened.setCb
  exact (hset.closed fun _ => by simp [TimeSys.setSta, TimeSys.setCb]).callUserHandler hstart

theorem LogInv.runCallback (inv : LogInv none s) (hstart : startedIn s.log h = some (s.life h)) :
    LogInv none (s.runCallback self h) := by
  unfold TimeSys.runCallback
  split
  · exact inv.same sameLog_knlEnqueueTimehandler
  · exact inv.knlCallCychdr hstart
  · exact inv.knlCallAlmhdr hstart

theorem LogInv.knlTimehandlerExecute (inv : LogInv none s) (links : LinkInv none s) :
    LogInv none (s.knlTimehandlerExecute self) := by
  unfold TimeSys.knlTimehandlerExecute
  split
  · exact inv.same (sameLog_of_eq rfl rfl rfl)
  · rename_i event rest hq
    obtain ⟨-, hreg, hsta⟩ := links.head hq
    have hstart := inv.started event (by simp) hreg hsta
    exact LogInv.runCallback (inv.same (sameLog_of_eq rfl rfl rfl)) hstart

theorem LogInv.knlTimerHandler {cur : ABSTIM} (inv : LogInv none s) (links : LinkInv none s) :
    LogInv none (s.knlTimerHandler cur) := by
  unfold TimeSys.knlTimerHandler
  split
  · exact inv.same (sameLog_of_eq rfl rfl rfl)
  · rename_i event rest hq
    split
    · exact inv.same (sameLog_of_eq rfl rfl rfl)
    · obtain ⟨-, hreg, hsta⟩ := links.head hq
      have hstart := inv.started event (by simp) hreg hsta
      exact LogInv.runCallback (inv.same (sameLog_of_eq rfl rfl rfl)) hstart

theorem LogInv.knlImmediateCallCychdr (inv : LogInv none s)
    (hstart : startedIn s.log h = some (s.life h)) :
    LogInv none (s.knlImmediateCallCychdr self h) := by
  unfold TimeSys.knlImmediateCallCychdr
  dsimp only
  split
  · exact inv.same sameLog_knlEnqueueTimehandler
  · exact inv.knlCallCychdr hstart

theorem LogInv.knlImmediateCallAlmhdr (inv : LogInv none s)
    (hstart : startedIn s.log h = some (s.life h)) :
    LogInv none (s.knlImmediateCallAlmhdr self h) := by
  have hclear : LogInv (some h) (s.setSta h false) := inv.opened.setCb
  unfold TimeSys.knlImmediateCallAlmhdr
  dsimp only
  split
  · refine LogInv.same ?_ sameLog_knlEnqueueTimehandler
    have hset : LogInv (some h) ((s.setSta h false).setSta h true) := hclear.setCb
    refine ⟨hset.ok, fun y _ hreg hsta => ?_⟩
    by_cases same : y = h
    · subst same
      exact hstart
    · exact hset.started y (fun he => same (Option.some.inj he).symm) hreg hsta
  · exact (hclear.closed fun _ => by simp [TimeSys.setSta, TimeSys.setCb]).knlCallAlmhdr hstart

/-! ## Calls -/

theorem LogInv.create {kind : HdrKind} {g : HdrCb → HdrCb} {f : TimeSys → Hdr → TimeSys}
    (inv : LogInv none s)
    (hf : ∀ t h, LogInv (some h) t → (∃ cb, t.cb h = g cb) → LogInv none (f t h)) :
    LogInv none (s.create kind g f).2 := by
  unfold TimeSys.create
  cases hpool : s.free kind with
  | nil => exact inv
  | cons i rest =>
    have hset : LogInv (some ⟨kind, i⟩) (s.setCb ⟨kind, i⟩ (g (s.cb ⟨kind, i⟩))) := inv.opened.setCb
    refine hf _ _ ⟨hset.ok, fun y hy hreg hsta => ?_⟩ ⟨s.cb ⟨kind, i⟩, ?_⟩
    · have same : y ≠ ⟨kind, i⟩ := fun he => hy (by rw [he])
      have hold := hset.started y hy hreg hsta
      simp only [Function.update_of_ne same]
      exact hold
    · simp [TimeSys.setCb]

theorem LogInv.tkCreCyc {pk : Ccyc} (inv : LogInv none s) :
    LogInv none (s.tkCreCyc self pk).2 := by
  unfold TimeSys.tkCreCyc
  split
  · exact inv
  · refine inv.create ?_
    rintro t h opened ⟨cb, hcb⟩
    have hsta : (t.cb h).sta = pk.sta := by simp [hcb]
    dsimp only
    split
    · have hstart := opened.start
      split
      · have hset : SameLog (t.note (.started h (t.life h)))
            ((t.note (.started h (t.life h))).setCb h
              { t.cb h with time := s.cur + pk.cycphs + TIMER_PERIOD }) :=
          sameLog_setCb rfl rfl
        refine (hstart.same hset).knlImmediateCallCychdr ?_
        simp [TimeSys.setCb, TimeSys.note, startedIn]
      · exact hstart.same sameLog_knlTimerInsertAbs
    · rename_i stopped
      refine LogInv.closed (opened.setCb) fun _ => ?_
      simpa [TimeSys.setTime, TimeSys.setCb, hsta] using stopped

theorem LogInv.tkCreAlm {pk : Calm} (inv : LogInv none s) : LogInv none (s.tkCreAlm pk).2 := by
  unfold TimeSys.tkCreAlm
  split
  · exact inv
  · refine inv.create ?_
    rintro t h opened ⟨cb, hcb⟩
    exact opened.closed fun _ => by simp [hcb]

theorem LogInv.tkDel (inv : LogInv none s) : LogInv none ((s.cancel h).release h) := by
  have hset : LogInv (some h) ((s.cancel h).setCb h { (s.cancel h).cb h with hdr := none }) :=
    (inv.same sameLog_cancel).opened.setCb
  exact LogInv.stop ⟨hset.ok, hset.started⟩ fun hn => absurd (by simp [TimeSys.setCb]) hn

theorem LogInv.tkStp (inv : LogInv none s) :
    LogInv none (((s.cancel h).setSta h false).note (.stopped h)) := by
  have hset : LogInv (some h) ((s.cancel h).setCb h { (s.cancel h).cb h with sta := false }) :=
    (inv.same sameLog_cancel).opened.setCb
  exact hset.stop fun _ => by simp [TimeSys.setCb]

theorem LogInv.tkStaCyc {k : TimeCfg} {cycid : Nat} (inv : LogInv none s) :
    LogInv none (s.tkStaCyc k cycid).2 := by
  refine withHdr_ind inv fun h hreg => ?_
  dsimp only
  have hmark : ∀ {t : TimeSys}, SameLog s t →
      LogInv none ((t.setSta h true).note (.started h (s.life h))) := by
    intro t same
    have hset : LogInv (some h) (t.setSta h true) := (inv.same same).opened.setCb
    have hlife : (t.setSta h true).life h = s.life h := congrFun same.life h
    rw [← hlife]
    exact hset.start
  split
  · split
    · exact hmark sameLog_knlTimerInsertAbs
    · exact hmark (sameLog_of_eq rfl rfl rfl)
  · exact hmark (sameLog_cancel.trans sameLog_knlTimerInsertAbs)

theorem LogInv.tkStaAlm {k : TimeCfg} {almid : Nat} {almtim : ABSTIM} (inv : LogInv none s) :
    LogInv none (s.tkStaAlm k self almid almtim).2 := by
  unfold TimeSys.tkStaAlm
  split
  · exact inv
  split
  · exact inv
  refine withHdr_ind inv fun h hreg => ?_
  have hcan := inv.same (sameLog_cancel (h := h))
  have hlife : (s.cancel h).life h = s.life h := congrFun sameLog_cancel.life h
  rw [← hlife]
  have hstart := (hcan.opened (h := h)).start
  dsimp only
  split
  · have hins : LogInv none (((s.cancel h).note (.started h ((s.cancel h).life h))).knlAlmTimerInsert
        h almtim) := hstart.same sameLog_knlTimerInsertAbs
    have hset : LogInv (some h) ((((s.cancel h).note (.started h ((s.cancel h).life h))).knlAlmTimerInsert
        h almtim).setSta h true) := hins.opened.setCb
    refine ⟨hset.ok, fun y _ hreg hsta => ?_⟩
    by_cases same : y = h
    · subst same
      exact startedIn_start (s := s.cancel y)
    · exact hset.started y (fun he => same (Option.some.inj he).symm) hreg hsta
  · exact hstart.knlImmediateCallAlmhdr startedIn_start

theorem LogInv.call {k : TimeCfg} (inv : LogInv none s) (a : TimeCall) :
    LogInv none (s.call k self a) := by
  cases a with
  | tkCreCyc pk => exact inv.tkCreCyc
  | tkDelCyc cycid => exact withHdr_ind inv fun h hreg => inv.tkDel
  | tkStaCyc cycid => exact inv.tkStaCyc
  | tkStpCyc cycid => exact withHdr_ind inv fun h hreg => inv.tkStp
  | tkCreAlm pk => exact inv.tkCreAlm
  | tkDelAlm almid => exact withHdr_ind inv fun h hreg => inv.tkDel
  | tkStaAlm almid almtim => exact inv.tkStaAlm
  | tkStpAlm almid => exact withHdr_ind inv fun h hreg => inv.tkStp

theorem logInv_step {k : TimeCfg} {e : TimeEvent} (inv : LogInv none s) (links : LinkInv none s)
    (hs : s.step k e = some t) : LogInv none t := by
  rcases timeStep_cases hs with ⟨-, -, rfl⟩ | ⟨cur, rest, -, -, rfl⟩ | ⟨c, -, -, -, rfl⟩ |
    ⟨c, rest, -, -, -, rfl⟩ | ⟨c, rest, -, -, rfl⟩ | ⟨c, h, rest, -, -, -, rfl⟩ |
    ⟨c, a, -, -, -, rfl⟩
  · exact inv.same (sameLog_of_eq rfl rfl rfl)
  · exact inv.knlTimerHandler links
  · exact inv.same (sameLog_of_eq rfl rfl rfl)
  · exact inv.same (sameLog_of_eq rfl rfl rfl)
  · exact inv.knlTimehandlerExecute links
  · exact inv.same (sameLog_of_eq rfl rfl rfl)
  · exact inv.call a

theorem logInv_reachable {k : TimeCfg} (h : (timeMachine k).Reachable s) : LogInv none s := by
  have both : LinkInv none s ∧ LogInv none s := by
    refine h.invariant (fun s => LinkInv none s ∧ LogInv none s) ?_
      fun s e t inv _ hs => ⟨linkInv_step inv.1 hs, logInv_step inv.2 inv.1 hs⟩
    rintro s ⟨cb, rfl⟩
    exact ⟨linkInv_boot k cb, trivial, fun h _ hreg => absurd rfl hreg⟩
  exact both.2

/-! ## The log of a run -/

/-- A start that no stop and no later start has followed. -/
theorem startedIn_split {l : List TimeLog} {life : Nat} (hs : startedIn l h = some life) :
    ∃ newer older, l = newer ++ .started h life :: older ∧ .stopped h ∉ newer ∧
      ∀ n, .started h n ∉ newer := by
  induction l with
  | nil => cases hs
  | cons e rest ih =>
    cases e with
    | started y n =>
      unfold startedIn at hs
      by_cases same : h = y
      · subst same
        rw [if_pos rfl] at hs
        cases hs
        exact ⟨[], rest, rfl, by simp, by simp⟩
      · rw [if_neg same] at hs
        obtain ⟨newer, older, rfl, h1, h2⟩ := ih hs
        refine ⟨.started y n :: newer, older, rfl, ?_, fun m => ?_⟩
        · simpa using h1
        · simp only [List.mem_cons, TimeLog.started.injEq, not_or, not_and]
          exact ⟨fun he => absurd he same, h2 m⟩
    | stopped y =>
      unfold startedIn at hs
      by_cases same : h = y
      · rw [if_pos same] at hs
        cases hs
      · rw [if_neg same] at hs
        obtain ⟨newer, older, rfl, h1, h2⟩ := ih hs
        refine ⟨.stopped y :: newer, older, rfl, ?_, fun m => ?_⟩
        · simp only [List.mem_cons, TimeLog.stopped.injEq, not_or]
          exact ⟨same, h1⟩
        · simpa using h2 m
    | begun y n hdr exinf =>
      obtain ⟨newer, older, rfl, h1, h2⟩ := ih hs
      refine ⟨.begun y n hdr exinf :: newer, older, rfl, ?_, fun m => ?_⟩
      · simpa using h1
      · simpa using h2 m

theorem LogOk.begun {newer older : List TimeLog} {life exinf : Nat} {hdr : Option Nat}
    (h : LogOk (newer ++ .begun y life hdr exinf :: older)) : startedIn older y = some life := by
  induction newer with
  | nil => exact h.1
  | cons e rest ih =>
    cases e with
    | started y n => exact ih h
    | stopped y => exact ih h
    | begun y n hdr exinf => exact ih h.2

/-- After a stop, a handler is not started until there is a start. -/
theorem startedIn_stopped {newer older : List TimeLog} (hn : ∀ n, .started h n ∉ newer) :
    startedIn (newer ++ .stopped h :: older) h = none := by
  induction newer with
  | nil => simp [startedIn]
  | cons e rest ih =>
    have hrest : ∀ n, .started h n ∉ rest := fun n hm => hn n (List.mem_cons_of_mem _ hm)
    cases e with
    | started y n =>
      have same : h ≠ y := by
        rintro rfl
        exact hn n List.mem_cons_self
      simp only [List.cons_append, startedIn, if_neg same]
      exact ih hrest
    | stopped y =>
      simp only [List.cons_append, startedIn]
      split
      · rfl
      · exact ih hrest
    | begun y n hdr exinf => exact ih hrest

end

/-- Status and queues agree, and callbacks follow the starts. -/
structure HandlerOk (s : TimeSys) : Prop where
  /-- each TMEB is once in one queue at most -/
  wf : s.rings.WF
  status : ∀ h, (s.cb h).hdr ≠ none → ((s.cb h).sta = true ↔ ∃! q, h ∈ s.rings.que q)
  deleted : ∀ h, (s.cb h).hdr = none → ∀ q, h ∉ s.rings.que q
  /-- no callback begins between a stop and the next start -/
  stopped : ∀ newer older h, s.log = newer ++ .stopped h :: older →
    (∀ n, .started h n ∉ newer) → ∀ life hdr exinf, .begun h life hdr exinf ∉ newer
  /-- a callback is one of the creation that was started last -/
  begun : ∀ newer older h life hdr exinf, s.log = newer ++ .begun h life hdr exinf :: older →
    ∃ since before, older = since ++ .started h life :: before ∧ .stopped h ∉ since ∧
      ∀ n, .started h n ∉ since

theorem handlerOk_of_reachable (k : TimeCfg) {s : TimeSys} (h : (timeMachine k).Reachable s) :
    HandlerOk s := by
  have links := linkInv_reachable h
  have logs := logInv_reachable h
  refine ⟨links.wf, fun h hreg => ?_, fun h hreg q hq => ?_, ?_, ?_⟩
  · rw [links.linked h (by simp) hreg]
    constructor
    · rintro ⟨q, hl⟩
      refine ⟨q, (links.wf.mem_iff h q).2 hl, fun p hp => ?_⟩
      have hp := (links.wf.mem_iff h p).1 hp
      rw [hl] at hp
      exact (Link.member.inj hp).symm
    · rintro ⟨q, hq, -⟩
      exact ⟨q, (links.wf.mem_iff h q).1 hq⟩
  · exact links.unregistered h (by simp) hreg q ((links.wf.mem_iff h q).1 hq)
  · intro newer older h hlog hn life hdr exinf hm
    obtain ⟨n₁, n₂, rfl⟩ := List.append_of_mem hm
    have hok := logs.ok
    rw [hlog, List.append_assoc] at hok
    have hstart : startedIn (n₂ ++ .stopped h :: older) h = some life := LogOk.begun hok
    rw [startedIn_stopped fun n hn₂ => hn n (List.mem_append_right _ (List.mem_cons_of_mem _ hn₂))]
      at hstart
    cases hstart
  · intro newer older h life hdr exinf hlog
    have hok := logs.ok
    rw [hlog] at hok
    exact startedIn_split (LogOk.begun hok)

/-- An alarm of core 1 expires at once, and is stopped after its function has begun. -/
theorem handlerOk_of_reachable_stopped : ∃ s, (timeMachine ⟨0, 1⟩).Reachable s ∧ HandlerOk s ∧
    s.log = [.stopped ⟨.alm, 0⟩, .begun ⟨.alm, 0⟩ 1 (some 7) 5, .started ⟨.alm, 0⟩ 1] := by
  let cb : HdrCb :=
    { hdr := none, exinf := 0, phs := false, sta := false, cyctim := 0, assprc := 0, time := 0
      callback := .call }
  have trace := Lts.reachable_of_trace (L := timeMachine ⟨0, 1⟩)
    (p := fun s => s.log =
      [.stopped ⟨.alm, 0⟩, .begun ⟨.alm, 0⟩ 1 (some 7) 5, .started ⟨.alm, 0⟩ 1])
    [.call .core0 (.tkCreAlm ⟨some 2, 5, some 7⟩), .call .core0 (.tkStaAlm 1 0), .ipiTake .core1,
      .ipiEnter .core1, .executeRound .core1, .call .core0 (.tkStpAlm 1)]
    ⟨fun _ => cb, rfl⟩ (by decide +kernel)
  obtain ⟨s, hreach, hs⟩ := trace
  exact ⟨s, hreach, handlerOk_of_reachable _ hreach, of_decide_eq_true hs⟩

end Mtk3Smp
