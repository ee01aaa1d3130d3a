import Mtk3Smp.Lib.LtsRounds
import Mtk3Smp.Time.TickDue

/-!
# The rounds of one tick

Each round of the loop of `knl_timer_handler` takes a due event or ends the loop. The loop ends
as long as the times that are handed to the calls lie ahead of the clock after the tick has been
added to them; an alarm that starts itself again for longer keeps the loop going for ever.
-/

namespace Mtk3Smp

/-- The timer interrupt does not come again while it is handled. -/
def tickMachine (k : TimeCfg) : Lts TimeSys TimeEvent where
  init := (timeMachine k).init
  step s
    | .tick => if s.tickFrames.isEmpty then s.step k .tick else none
    | e => s.step k e

/-- The time of a call lies ahead of the clock, the tick included. -/
def OnTime (s : TimeSys) : TimeEvent → Prop
  | .call _ (.tkCreCyc pk) => pk.sta = true → InReach pk.cycphs
  | .call _ (.tkStaCyc cycid) =>
    (s.cb ⟨.cyc, cycid - 1⟩).phs = false → InReach (s.cb ⟨.cyc, cycid - 1⟩).cyctim
  | .call _ (.tkStaAlm _ almtim) => InReach almtim
  | _ => True

/-- The rounds of the loop for the tick at `n`. -/
def tickRounds {k : TimeCfg} (p : (tickMachine k).Path) (n : Nat) : Set Nat :=
  p.rounds (fun e => e = .tickRound) (fun e => e = .tick) n

/-- The rounds that the loop has left, if no event comes to be due. -/
def TimeSys.roundsLeft (s : TimeSys) : Nat := s.due + s.tickFrames.length

/-- The loop handles events by the time of the clock. -/
structure TickInv (s : TimeSys) : Prop where
  links : LinkInv none s
  periods : s.PeriodsOk
  current : ∀ f ∈ s.tickFrames, f = .tick s.cur

section

variable {s t : TimeSys} {k : TimeCfg} {e : TimeEvent} {c self : Core}

theorem noneDue_call (inv : TickInv s) (a : TimeCall) (hon : OnTime s (.call self a)) :
    NoneDue s (s.call k self a) := by
  cases a with
  | tkCreCyc pk => exact noneDue_tkCreCyc inv.links inv.periods hon
  | tkDelCyc cycid => exact withHdr_ind (NoneDue.refl s) fun h _ => noneDue_tkDel
  | tkStaCyc cycid => exact noneDue_tkStaCyc inv.links inv.periods hon
  | tkStpCyc cycid => exact withHdr_ind (NoneDue.refl s) fun h _ => noneDue_tkStp
  | tkCreAlm pk => exact noneDue_tkCreAlm inv.links
  | tkDelAlm almid => exact withHdr_ind (NoneDue.refl s) fun h _ => noneDue_tkDel
  | tkStaAlm almid almtim => exact noneDue_tkStaAlm inv.links hon
  | tkStpAlm almid => exact withHdr_ind (NoneDue.refl s) fun h _ => noneDue_tkStp

/-- What a round of the loop leaves. -/
structure RoundDone (s t : TimeSys) : Prop where
  currentTime : t.currentTime = s.currentTime
  frames : ∀ f ∈ t.tickFrames, f ∈ s.tickFrames
  left : t.roundsLeft < s.roundsLeft
  periods : t.PeriodsOk

/-- The loop ends. -/
theorem roundDone_pop {cur : ABSTIM} {rest : List TimeFrame} (ok : s.PeriodsOk)
    (hst : s.stack .core0 = .tick cur :: rest) : RoundDone s (s.pop .core0) := by
  have hframes : s.tickFrames = .tick cur :: (s.pop .core0).tickFrames := by
    simp only [TimeSys.tickFrames, TimeSys.pop, PerCore.get_set_self, hst, List.tail_cons]
    exact List.filter_cons_of_pos rfl
  refine ⟨rfl, fun f hf => ?_, ?_, ok⟩
  · rw [hframes]
    exact List.mem_cons_of_mem _ hf
  · have hdue : (s.pop .core0).due = s.due := rfl
    unfold TimeSys.roundsLeft
    rw [hframes, List.length_cons, hdue]
    omega

theorem roundDone_knlTimerHandler {cur : ABSTIM} {rest : List TimeFrame} (inv : TickInv s)
    (hst : s.stack .core0 = .tick cur :: rest) : RoundDone s (s.knlTimerHandler cur) := by
  have hcur : cur = s.cur := by
    have hmem : .tick cur ∈ s.tickFrames := by
      simp [TimeSys.tickFrames, hst, TimeFrame.isTick]
    have := inv.current _ hmem
    rwa [TimeFrame.tick.injEq] at this
  unfold TimeSys.knlTimerHandler
  split
  · exact roundDone_pop inv.periods hst
  · rename_i event tail hq
    split
    · exact roundDone_pop inv.periods hst
    · rename_i hreached
      have hdue : s.isDue event = true := by
        rw [hcur] at hreached
        simpa [TimeSys.isDue] using hreached
      obtain ⟨-, hreg, -⟩ := inv.links.head hq
      have hl := inv.links.wf.link_head hq
      have hout := due_remove_head inv.links.wf hq hdue
      have hrun : NoneDue { s with rings := s.rings.remove event }
          (({ s with rings := s.rings.remove event } : TimeSys).runCallback .core0 event) := by
        refine noneDue_runCallback inv.periods ?_ Rings.free_remove hreg
        exact inv.links.wf.remove (by rw [hl]; simp)
      refine ⟨hrun.currentTime, fun f hf => ?_, ?_, hrun.periods inv.periods⟩
      · rw [hrun.frames] at hf
        exact hf
      · have hle := hrun.due
        have hframes : ({ s with rings := s.rings.remove event } : TimeSys).tickFrames =
          s.tickFrames := rfl
        unfold TimeSys.roundsLeft
        rw [hrun.frames, hframes]
        omega

/-- A step is a tick, a round of its loop, or one by which no event comes to be due. -/
theorem tickStep_cases (inv : TickInv s) (hon : OnTime s e)
    (hs : (tickMachine k).step s e = some t) :
    (e = .tick ∧ t.tickFrames = [.tick t.cur] ∧ (s.PeriodsOk → t.PeriodsOk)) ∨
      (e = .tickRound ∧ RoundDone s t) ∨ (e ≠ .tick ∧ e ≠ .tickRound ∧ NoneDue s t) := by
  by_cases htick : e = .tick
  · subst htick
    refine .inl ⟨rfl, ?_⟩
    have hempty : s.tickFrames = [] := by
      by_contra hne
      simp [tickMachine, hne] at hs
    have hstep : s.step k .tick = some t := by
      simpa [tickMachine, hempty] using hs
    rcases timeStep_cases hstep with ⟨-, -, rfl⟩ | ⟨_, _, he, -⟩ | ⟨_, he, -⟩ | ⟨_, _, he, -⟩ |
      ⟨_, _, he, -⟩ | ⟨_, _, _, he, -⟩ | ⟨_, _, he, -⟩
    · refine ⟨?_, fun ok => ok⟩
      unfold TimeSys.tickFrames at hempty ⊢
      simp only [TimeSys.push, PerCore.get_set_self]
      rw [List.filter_cons_of_pos rfl, hempty]
      rfl
    all_goals cases he
  · have hstep : s.step k e = some t := by
      cases e with
      | tick => exact absurd rfl htick
      | _ => exact hs
    rcases timeStep_cases hstep with ⟨he, -, -⟩ | ⟨cur, rest, he, hst, rfl⟩ | ⟨c, rfl, -, -, rfl⟩ |
      ⟨c, rest, rfl, hst, -, rfl⟩ | ⟨c, rest, rfl, hst, rfl⟩ | ⟨c, h, rest, rfl, hst, -, rfl⟩ |
      ⟨c, a, rfl, -, -, rfl⟩
    · exact absurd he htick
    · exact .inr (.inl ⟨he, roundDone_knlTimerHandler inv hst⟩)
    · refine .inr (.inr ⟨by simp, by simp, NoneDue.trans ?_ (noneDue_push rfl)⟩)
      exact noneDue_of_eq rfl rfl rfl rfl
    · exact .inr (.inr ⟨by simp, by simp, (noneDue_pop hst rfl).trans (noneDue_push rfl)⟩)
    · exact .inr (.inr ⟨by simp, by simp, noneDue_knlTimehandlerExecute inv.links inv.periods hst⟩)
    · exact .inr (.inr ⟨by simp, by simp, noneDue_pop hst rfl⟩)
    · exact .inr (.inr ⟨by simp, by simp, noneDue_call inv a hon⟩)

theorem tickInv_step (inv : TickInv s) (hon : OnTime s e)
    (hs : (tickMachine k).step s e = some t) : TickInv t := by
  have hlinks : LinkInv none t := by
    refine linkInv_step (k := k) (e := e) inv.links ?_
    cases e with
    | tick =>
      simp only [tickMachine] at hs
      split at hs
      · exact hs
      · cases hs
    | _ => exact hs
  have hcur : t.currentTime = s.currentTime → t.cur = s.cur := by
    intro h
    unfold TimeSys.cur
    rw [h]
  rcases tickStep_cases inv hon hs with ⟨-, hf, hp⟩ | ⟨-, hdone⟩ | ⟨-, -, hnone⟩
  · refine ⟨hlinks, hp inv.periods, ?_⟩
    rw [hf]
    intro f hmem
    exact List.mem_singleton.1 hmem
  · refine ⟨hlinks, hdone.periods, fun f hmem => ?_⟩
    rw [hcur hdone.currentTime]
    exact inv.current f (hdone.frames f hmem)
  · refine ⟨hlinks, hnone.periods inv.periods, fun f hmem => ?_⟩
    rw [hcur hnone.currentTime]
    exact inv.current f (hnone.frames ▸ hmem)

theorem tickInv_boot (k : TimeCfg) (cb : Hdr → HdrCb) : TickInv (TimeSys.boot k cb) where
  links := linkInv_boot k cb
  periods h _ hreg := absurd rfl hreg
  current f hf := by
    simp [TimeSys.tickFrames, TimeSys.boot] at hf

theorem tickInv_path {p : (tickMachine k).Path} (hon : ∀ n, OnTime (p.state n) (p.event n))
    (n : Nat) : TickInv (p.state n) := by
  induction n with
  | zero =>
    obtain ⟨cb, h⟩ := p.start
    rw [h]
    exact tickInv_boot k cb
  | succ n ih => exact tickInv_step ih (hon n) (p.next n)

/-- While the calls hand over times ahead of the clock, the loop of every tick ends after the
events that are due when it begins. -/
theorem tick_rounds_end (k : TimeCfg) (p : (tickMachine k).Path)
    (hon : ∀ n, OnTime (p.state n) (p.event n)) (n : Nat) (htick : p.event n = .tick) :
    (tickRounds p n).Finite ∧ (tickRounds p n).ncard ≤ (p.state (n + 1)).due + 1 := by
  have hbound : (tickRounds p n).Finite ∧
      (tickRounds p n).ncard ≤ (p.state (n + 1)).roundsLeft := by
    refine Lts.Path.rounds_bounded TimeSys.roundsLeft (fun i _ hne => ?_) fun i _ he => ?_
    · rcases tickStep_cases (tickInv_path hon i) (hon i) (p.next i) with
        ⟨he, -⟩ | ⟨-, hdone⟩ | ⟨-, -, hnone⟩
      · exact absurd he hne
      · exact Nat.le_of_lt hdone.left
      · unfold TimeSys.roundsLeft
        rw [hnone.frames]
        exact Nat.add_le_add_right hnone.due _
    · rcases tickStep_cases (tickInv_path hon i) (hon i) (p.next i) with
        ⟨he', -⟩ | ⟨-, hdone⟩ | ⟨-, hne, -⟩
      · rw [he] at he'
        cases he'
      · exact hdone.left
      · exact absurd he hne
  rcases tickStep_cases (tickInv_path hon n) (hon n) (p.next n) with
    ⟨-, hf, -⟩ | ⟨he, -⟩ | ⟨hne, -⟩
  · have hleft : (p.state (n + 1)).roundsLeft = (p.state (n + 1)).due + 1 := by
      unfold TimeSys.roundsLeft
      rw [hf]
      rfl
    rwa [hleft] at hbound
  · rw [htick] at he
    cases he
  · exact absurd htick hne

end

/-- An alarm of 5 ms runs in the second tick. -/
def timerEvents : List TimeEvent :=
  [.call .core0 (.tkCreAlm ⟨none, 5, some 7⟩), .call .core0 (.tkStaAlm 1 5), .tick, .tickRound,
    .tick, .tickRound, .executeRound .core0, .bodyRet .core0, .executeRound .core0, .tickRound]

def timerBoot : TimeSys :=
  .boot ⟨0, 1⟩ fun _ =>
    { hdr := none, exinf := 0, phs := false, sta := false, cyctim := 0, assprc := 0, time := 0
      callback := .call }

/-- Calls with a wrong ID follow. -/
def timerPath : (tickMachine ⟨0, 1⟩).Path :=
  .ofTrace (s := timerBoot) ⟨_, rfl⟩ timerEvents (.call .core0 (.tkStpAlm 0)) (by
    have hsome : ((tickMachine ⟨0, 1⟩).exec (fun _ _ => true) timerBoot timerEvents).any
        (fun t => t.lockFree && (t.stack .core0).head? != some .ipi) = true := by decide +kernel
    cases hx : (tickMachine ⟨0, 1⟩).exec (fun _ _ => true) timerBoot timerEvents with
    | none => simp [hx] at hsome
    | some t =>
      refine ⟨t, rfl, ?_⟩
      simp only [hx, Option.any_some] at hsome
      simp only [tickMachine, TimeSys.step, hsome, if_true]
      rfl)

theorem onTime_timerPath (n : Nat) : OnTime (timerPath.state n) (timerPath.event n) := by
  have hall : ∀ s, ∀ e ∈ timerEvents, OnTime s e := by
    intro s
    simp [timerEvents, OnTime, InReach]
    decide
  show OnTime _ (timerEvents[n]?.getD _)
  cases he : timerEvents[n]? with
  | none => exact trivial
  | some e => exact hall _ e (List.mem_of_getElem? he)

/-- The loop of the tick in which the alarm runs. -/
theorem tick_rounds_end_alarm :
    (tickRounds timerPath 4).Finite ∧
      (tickRounds timerPath 4).ncard ≤ (timerPath.state 5).due + 1 :=
  tick_rounds_end ⟨0, 1⟩ timerPath onTime_timerPath 4 rfl

/-! ## The alarm that starts itself again -/

def loopAlarm : Hdr := ⟨.alm, 0⟩

/-- The alarm runs in the second tick. -/
def loopStart : List TimeEvent :=
  [.call .core0 (.tkCreAlm ⟨none, 5, some 7⟩), .call .core0 (.tkStaAlm 1 1), .tick, .tickRound,
    .tick]

/-- It starts itself again with the longest time. -/
def loopEvent (n : Nat) : TimeEvent :=
  match n % 5 with
  | 0 => .tickRound
  | 1 => .executeRound .core0
  | 2 => .call .core0 (.tkStaAlm 1 0x7FFFFFFF)
  | 3 => .bodyRet .core0
  | _ => .executeRound .core0

/-- The alarm is in the queue `q`, or runs. -/
structure Looping (s : TimeSys) (frames : List TimeFrame) (q : Option TimeQue) : Prop where
  stack0 : s.stack .core0 = frames
  stack1 : s.stack .core1 = []
  cur : s.cur = 20
  timer : s.rings.que .timer = if q = some .timer then [loopAlarm] else []
  handler : s.rings.que (.handler .core0) = if q = some (.handler .core0) then [loopAlarm] else []
  link : s.rings.link loopAlarm = (q.map Link.member).getD .loose
  hdr : (s.cb loopAlarm).hdr = some 7
  assprc : (s.cb loopAlarm).assprc = 0
  sta : (s.cb loopAlarm).sta = q.isSome
  callback : ∀ p, q = some p → (s.cb loopAlarm).callback = p.callback
  due : q = some .timer → s.isDue loopAlarm = true
  active : s.active .core0 = frames.contains .execute

section

variable {s : TimeSys}

theorem looping_distribute (h : Looping s [.tick 20] (some .timer)) :
    ∃ t, (tickMachine ⟨0, 1⟩).step s .tickRound = some t ∧
      Looping t [.execute, .tick 20] (some (.handler .core0)) := by
  have hstep : (tickMachine ⟨0, 1⟩).step s .tickRound = some (s.knlTimerHandler 20) := by
    simp [tickMachine, TimeSys.step, h.stack0]
  have hque : s.rings.que .timer = [loopAlarm] := h.timer
  have hdue : knlAbstimReached 20 (s.cb loopAlarm).time = true := by
    have := h.due rfl
    rwa [TimeSys.isDue, h.cur] at this
  have hcb : (s.cb loopAlarm).callback = .distribute := h.callback _ rfl
  have hrun : s.knlTimerHandler 20 =
      ({ s with rings := s.rings.remove loopAlarm } : TimeSys).knlDistribute .core0 loopAlarm := by
    simp [TimeSys.knlTimerHandler, hque, hdue, TimeSys.runCallback, hcb]
  refine ⟨_, hstep, ?_⟩
  rw [hrun]
  have hlink : s.rings.link loopAlarm = .member .timer := h.link
  have hidle : s.active .core0 = false := h.active
  have hcur : s.currentTime.toUInt32 = 20 := h.cur
  have hhandler : s.rings.que (.handler .core0) = [] := h.handler
  constructor <;>
    simp [TimeSys.knlDistribute, TimeSys.knlEnqueueTimehandler, TimeSys.push, TimeSys.setCb,
      TimeSys.cur, TimeQue.callback, Rings.remove, Rings.insertLast, Rings.insertAt, h.assprc,
      h.stack0, h.stack1, h.hdr, h.sta, hidle, hlink, hque, hcur, hhandler]

theorem looping_run (h : Looping s [.execute, .tick 20] (some (.handler .core0))) :
    ∃ t, (tickMachine ⟨0, 1⟩).step s (.executeRound .core0) = some t ∧
      Looping t [.body loopAlarm, .execute, .tick 20] none := by
  have hstep : (tickMachine ⟨0, 1⟩).step s (.executeRound .core0) =
      some (s.knlTimehandlerExecute .core0) := by
    simp [tickMachine, TimeSys.step, h.stack0]
  have hque : s.rings.que (.handler .core0) = [loopAlarm] := h.handler
  have htimer : s.rings.que .timer = [] := h.timer
  have hlink : s.rings.link loopAlarm = .member (.handler .core0) := h.link
  have hcb : (s.cb loopAlarm).callback = .call := h.callback _ rfl
  have hkind : loopAlarm.kind = .alm := rfl
  have hactive : s.active .core0 = true := h.active
  have hcur : s.currentTime.toUInt32 = 20 := h.cur
  refine ⟨_, hstep, ?_⟩
  constructor <;>
    simp [TimeSys.knlTimehandlerExecute, TimeSys.runCallback, TimeSys.knlCallAlmhdr,
      TimeSys.callUserHandler, TimeSys.note, TimeSys.push, TimeSys.setSta, TimeSys.setCb,
      TimeSys.cur, Rings.remove, h.stack0, h.stack1, h.hdr, h.assprc, hque, htimer, hlink, hcb,
      hkind, hactive, hcur]

theorem looping_start (h : Looping s [.body loopAlarm, .execute, .tick 20] none) :
    ∃ t, (tickMachine ⟨0, 1⟩).step s (.call .core0 (.tkStaAlm 1 0x7FFFFFFF)) = some t ∧
      Looping t [.body loopAlarm, .execute, .tick 20] (some .timer) := by
  have hstep : (tickMachine ⟨0, 1⟩).step s (.call .core0 (.tkStaAlm 1 0x7FFFFFFF)) =
      some (s.tkStaAlm ⟨0, 1⟩ .core0 1 0x7FFFFFFF).2 := by
    simp [tickMachine, TimeSys.step, TimeSys.lockFree, TimeSys.holds, h.stack0, h.stack1,
      TimeSys.call]
  have hhandler : s.rings.que (.handler .core0) = [] := h.handler
  have htimer : s.rings.que .timer = [] := h.timer
  have hlink : s.rings.link loopAlarm = .loose := h.link
  have hsta : (s.cb loopAlarm).sta = false := h.sta
  have hactive : s.active .core0 = true := h.active
  have hcur : s.currentTime.toUInt32 = 20 := h.cur
  have hcall : (s.tkStaAlm ⟨0, 1⟩ .core0 1 0x7FFFFFFF).2 =
      ((s.note (.started loopAlarm (s.life loopAlarm))).knlAlmTimerInsert loopAlarm
        0x7FFFFFFF).setSta loopAlarm true := by
    have hok : TimeSys.reltimOk 0x7FFFFFFF = true := rfl
    have hhdr : (⟨.alm, 0⟩ : Hdr) = loopAlarm := rfl
    have hpos : (0 : ABSTIM) < 0x7FFFFFFF := by decide
    simp [TimeSys.tkStaAlm, TimeSys.withHdr, TimeSys.cancel, hok, hhdr, h.hdr, hsta, hpos]
  refine ⟨_, hstep, ?_⟩
  rw [hcall]
  constructor <;>
    simp [TimeSys.note, TimeSys.knlAlmTimerInsert, TimeSys.knlTimerInsertAbs,
      TimeSys.knlEnqueueTmeb, TimeSys.setSta, TimeSys.setCb, TimeSys.cur, TimeSys.isDue,
      TimeQue.callback, Rings.insertBefore, Rings.insertAt, h.stack0, h.stack1, h.hdr, h.assprc,
      htimer, hhandler, hlink, hactive, hcur]
  decide

theorem looping_return (h : Looping s [.body loopAlarm, .execute, .tick 20] (some .timer)) :
    ∃ t, (tickMachine ⟨0, 1⟩).step s (.bodyRet .core0) = some t ∧
      Looping t [.execute, .tick 20] (some .timer) := by
  have hstep : (tickMachine ⟨0, 1⟩).step s (.bodyRet .core0) = some (s.pop .core0) := by
    simp [tickMachine, TimeSys.step, TimeSys.lockFree, TimeSys.holds, h.stack0, h.stack1]
  refine ⟨_, hstep, ?_, ?_, h.cur, h.timer, h.handler, h.link, h.hdr, h.assprc, h.sta,
    h.callback, h.due, h.active⟩
  · simp [TimeSys.pop, h.stack0]
  · simp [TimeSys.pop, h.stack1]

theorem looping_idle (h : Looping s [.execute, .tick 20] (some .timer)) :
    ∃ t, (tickMachine ⟨0, 1⟩).step s (.executeRound .core0) = some t ∧
      Looping t [.tick 20] (some .timer) := by
  have hstep : (tickMachine ⟨0, 1⟩).step s (.executeRound .core0) =
      some (s.knlTimehandlerExecute .core0) := by
    simp [tickMachine, TimeSys.step, h.stack0]
  have hque : s.rings.que (.handler .core0) = [] := h.handler
  have hround : s.knlTimehandlerExecute .core0 =
      ({ s with active := s.active.set .core0 false } : TimeSys).pop .core0 := by
    simp [TimeSys.knlTimehandlerExecute, hque]
  refine ⟨_, hstep, ?_⟩
  rw [hround]
  refine ⟨?_, ?_, h.cur, h.timer, h.handler, h.link, h.hdr, h.assprc, h.sta, h.callback, h.due, ?_⟩
  · simp [TimeSys.pop, h.stack0]
  · simp [TimeSys.pop, h.stack1]
  · simp [TimeSys.pop]

/-- What holds of the states of the run. -/
def LoopAt (n : Nat) (s : TimeSys) : Prop :=
  match n % 5 with
  | 0 => Looping s [.tick 20] (some .timer)
  | 1 => Looping s [.execute, .tick 20] (some (.handler .core0))
  | 2 => Looping s [.body loopAlarm, .execute, .tick 20] none
  | 3 => Looping s [.body loopAlarm, .execute, .tick 20] (some .timer)
  | _ => Looping s [.execute, .tick 20] (some .timer)

theorem loopAt_next (n : Nat) (s : TimeSys) (h : LoopAt n s) :
    ∃ t, (tickMachine ⟨0, 1⟩).step s (loopEvent n) = some t ∧ LoopAt (n + 1) t := by
  have hcase : n % 5 = 0 ∨ n % 5 = 1 ∨ n % 5 = 2 ∨ n % 5 = 3 ∨ n % 5 = 4 := by omega
  have hsucc : (n + 1) % 5 = (n % 5 + 1) % 5 := by omega
  simp only [LoopAt, loopEvent, hsucc] at h ⊢
  rcases hcase with hn | hn | hn | hn | hn
  all_goals rw [hn] at h ⊢
  · exact looping_distribute h
  · exact looping_run h
  · exact looping_start h
  · exact looping_return h
  · exact looping_idle h

/-- The second tick. -/
theorem looping_tick :
    ∃ t, (tickMachine ⟨0, 1⟩).exec (fun _ _ => true) timerBoot loopStart = some t ∧
      LoopAt 0 t := by
  have hsome : ((tickMachine ⟨0, 1⟩).exec (fun _ _ => true) timerBoot loopStart).any
      (fun t => decide (t.stack .core0 = [.tick 20] ∧
        t.stack .core1 = [] ∧ t.cur = 20 ∧ t.rings.que .timer = [loopAlarm] ∧
        t.rings.que (.handler .core0) = [] ∧ t.rings.link loopAlarm = .member .timer ∧
        (t.cb loopAlarm).hdr = some 7 ∧ (t.cb loopAlarm).assprc = 0 ∧
        (t.cb loopAlarm).sta = true ∧ (t.cb loopAlarm).callback = .distribute ∧
        t.isDue loopAlarm = true ∧ t.active .core0 = false)) = true := by decide +kernel
  cases hx : (tickMachine ⟨0, 1⟩).exec (fun _ _ => true) timerBoot loopStart with
  | none => simp [hx] at hsome
  | some t =>
    simp only [hx, Option.any_some, decide_eq_true_eq] at hsome
    obtain ⟨h0, h1, hcur, htimer, hhandler, hlink, hhdr, hass, hsta, hcb, hdue, hact⟩ := hsome
    refine ⟨t, rfl, h0, h1, hcur, htimer, hhandler, hlink, hhdr, hass, hsta, ?_, fun _ => hdue,
      hact⟩
    rintro p ⟨⟩
    exact hcb

/-- The loop of the second tick takes the alarm off again and again. -/
theorem tick_rounds_endless : ¬ ∀ (k : TimeCfg) (p : (tickMachine k).Path) (n : Nat),
    p.event n = .tick → (tickRounds p n).Finite := by
  intro hall
  obtain ⟨t, hexec, hloop⟩ := looping_tick
  obtain ⟨p, hp⟩ := Lts.Path.of_trace (L := tickMachine ⟨0, 1⟩) ⟨_, rfl⟩ loopStart hexec loopEvent
    LoopAt hloop loopAt_next
  have hevent : ∀ n, p.event (n + 5) = loopEvent n := by
    intro n
    have hlen : loopStart.length = 5 := rfl
    rw [hp]
    simp [hlen]
  have hinf : ∀ n, 5 * n + 5 ∈ tickRounds p 4 := by
    intro n
    refine ⟨by omega, ?_, fun j hj _ he => ?_⟩
    · show p.event (5 * n + 5) = .tickRound
      rw [hevent, loopEvent, Nat.mul_mod_right]
      rfl
    · obtain ⟨i, rfl⟩ : ∃ i, j = i + 5 := ⟨j - 5, by omega⟩
      rw [hevent, loopEvent] at he
      split at he <;> cases he
  refine (Set.infinite_of_injective_forall_mem (f := fun n => 5 * n + 5) ?_ hinf)
    (hall _ p 4 (by rw [hp]; rfl))
  intro a b hab
  dsimp only at hab
  omega

end

end Mtk3Smp
