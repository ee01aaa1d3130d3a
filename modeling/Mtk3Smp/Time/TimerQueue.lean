import Mtk3Smp.Lib.KeyOrder
import Mtk3Smp.Lib.WrapClock
import Mtk3Smp.Time.Handlers

/-!
# The timer queue

`timer.c` with the time that has really passed beside the 32-bit times of the code. The
callbacks of `knl_timer_handler` may put events on the queue and take them off, so a round of
its loop is a step of its own.
-/

namespace Mtk3Smp

open WrapClock

/-- TMO -/
abbrev TMO := Int32

def TMO_FEVR : TMO := -1

/-- An event whose callback has been called: when it was due, and when that was. -/
structure Firing (E : Type) where
  event : E
  due : Nat
  called : Nat
  deriving DecidableEq, Repr

/-- `E` are the timer event blocks. -/
structure TimerQue (E : Type) where
  /-- `knl_current_time` -/
  currentTime : UInt64
  /-- `knl_timer_queue` -/
  queue : List E
  /-- `event->time` -/
  time : E → ABSTIM
  /-- `cur` of `knl_timer_handler`, while that runs -/
  cur : Option ABSTIM
  /-- history: the time, when each event is to expire, and the callbacks, newest first -/
  now : Nat
  due : E → Nat
  fired : List (Firing E)

inductive TimerEvent (E : Type)
  /-- `knl_timer_insert`, after CHECK_TMOUT -/
  | insert (event : E) (tmout : TMO)
  /-- `knl_timer_insert_reltim`, after CHECK_RELTIM -/
  | insertReltim (event : E) (tmout : ABSTIM)
  /-- `knl_timer_insert_abs` -/
  | insertAbs (event : E) (time : ABSTIM)
  /-- `knl_timer_delete` -/
  | delete (event : E)
  /-- the timer interrupt of a core, up to the loop -/
  | tick (core : Core)
  /-- a round of the loop -/
  | round

namespace TimerQue

variable {E : Type} [DecidableEq E] (s : TimerQue E)

/-- `lltoul(knl_current_time)` -/
def curTime : ABSTIM := s.currentTime.toUInt32

/-- `knl_enqueue_tmeb` -/
def knlEnqueueTmeb (event : E) : TimerQue E :=
  let ofs := s.curTime - ABSTIM_DIFF_MIN
  { s with queue := KeyOrder.insert (fun q => (s.time q - ofs).toNat) event s.queue }

/-- `event->time`, for an event that is to expire at `due`. -/
def setTime (event : E) (time : ABSTIM) (due : Nat) : TimerQue E :=
  { s with
    time := Function.update s.time event time
    due := Function.update s.due event due }

/-- `knl_timer_insert` -/
def knlTimerInsert (event : E) (tmout : TMO) : TimerQue E :=
  if tmout = TMO_FEVR then s
  else
    let time := s.curTime + tmout.toUInt32 + TIMER_PERIOD
    (s.setTime event time (s.now + tmout.toNatClampNeg + TIMER_PERIOD.toNat)).knlEnqueueTmeb event

/-- `knl_timer_insert_reltim` -/
def knlTimerInsertReltim (event : E) (tmout : ABSTIM) : TimerQue E :=
  let time := s.curTime + tmout + TIMER_PERIOD
  (s.setTime event time (s.now + tmout.toNat + TIMER_PERIOD.toNat)).knlEnqueueTmeb event

/-- `knl_timer_insert_abs`: `time` is the next time at which the clock shows it. -/
def knlTimerInsertAbs (event : E) (time : ABSTIM) : TimerQue E :=
  (s.setTime event time (s.now + (time - s.curTime).toNat)).knlEnqueueTmeb event

/-- `knl_timer_handler` up to the loop; only core 0 keeps the time. -/
def knlTimerHandler (core : Core) : TimerQue E :=
  if core ≠ .core0 then s
  else
    let s :=
      { s with
        currentTime := s.currentTime + TIMER_PERIOD.toUInt64
        now := s.now + TIMER_PERIOD.toNat }
    { s with cur := some s.curTime }

/-- A round of the loop of `knl_timer_handler`. -/
def round (cur : ABSTIM) : TimerQue E :=
  match s.queue with
  | [] => { s with cur := none }
  | event :: rest =>
    if !knlAbstimReached cur (s.time event) then { s with cur := none }
    else { s with queue := rest, fired := ⟨event, s.due event, s.now⟩ :: s.fired }

/-- An event is put on the queue only while it is off it; the interrupt does not nest. -/
def step : TimerEvent E → Option (TimerQue E)
  | .insert event tmout =>
    if event ∉ s.queue ∧ TMO_FEVR ≤ tmout then some (s.knlTimerInsert event tmout) else none
  | .insertReltim event tmout =>
    if event ∉ s.queue ∧ TimeSys.reltimOk tmout then some (s.knlTimerInsertReltim event tmout)
    else none
  | .insertAbs event time => if event ∉ s.queue then some (s.knlTimerInsertAbs event time) else none
  | .delete event => some { s with queue := s.queue.erase event }
  | .tick core => if s.cur = none then some (s.knlTimerHandler core) else none
  | .round => s.cur.map s.round

/-- `knl_timer_startup`, at any current time. -/
def Started : Prop :=
  s.currentTime = UInt64.ofNat s.now ∧ s.queue = [] ∧ s.cur = none ∧ s.fired = []

end TimerQue

/-- The timer queue under its operations and ticks. -/
def timerMachine (E : Type) [DecidableEq E] : Lts (TimerQue E) (TimerEvent E) where
  init := TimerQue.Started
  step := TimerQue.step

end Mtk3Smp
