import Mtk3Smp.Kernel.State
import Mtk3Smp.Lib.Rings
import Mtk3Smp.Lib.Lts

/-!
# Cyclic and alarm handlers

`time_calls.c` and the loop of `knl_timer_handler` (`timer.c`). The kernel lock is held all the
time but for the wait before it is taken and while the user function of a handler runs, so a
step is a call up to that point, or one round of a loop. A core is in the code of its innermost
frame; it holds the lock when this is a loop.
-/

namespace Mtk3Smp

/-- ABSTIM and RELTIM, which wrap around. -/
abbrev ABSTIM := UInt32

def ABSTIM_DIFF_MIN : ABSTIM := 0x7FFFFFFF
def TIMER_PERIOD : ABSTIM := 10
def TP_PRC2 : Nat := 2
def ALL_CORE_BIT : Nat := 3

/-- `knl_abstim_reached` -/
def knlAbstimReached (curtim evttim : ABSTIM) : Bool := curtim - evttim ≤ ABSTIM_DIFF_MIN

inductive HdrKind
  | cyc
  | alm
  deriving DecidableEq, Repr

/-- A CYCCB or an ALMCB by its index in its table, and its TMEB. -/
structure Hdr where
  kind : HdrKind
  idx : Nat
  deriving DecidableEq, Repr

/-- `knl_timer_queue` and `knl_handler_queue[].queue`. -/
inductive TimeQue
  | timer
  | handler (c : Core)
  deriving DecidableEq, Repr

/-- The callback of a TMEB: knl_distribute_cychdr and knl_distribute_almhdr, or knl_call_cychdr
and knl_call_almhdr. -/
inductive Cback
  | distribute
  | call
  deriving DecidableEq, Repr

/-- CYCCB and ALMCB: `hdr` is `cychdr` or `almhdr`, none for an unregistered handler, and `sta`
is TCYC_STA or TALM_STA. -/
structure HdrCb where
  hdr : Option Nat
  exinf : Nat
  /-- `cycatr & TA_PHS` -/
  phs : Bool
  sta : Bool
  cyctim : ABSTIM
  assprc : Nat
  /-- the TMEB -/
  time : ABSTIM
  callback : Cback

/-- What runs on a core. -/
inductive TimeFrame
  /-- the loop of `knl_timer_handler` -/
  | tick (cur : ABSTIM)
  /-- `knl_timehandler_ipi`, before it has the kernel lock -/
  | ipi
  /-- the loop of `knl_timehandler_execute` -/
  | execute
  /-- the user function of a handler, without the kernel lock -/
  | body (h : Hdr)
  deriving DecidableEq, Repr

/-- What has happened to handlers; a start and a callback carry the number of times that the
control block has been created. -/
inductive TimeLog
  | started (h : Hdr) (life : Nat)
  /-- by tk_stp_cyc, tk_del_cyc, tk_stp_alm or tk_del_alm -/
  | stopped (h : Hdr)
  /-- the snapshot for the user function is taken -/
  | begun (h : Hdr) (life : Nat) (hdr : Option Nat) (exinf : Nat)
  deriving DecidableEq, Repr

structure TimeSys where
  /-- `knl_current_time` -/
  currentTime : UInt64
  cb : Hdr → HdrCb
  /-- `knl_free_cyccb` and `knl_free_almcb` -/
  free : HdrKind → List Nat
  rings : Rings TimeQue Hdr
  /-- `knl_handler_queue[].active` -/
  active : PerCore Bool
  /-- KNL_IPI_TIME_HANDLER in `knl_ipi_pending[]` -/
  pending : PerCore Bool
  /-- the frames of each core, innermost first -/
  stack : PerCore (List TimeFrame)
  /-- history: events put on the queue of a core are numbered; those put there, executed and taken
  off, in order, and the number of a queued one -/
  count : Nat
  number : Hdr → Nat
  placed : PerCore (List Nat)
  executed : PerCore (List Nat)
  cancelled : PerCore (List Nat)
  /-- history: the times a control block has been created, and what has happened, newest first -/
  life : Hdr → Nat
  log : List TimeLog

namespace TimeSys

variable (s : TimeSys)

def setCb (h : Hdr) (cb : HdrCb) : TimeSys := { s with cb := Function.update s.cb h cb }

def setSta (h : Hdr) (sta : Bool) : TimeSys := s.setCb h { s.cb h with sta }

def setTime (h : Hdr) (time : ABSTIM) : TimeSys := s.setCb h { s.cb h with time }

def push (c : Core) (f : TimeFrame) : TimeSys := { s with stack := s.stack.set c (f :: s.stack c) }

def pop (c : Core) : TimeSys := { s with stack := s.stack.set c (s.stack c).tail }

def note (e : TimeLog) : TimeSys := { s with log := e :: s.log }

/-- `lltoul(knl_current_time)` -/
def cur : ABSTIM := s.currentTime.toUInt32

/-! ## `timer.c` -/

/-- `knl_enqueue_tmeb` -/
def knlEnqueueTmeb (h : Hdr) : TimeSys :=
  let ofs := s.cur - ABSTIM_DIFF_MIN
  { s with
    rings := s.rings.insertBefore .timer (fun q => (s.cb h).time - ofs < (s.cb q).time - ofs) h }

/-- `knl_timer_insert_abs` -/
def knlTimerInsertAbs (h : Hdr) (time : ABSTIM) (callback : Cback) : TimeSys :=
  (s.setCb h { s.cb h with time, callback }).knlEnqueueTmeb h

/-- `knl_timer_delete` -/
def knlTimerDelete (h : Hdr) : TimeSys :=
  let cancelled :=
    match s.rings.link h with
    | .member (.handler c) => s.cancelled.set c (s.cancelled c ++ [s.number h])
    | _ => s.cancelled
  { s with rings := s.rings.remove h, cancelled }

/-- `knl_cyc_next_time` -/
def knlCycNextTime (h : Hdr) : ABSTIM :=
  let cb := s.cb h
  let tm := cb.time + cb.cyctim
  if knlAbstimReached s.cur tm then ((s.cur - cb.time) / cb.cyctim + 1) * cb.cyctim + cb.time else tm

/-- `knl_cyc_timer_insert` -/
def knlCycTimerInsert (h : Hdr) (tm : ABSTIM) : TimeSys := s.knlTimerInsertAbs h tm .distribute

/-- `knl_alm_timer_insert` -/
def knlAlmTimerInsert (h : Hdr) (reltim : ABSTIM) : TimeSys :=
  s.knlTimerInsertAbs h (s.cur + reltim + TIMER_PERIOD) .distribute

/-! ## `time_calls.c`: calling handlers; `self` is the core that runs the code -/

/-- The snapshot of a handler and `knl_kernel_lock_suspend`. -/
def callUserHandler (self : Core) (h : Hdr) : TimeSys :=
  (s.note (.begun h (s.life h) (s.cb h).hdr (s.cb h).exinf)).push self (.body h)

/-- `knl_call_cychdr`, up to the user function; nothing follows it but diagnostics. -/
def knlCallCychdr (self : Core) (h : Hdr) : TimeSys :=
  (s.knlCycTimerInsert h (s.knlCycNextTime h)).callUserHandler self h

/-- `knl_call_almhdr` -/
def knlCallAlmhdr (self : Core) (h : Hdr) : TimeSys :=
  (s.setSta h false).callUserHandler self h

/-- `knl_enqueue_timehandler` -/
def knlEnqueueTimehandler (self core : Core) (h : Hdr) (callback : Cback) : TimeSys :=
  let s := s.setCb h { s.cb h with callback }
  let s :=
    { s with
      rings := s.rings.insertLast (.handler core) h
      count := s.count + 1
      number := Function.update s.number h s.count
      placed := s.placed.set core (s.placed core ++ [s.count]) }
  if s.active core then s
  else
    let s := { s with active := s.active.set core true }
    if core = self then s.push self .execute else { s with pending := s.pending.set core true }

/-- The core of TP_PRC2 in `assprc`. -/
def hdrCore (assprc : Nat) : Core := if assprc &&& TP_PRC2 ≠ 0 then .core1 else .core0

/-- `knl_distribute_cychdr`, `knl_distribute_almhdr` -/
def knlDistribute (self : Core) (h : Hdr) : TimeSys :=
  let core := if (s.cb h).assprc ≠ 0 then hdrCore (s.cb h).assprc else .core0
  s.knlEnqueueTimehandler self core h .call

/-- `(*event->callback)(event->arg)` -/
def runCallback (self : Core) (h : Hdr) : TimeSys :=
  match (s.cb h).callback, h.kind with
  | .distribute, _ => s.knlDistribute self h
  | .call, .cyc => s.knlCallCychdr self h
  | .call, .alm => s.knlCallAlmhdr self h

/-- A round of `knl_timehandler_execute`. -/
def knlTimehandlerExecute (self : Core) : TimeSys :=
  match s.rings.que (.handler self) with
  | [] => { s with active := s.active.set self false }.pop self
  | event :: _ =>
    let s :=
      { s with
        rings := s.rings.remove event
        executed := s.executed.set self (s.executed self ++ [s.number event]) }
    s.runCallback self event

/-- A round of the loop of `knl_timer_handler`, which runs on core 0. -/
def knlTimerHandler (cur : ABSTIM) : TimeSys :=
  match s.rings.que .timer with
  | [] => s.pop .core0
  | event :: _ =>
    if !knlAbstimReached cur (s.cb event).time then s.pop .core0
    else { s with rings := s.rings.remove event }.runCallback .core0 event

/-- `assprc & (1UL << knl_current_core())` -/
def onCore (assprc : Nat) : Core → Bool
  | .core0 => assprc &&& 1 ≠ 0
  | .core1 => assprc &&& 2 ≠ 0

/-- `knl_immediate_call_cychdr` -/
def knlImmediateCallCychdr (self : Core) (h : Hdr) : TimeSys :=
  let assprc := (s.cb h).assprc
  if assprc ≠ 0 ∧ onCore assprc self = false then
    s.knlEnqueueTimehandler self (hdrCore assprc) h .call
  else s.knlCallCychdr self h

/-- `knl_immediate_call_almhdr` -/
def knlImmediateCallAlmhdr (self : Core) (h : Hdr) : TimeSys :=
  let s := s.setSta h false
  let assprc := (s.cb h).assprc
  if assprc ≠ 0 ∧ onCore assprc self = false then
    (s.setSta h true).knlEnqueueTimehandler self (hdrCore assprc) h .call
  else s.knlCallAlmhdr self h

end TimeSys

/-! ## Calls -/

/-- T_CCYC: `assprc` is none without TA_ASSPRC. -/
structure Ccyc where
  sta : Bool
  phs : Bool
  assprc : Option Nat
  exinf : Nat
  cychdr : Option Nat
  cyctim : ABSTIM
  cycphs : ABSTIM

/-- T_CALM -/
structure Calm where
  assprc : Option Nat
  exinf : Nat
  almhdr : Option Nat

/-- `NUM_CYCID` and `NUM_ALMID`. -/
structure TimeCfg where
  numCycid : Nat
  numAlmid : Nat

inductive TimeCall
  | tkCreCyc (pk : Ccyc)
  | tkDelCyc (cycid : Nat)
  | tkStaCyc (cycid : Nat)
  | tkStpCyc (cycid : Nat)
  | tkCreAlm (pk : Calm)
  | tkDelAlm (almid : Nat)
  | tkStaAlm (almid : Nat) (almtim : ABSTIM)
  | tkStpAlm (almid : Nat)

namespace TimeSys

variable (s : TimeSys)

/-- The checks of `assprc`: one bit of a processor. -/
def assprcOk : Option Nat → Bool
  | none => true
  | some a => a ≠ 0 ∧ a ≤ ALL_CORE_BIT ∧ a &&& (a - 1) = 0

/-- CHECK_RELTIM -/
def reltimOk (tmout : ABSTIM) : Bool := tmout < 0x80000000

/-- A call on the control block `h` with the ID `id`. -/
def withHdr (num : Nat) (kind : HdrKind) (id : Nat) (f : Hdr → TimeSys) : ER × TimeSys :=
  if id = 0 ∨ num < id then (.E_ID, s)
  else if (s.cb ⟨kind, id - 1⟩).hdr = none then (.E_NOEXS, s)
  else (.E_OK, f ⟨kind, id - 1⟩)

/-- Takes a control block off the free queue; its fields are those of `cb`. -/
def create (kind : HdrKind) (cb : HdrCb → HdrCb) (f : TimeSys → Hdr → TimeSys) :
    Except ER Nat × TimeSys :=
  match s.free kind with
  | [] => (.error .E_LIMIT, s)
  | i :: rest =>
    let h : Hdr := ⟨kind, i⟩
    let s := { s with free := Function.update s.free kind rest }
    let s := { s.setCb h (cb (s.cb h)) with life := Function.update s.life h (s.life h + 1) }
    (.ok (i + 1), f s h)

/-- tk_cre_cyc -/
def tkCreCyc (self : Core) (pk : Ccyc) : Except ER Nat × TimeSys :=
  if pk.cychdr = none ∨ pk.cyctim = 0 ∨ reltimOk pk.cyctim = false ∨ assprcOk pk.assprc = false then
    (.error .E_PAR, s)
  else
    let tm := s.cur + pk.cycphs + TIMER_PERIOD
    s.create .cyc
      (fun cb =>
        { cb with
          exinf := pk.exinf, phs := pk.phs, hdr := pk.cychdr, cyctim := pk.cyctim
          assprc := pk.assprc.getD 0, sta := pk.sta })
      fun s h =>
        if pk.sta then
          let s := s.note (.started h (s.life h))
          if pk.cycphs = 0 then (s.setTime h tm).knlImmediateCallCychdr self h
          else s.knlCycTimerInsert h tm
        else s.setTime h tm

/-- `knl_timer_delete` where the handler is started. -/
def cancel (h : Hdr) : TimeSys := if (s.cb h).sta then s.knlTimerDelete h else s

/-- A deleted control block goes back to the free queue. -/
def release (h : Hdr) : TimeSys :=
  let s := { s with free := Function.update s.free h.kind (s.free h.kind ++ [h.idx]) }
  (s.setCb h { s.cb h with hdr := none }).note (.stopped h)

variable (k : TimeCfg)

/-- tk_del_cyc -/
def tkDelCyc (cycid : Nat) : ER × TimeSys :=
  s.withHdr k.numCycid .cyc cycid fun h => (s.cancel h).release h

/-- tk_sta_cyc -/
def tkStaCyc (cycid : Nat) : ER × TimeSys :=
  s.withHdr k.numCycid .cyc cycid fun h =>
    let s' :=
      if (s.cb h).phs then
        if !(s.cb h).sta then
          let tm := (s.cb h).time
          let tm := if knlAbstimReached s.cur tm then s.knlCycNextTime h else tm
          s.knlCycTimerInsert h tm
        else s
      else
        let tm := s.cur + (s.cb h).cyctim + TIMER_PERIOD
        (s.cancel h).knlCycTimerInsert h tm
    (s'.setSta h true).note (.started h (s.life h))

/-- tk_stp_cyc -/
def tkStpCyc (cycid : Nat) : ER × TimeSys :=
  s.withHdr k.numCycid .cyc cycid fun h => ((s.cancel h).setSta h false).note (.stopped h)

/-- tk_cre_alm -/
def tkCreAlm (pk : Calm) : Except ER Nat × TimeSys :=
  if pk.almhdr = none ∨ assprcOk pk.assprc = false then (.error .E_PAR, s)
  else
    s.create .alm
      (fun cb =>
        { cb with
          exinf := pk.exinf, hdr := pk.almhdr, sta := false, assprc := pk.assprc.getD 0 })
      fun s _ => s

/-- tk_del_alm -/
def tkDelAlm (almid : Nat) : ER × TimeSys :=
  s.withHdr k.numAlmid .alm almid fun h => (s.cancel h).release h

/-- tk_sta_alm -/
def tkStaAlm (self : Core) (almid : Nat) (almtim : ABSTIM) : ER × TimeSys :=
  if almid = 0 ∨ k.numAlmid < almid then (.E_ID, s)
  else if reltimOk almtim = false then (.E_PAR, s)
  else
    s.withHdr k.numAlmid .alm almid fun h =>
      let s := (s.cancel h).note (.started h (s.life h))
      if 0 < almtim then (s.knlAlmTimerInsert h almtim).setSta h true
      else s.knlImmediateCallAlmhdr self h

/-- tk_stp_alm -/
def tkStpAlm (almid : Nat) : ER × TimeSys :=
  s.withHdr k.numAlmid .alm almid fun h => ((s.cancel h).setSta h false).note (.stopped h)

/-- The state after a call, or where its user function begins. -/
def call (self : Core) : TimeCall → TimeSys
  | .tkCreCyc pk => (s.tkCreCyc self pk).2
  | .tkDelCyc cycid => (s.tkDelCyc k cycid).2
  | .tkStaCyc cycid => (s.tkStaCyc k cycid).2
  | .tkStpCyc cycid => (s.tkStpCyc k cycid).2
  | .tkCreAlm pk => (s.tkCreAlm pk).2
  | .tkDelAlm almid => (s.tkDelAlm k almid).2
  | .tkStaAlm almid almtim => (s.tkStaAlm k self almid almtim).2
  | .tkStpAlm almid => (s.tkStpAlm k almid).2

end TimeSys

/-! ## Steps of the two cores -/

inductive TimeEvent
  /-- the timer interrupt of core 0, up to the loop -/
  | tick
  /-- a round of its loop -/
  | tickRound
  /-- `knl_ipi_take` with KNL_IPI_TIME_HANDLER in the reasons -/
  | ipiTake (c : Core)
  /-- `knl_timehandler_ipi` gets the kernel lock -/
  | ipiEnter (c : Core)
  /-- a round of `knl_timehandler_execute` -/
  | executeRound (c : Core)
  /-- a user function returns, and `knl_kernel_lock_resume` -/
  | bodyRet (c : Core)
  | call (c : Core) (a : TimeCall)

namespace TimeSys

variable (s : TimeSys)

/-- Core `c` holds the kernel lock: it is in a loop. -/
def holds (c : Core) : Bool :=
  match s.stack c with
  | .tick _ :: _ => true
  | .execute :: _ => true
  | _ => false

def lockFree : Bool := !s.holds .core0 && !s.holds .core1

/-- Interrupt handlers nest on a core in any order, and calls come from tasks, handlers and user
functions. -/
def step (k : TimeCfg) : TimeEvent → Option TimeSys
  | .tick =>
    if s.lockFree then
      let s := { s with currentTime := s.currentTime + TIMER_PERIOD.toUInt64 }
      some (s.push .core0 (.tick s.cur))
    else none
  | .tickRound =>
    match s.stack .core0 with
    | .tick cur :: _ => some (s.knlTimerHandler cur)
    | _ => none
  | .ipiTake c =>
    if s.pending c && !s.holds c then
      some ({ s with pending := s.pending.set c false }.push c .ipi)
    else none
  | .ipiEnter c =>
    match s.stack c with
    | .ipi :: _ => if s.lockFree then some ((s.pop c).push c .execute) else none
    | _ => none
  | .executeRound c =>
    match s.stack c with
    | .execute :: _ => some (s.knlTimehandlerExecute c)
    | _ => none
  | .bodyRet c =>
    match s.stack c with
    | .body _ :: _ => if s.lockFree then some (s.pop c) else none
    | _ => none
  | .call c a => if s.lockFree && (s.stack c).head? != some .ipi then some (s.call k c a) else none

/-- No handler is registered; the control blocks hold what they may. -/
def boot (k : TimeCfg) (cb : Hdr → HdrCb) : TimeSys :=
  { currentTime := 0
    cb := fun h => { cb h with hdr := none }
    free := fun kind => List.range (match kind with | .cyc => k.numCycid | .alm => k.numAlmid)
    rings := .empty
    active := .ofFn fun _ => false
    pending := .ofFn fun _ => false
    stack := .ofFn fun _ => []
    count := 0
    number := fun _ => 0
    placed := .ofFn fun _ => []
    executed := .ofFn fun _ => []
    cancelled := .ofFn fun _ => []
    life := fun _ => 0
    log := [] }

end TimeSys

def timeMachine (k : TimeCfg) : Lts TimeSys TimeEvent where
  init s := ∃ cb, s = .boot k cb
  step s e := s.step k e

end Mtk3Smp
