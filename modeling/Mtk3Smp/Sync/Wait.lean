import Mtk3Smp.Lib.RingLinks
import Mtk3Smp.Time.Handlers

/-!
# Waiting tasks and mutexes

The control blocks that `wait.c`, `wait.h` and `mutex.c` work on, and what these do to them up to
a loop or a call. `tskque` and the mutex lists are the pointers of the source. Mutexes are
modelled in full, for their priorities reach other waiting tasks; of the other objects only the
wait queue and its attribute: an object with two queues counts as two.
-/

namespace Mtk3Smp

/-- TA_TFIFO, TA_TPRI, TA_INHERIT and TA_CEILING. -/
inductive MtxAtr
  | tfifo | tpri | inherit | ceiling
  deriving DecidableEq, Repr

/-- Where `tskque` can be linked: the ready queue by priority, and the wait queues of the objects
and the mutexes. -/
inductive WaitQue
  | ready (priority : Nat)
  | wait (o : ObjId)
  | mtx (m : MtxId)
  deriving DecidableEq, Repr

/-- `wspec` and `wid`. An object with TA_TPRI, and a mutex that is not TA_TFIFO, has a
priority-change hook. -/
inductive WaitSpec
  | slp
  | dly
  /-- waiting for the end of a rendezvous -/
  | rdv
  | gcb (o : ObjId) (tpri : Bool)
  | mtx (m : MtxId) (atr : MtxAtr)
  deriving DecidableEq, Repr

/-- The queue that a task with this wait specification is in, and whether it goes by priority. -/
def WaitSpec.queue : WaitSpec → Option (WaitQue × Bool)
  | .slp | .dly | .rdv => none
  | .gcb o tpri => some (.wait o, tpri)
  | .mtx m atr => some (.mtx m, atr != .tfifo)

structure WaitTcb where
  state : TStat
  ipriority : Nat
  bpriority : Nat
  priority : Nat
  suscnt : Nat
  wupcnt : Nat
  wspec : WaitSpec
  /-- `wercd != NULL` -/
  wercd : Bool
  mtxlist : Option MtxId

structure Mtxcb where
  /-- `mtxid != 0` -/
  exists_ : Bool
  mtxatr : MtxAtr
  ceilpri : Nat
  mtxtsk : Option Tid
  mtxlist : Option MtxId

structure WaitObj where
  exists_ : Bool
  tpri : Bool

/-- The code that a waiting call returns when nothing else is written. -/
def WaitSpec.initial : WaitSpec → ER
  | .dly => .E_OK
  | _ => .E_TMOUT

/-- What ends a wait. -/
inductive Ending
  /-- a wake-up, with the outputs of the call -/
  | wake (out : Nat)
  | delete
  | relWai
  | tmout
  /-- the time of tk_dly_tsk -/
  | delay
  | ter
  deriving DecidableEq, Repr

/-- The code that the blocking call returns then. -/
def Ending.code : Ending → Option ER
  | .wake _ | .delay => some .E_OK
  | .delete => some .E_DLT
  | .relWai => some .E_RLWAI
  | .tmout => some .E_TMOUT
  | .ter => none

/-- Before: the outputs, `*tcb->wercd`, `knl_timer_delete`, QueRemove, `knl_make_non_wait`. -/
inductive RelStage
  | out | wercd | timer | que | state
  deriving DecidableEq, Repr

/-- Before: the test of the state, QueRemove, `rel_wai_hook`, `knl_signal_all_mutex`, and a round
of its loop, after which the task is made DORMANT. -/
inductive TerStage
  | state | que | hook | mutex
  | signal (next : Option MtxId)
  deriving DecidableEq, Repr

/-- Before: `knl_timer_delete`, QueRemove, the change to the rendezvous. -/
inductive AcpStage
  | timer | que | rdv
  deriving DecidableEq, Repr

/-- What the owner of the kernel lock has to do. -/
inductive Ctl
  /-- `knl_wait_release_ok`, `knl_wait_release_ng`, `knl_wait_release_tmout` or a round of
  `knl_wait_delete` -/
  | release (t : Tid) (st : RelStage) (why : Ending)
  /-- `(*tcb->wspec->rel_wai_hook)(tcb)` -/
  | relWaiHook (t : Tid)
  /-- code that may release tasks in the wait queue of an object -/
  | scan (o : ObjId)
  /-- `knl_wait_delete`, after which the object or the mutex is gone -/
  | waitDelete (q : WaitQue)
  /-- the loop of `knl_timer_handler` -/
  | timerLoop (cur : ABSTIM)
  /-- tk_acp_por: `knl_wait_cancel` and the wait for the end of the rendezvous -/
  | accept (t : Tid) (st : AcpStage)
  /-- the caller begins to wait -/
  | makeWait (t : Tid) (w : WaitSpec) (tmout : Tmo)
  /-- the loop of `knl_queue_insert_tpri` at `a` -/
  | queueInsertTpri (t : Tid) (q : WaitQue) (a : RingNode WaitQue Tid)
  /-- `knl_change_task_priority` -/
  | changeTaskPriority (t : Tid) (priority : Nat)
  /-- `(*tcb->wspec->chg_pri_hook)(tcb, oldpri)` -/
  | chgPriHook (t : Tid) (oldpri : Nat)
  /-- the part of `mtx_chg_pri` behind `knl_gcb_change_priority` -/
  | mtxChgPri (t : Tid) (oldpri : Nat)
  /-- the loop of `knl_release_mutex`: `prev` points to the list of `t` or to that of a mutex -/
  | releaseMutex (t : Tid) (rel prev : Option MtxId) (newpri pri : Nat)
  /-- the loop of `knl_chg_pri_mutex` in tk_chg_pri -/
  | chgPriMutex (t : Tid) (priority : Nat) (m : Option MtxId) (hiPri lowPri pri : Nat)
  /-- the end of tk_unl_mtx -/
  | unlock (t : Tid) (m : MtxId)
  /-- a mutex goes to the task that was released from its queue -/
  | handOver (m : MtxId) (t : Tid)
  /-- `knl_ter_tsk`, and `knl_make_dormant` or the end of tk_exd_tsk -/
  | ter (t : Tid) (st : TerStage) (exd : Bool)
  deriving DecidableEq

/-- `t` is the target, or `self` the caller. -/
inductive WaitCall
  | tkCreTsk (t : Tid) (ipriority : Nat)
  | tkDelTsk (t : Tid)
  | tkStaTsk (t : Tid)
  | tkTerTsk (t : Tid)
  | tkExtTsk (self : Tid)
  | tkExdTsk (self : Tid)
  | tkSusTsk (t : Tid)
  | tkRsmTsk (t : Tid)
  | tkFrsmTsk (t : Tid)
  | tkSlpTsk (self : Tid) (tmout : Tmo)
  | tkDlyTsk (self : Tid) (dlytim : Nat)
  | tkWupTsk (t : Tid)
  | tkRelWai (t : Tid)
  | tkChgPri (t : Tid) (priority : Nat)
  | creObj (o : ObjId) (tpri : Bool)
  | delObj (o : ObjId)
  /-- a call that finds it has to wait for an object -/
  | waitObj (self : Tid) (o : ObjId) (tmout : Tmo)
  /-- a call that may release tasks which wait for an object -/
  | signalObj (o : ObjId)
  /-- tk_cal_por, where a task waits to accept at `o` -/
  | tkCalPor (self : Tid) (o : ObjId)
  /-- tk_acp_por, where the task at place `n` of the queue of `o` has called -/
  | tkAcpPor (o : ObjId) (n : Nat)
  /-- tk_fwd_por to `o`, where no task waits to accept -/
  | tkFwdPor (t : Tid) (o : ObjId)
  | tkRplRdv (t : Tid) (out : Nat)
  | tkCreMtx (m : MtxId) (mtxatr : MtxAtr) (ceilpri : Nat)
  | tkDelMtx (m : MtxId)
  | tkLocMtx (self : Tid) (m : MtxId) (tmout : Tmo)
  | tkUnlMtx (self : Tid) (m : MtxId)
  /-- `knl_timer_handler` -/
  | tick
  deriving DecidableEq

/-- Where a task is with its blocking call; calls that wait are numbered. -/
inductive WaitThr
  | user
  /-- it has begun to wait -/
  | blocked (n : Nat)
  /-- dispatched after that, about to return -/
  | resumed (n : Nat)
  deriving DecidableEq, Repr

structure WaitSys where
  tcb : Tid → WaitTcb
  mtxcb : MtxId → Mtxcb
  objcb : ObjId → WaitObj
  /-- `tskque` of each task and the heads of the queues -/
  links : RingLinks WaitQue Tid
  /-- `wtmeb` of each task -/
  timer : Rings Unit Tid
  time : Tid → ABSTIM
  currentTime : UInt64
  /-- the code that the last waiting call of a task is to return, and its output variables -/
  ercd : Tid → ER
  out : Tid → Nat
  /-- the owner of the kernel lock, and what it has to do; the lock is free when this is nothing -/
  core : Core
  ctl : List Ctl
  thr : Tid → WaitThr
  /-- history: the number of calls that have waited, what ended which of them, and what they have
  returned -/
  calls : Nat
  ended : List (Nat × Ending)
  returned : List (Nat × ER × Nat)
  /-- history: the number of the insertion that put a task where it is linked -/
  stamp : Tid → Nat
  stamps : Nat
  /-- history of the critical section: its call, the owners of the mutexes at its beginning, and
  the mutexes that have been given up, by whom, with the head of the wait queue at that time -/
  last : Option WaitCall
  owner₀ : MtxId → Option Tid
  given : List (MtxId × Tid × Option Tid)

namespace WaitSys

variable (s : WaitSys)

def setTcb (t : Tid) (f : WaitTcb → WaitTcb) : WaitSys :=
  { s with tcb := Function.update s.tcb t (f (s.tcb t)) }

def setMtx (m : MtxId) (f : Mtxcb → Mtxcb) : WaitSys :=
  { s with mtxcb := Function.update s.mtxcb m (f (s.mtxcb m)) }

def setObj (o : ObjId) (x : WaitObj) : WaitSys := { s with objcb := Function.update s.objcb o x }

def hasWait (t : Tid) : Bool := (s.tcb t).state.hasWait

/-- The owner of a mutex, where this exists. -/
def owner (m : MtxId) : Option Tid := if (s.mtxcb m).exists_ then (s.mtxcb m).mtxtsk else none

/-- What is left to do. -/
def next (ctl : List Ctl) : WaitSys := { s with ctl }

/-! ## `sys/queue.h` -/

def queInit (t : Tid) : WaitSys := { s with links := s.links.init t }
def queRemove (t : Tid) : WaitSys := { s with links := s.links.remove t }

def queInsert (t : Tid) (a : RingNode WaitQue Tid) : WaitSys :=
  { s with
    links := s.links.insert t a
    stamp := Function.update s.stamp t s.stamps
    stamps := s.stamps + 1 }

/-! ## `wait.h`, `task.c`, `timer.c` -/

/-- `knl_queue_insert_tpri`, and `rest` after it -/
def queueInsertTpri (t : Tid) (q : WaitQue) (rest : List Ctl) : WaitSys :=
  s.next (.queueInsertTpri t q (s.links.next (.head q)) :: rest)

/-- `knl_gcb_change_priority` -/
def gcbChangePriority (t : Tid) (q : WaitQue) (rest : List Ctl) : WaitSys :=
  (s.queRemove t).queueInsertTpri t q rest

/-- `knl_timer_delete` -/
def timerDelete (t : Tid) : WaitSys := { s with timer := s.timer.remove t }

/-- `knl_timer_insert`, with the callback `knl_wait_release_tmout` -/
def timerInsert (t : Tid) : Tmo → WaitSys
  | .after ms =>
    let tm := s.currentTime.toUInt32 + ms.toUInt32 + TIMER_PERIOD
    let ofs := s.currentTime.toUInt32 - ABSTIM_DIFF_MIN
    let s := { s with time := Function.update s.time t tm }
    { s with timer := s.timer.insertBefore () (fun x => tm - ofs < s.time x - ofs) t }
  | _ => { s with timer := s.timer.selfLink t }

/-- `knl_make_ready` -/
def makeReady (t : Tid) : WaitSys :=
  (s.setTcb t fun x => { x with state := .ready }).queInsert t (.head (.ready (s.tcb t).priority))

/-- `knl_make_dormant` -/
def makeDormant (t : Tid) : WaitSys :=
  s.setTcb t fun x =>
    { x with
      state := .dormant, priority := x.ipriority, bpriority := x.ipriority, wupcnt := 0
      suscnt := 0, wercd := false, mtxlist := none }

/-- `knl_make_non_wait` -/
def makeNonWait (t : Tid) : WaitSys :=
  if (s.tcb t).state = .wait then s.makeReady t
  else s.setTcb t fun x => { x with state := .suspend }

/-- The link of a task that begins to wait. -/
def queWait (t : Tid) (w : WaitSpec) (rest : List Ctl) : WaitSys :=
  match w.queue with
  | none => (s.queInit t).next rest
  | some (q, false) => (s.queInsert t (.head q)).next rest
  | some (q, true) => s.queueInsertTpri t q rest

/-- The part of a waiting call from `knl_ctxtsk->wspec = …` on, or `knl_gcb_make_wait`. -/
def makeWait (t : Tid) (w : WaitSpec) (tmout : Tmo) (rest : List Ctl) : WaitSys :=
  let s := s.setTcb t fun x => { x with wspec := w, wercd := true }
  let s := { s with ercd := Function.update s.ercd t w.initial }
  let s :=
    match (s.tcb t).state with
    | .ready => (s.queRemove t).setTcb t fun x => { x with state := .wait }
    | .suspend => s.setTcb t fun x => { x with state := .waitsus }
    | _ => s
  let s := { s with thr := Function.update s.thr t (.blocked s.calls), calls := s.calls + 1 }
  (s.timerInsert t tmout).queWait t w rest

/-- The wait of `t`, if it is in one, is over. -/
def ends (t : Tid) (why : Ending) : WaitSys :=
  match s.thr t with
  | .blocked n => { s with ended := s.ended ++ [(n, why)] }
  | _ => s

/-! ## `mutex.c` -/

/-- The `switch` in the loops of `knl_release_mutex` and `knl_chg_pri_mutex`. -/
def lockedPri (m : MtxId) (pri : Nat) : Nat :=
  match (s.mtxcb m).mtxatr, s.links.first (.mtx m) with
  | .ceiling, _ => (s.mtxcb m).ceilpri
  | .inherit, some x => (s.tcb x).priority
  | _, _ => pri

/-- `*prev` in `knl_release_mutex`. -/
def mtxlist (t : Tid) : Option MtxId → Option MtxId
  | none => (s.tcb t).mtxlist
  | some m => (s.mtxcb m).mtxlist

def setMtxlist (t : Tid) (prev v : Option MtxId) : WaitSys :=
  match prev with
  | none => s.setTcb t fun x => { x with mtxlist := v }
  | some m => s.setMtx m fun x => { x with mtxlist := v }

/-- `knl_release_mutex` -/
def knlReleaseMutex (t : Tid) (rel : Option MtxId) : Ctl :=
  .releaseMutex t rel none (s.tcb t).bpriority (s.tcb t).bpriority

/-- `knl_chg_pri_mutex`. The initial limit is int_priority(MIN_TSKPRI). -/
def knlChgPriMutex (t : Tid) (priority : Nat) : Ctl :=
  let lowPri :=
    match s.hasWait t, (s.tcb t).wspec with
    | true, .mtx m _ => if (s.mtxcb m).mtxatr = .ceiling then (s.mtxcb m).ceilpri else 0
    | _, _ => 0
  .chgPriMutex t priority (s.tcb t).mtxlist priority lowPri priority

/-- `t` becomes the owner of `m`. -/
def lock (m : MtxId) (t : Tid) : WaitSys :=
  let s := s.setMtx m fun x => { x with mtxtsk := some t, mtxlist := (s.tcb t).mtxlist }
  s.setTcb t fun x => { x with mtxlist := some m }

/-- The new owner of `m` is raised to its highest priority limit. -/
def raise (m : MtxId) (t : Tid) : List Ctl :=
  if (s.mtxcb m).mtxatr = .ceiling ∧ (s.mtxcb m).ceilpri < (s.tcb t).priority then
    [.changeTaskPriority t (s.mtxcb m).ceilpri]
  else []

/-- `t` gives up `m`: it is the turn of the first task that waits for it. -/
def giveUp (m : MtxId) (t : Tid) (rest : List Ctl) : WaitSys :=
  let s := { s with given := s.given ++ [(m, t, s.links.first (.mtx m))] }
  match s.links.first (.mtx m) with
  | some x => s.next (.release x .wercd (.wake (s.out x)) :: .handOver m x :: rest)
  | none => (s.setMtx m fun x => { x with mtxtsk := none }).next rest

/-! ## The code under the kernel lock -/

/-- One write or call; `rest` comes after it. The write of a code to NULL is the last thing that
a core does, and so is an insertion that has strayed into another queue. -/
def exec : Ctl → List Ctl → WaitSys
  | .release t .out why, rest =>
    let out := match why with | .wake v => Function.update s.out t v | _ => s.out
    { s with out }.next (.release t .wercd why :: rest)
  | .release t .wercd why, rest =>
    if !(s.tcb t).wercd then s
    else
      let ercd := match why.code with | some e => Function.update s.ercd t e | none => s.ercd
      { s with ercd }.next (.release t .timer why :: rest)
  | .release t .timer why, rest => (s.timerDelete t).next (.release t .que why :: rest)
  | .release t .que why, rest => (s.queRemove t).next (.release t .state why :: rest)
  | .release t .state why, rest =>
    ((s.ends t why).makeNonWait t).next
      (match why with
      | .relWai | .tmout | .delay => .relWaiHook t :: rest
      | _ => rest)
  | .relWaiHook t, rest =>
    match (s.tcb t).wspec with
    | .gcb o _ => s.next (.scan o :: rest)
    | .mtx m .inherit =>
      match (s.mtxcb m).mtxtsk with
      | some u =>
        s.next
          (if (s.tcb u).priority = (s.tcb t).priority then s.knlReleaseMutex u none :: rest
          else rest)
      | none => s.next rest
    | _ => s.next rest
  | .scan _, rest => s.next rest
  | .waitDelete q, rest =>
    match s.links.first q with
    | some t => s.next (.release t .wercd .delete :: .waitDelete q :: rest)
    | none =>
      match q with
      | .ready _ => s.next rest
      | .wait o => (s.setObj o { s.objcb o with exists_ := false }).next rest
      | .mtx m => (s.setMtx m fun x => { x with exists_ := false }).next rest
  | .timerLoop cur, rest =>
    match s.timer.que () with
    | [] => s.next rest
    | t :: _ =>
      if !knlAbstimReached cur (s.time t) then s.next rest
      else
        let why := if (s.tcb t).wspec = .dly then .delay else .tmout
        (s.timerDelete t).next (.release t .que why :: .timerLoop cur :: rest)
  | .accept t .timer, rest => (s.timerDelete t).next (.accept t .que :: rest)
  | .accept t .que, rest => (s.queRemove t).next (.accept t .rdv :: rest)
  | .accept t .rdv, rest =>
    ((s.setTcb t fun x => { x with wspec := .rdv }).timerInsert t .TMO_FEVR).queWait t .rdv rest
  | .makeWait t w tmout, rest => s.makeWait t w tmout rest
  | .queueInsertTpri t q (.node x), rest =>
    if (s.tcb t).priority < (s.tcb x).priority then (s.queInsert t (.node x)).next rest
    else s.next (.queueInsertTpri t q (s.links.next (.node x)) :: rest)
  | .queueInsertTpri t q (.head p), rest =>
    if p = q then (s.queInsert t (.head q)).next rest else s
  | .changeTaskPriority t priority, rest =>
    if (s.tcb t).state = .ready then
      let s := (s.queRemove t).setTcb t fun x => { x with priority := priority }
      (s.queInsert t (.head (.ready priority))).next rest
    else
      let oldpri := (s.tcb t).priority
      let s := s.setTcb t fun x => { x with priority := priority }
      s.next (if s.hasWait t then .chgPriHook t oldpri :: rest else rest)
  | .chgPriHook t oldpri, rest =>
    match (s.tcb t).wspec with
    | .gcb o true => s.gcbChangePriority t (.wait o) (.scan o :: rest)
    | .mtx m atr =>
      if atr = .tfifo then s.next rest
      else s.gcbChangePriority t (.mtx m) (.mtxChgPri t oldpri :: rest)
    | _ => s.next rest
  | .mtxChgPri t oldpri, rest =>
    match (s.tcb t).wspec with
    | .mtx m _ =>
      match (s.mtxcb m).mtxatr, (s.mtxcb m).mtxtsk with
      | .inherit, some u =>
        if (s.tcb t).priority < (s.tcb u).priority then
          s.next (.changeTaskPriority u (s.tcb t).priority :: rest)
        else if (s.tcb u).priority = oldpri then s.next (s.knlReleaseMutex u none :: rest)
        else s.next rest
      | _, _ => s.next rest
    | _ => s.next rest
  | .releaseMutex t rel prev newpri pri, rest =>
    match s.mtxlist t prev with
    | some m =>
      if rel = some m then
        (s.setMtxlist t prev (s.mtxcb m).mtxlist).next (.releaseMutex t rel prev newpri pri :: rest)
      else
        let pri := s.lockedPri m pri
        let newpri := if pri < newpri then pri else newpri
        s.next (.releaseMutex t rel (some m) newpri pri :: rest)
    | none =>
      s.next (if newpri = (s.tcb t).priority then rest else .changeTaskPriority t newpri :: rest)
  | .chgPriMutex t priority (some m) hiPri lowPri pri, rest =>
    let pri := s.lockedPri m pri
    let lowPri := if (s.mtxcb m).mtxatr = .ceiling then max lowPri pri else lowPri
    let hiPri := if pri < hiPri then pri else hiPri
    s.next (.chgPriMutex t priority (s.mtxcb m).mtxlist hiPri lowPri pri :: rest)
  | .chgPriMutex t priority none hiPri lowPri _, rest =>
    if priority < lowPri then s.next rest
    else
      (s.setTcb t fun x => { x with bpriority := priority }).next
        (.changeTaskPriority t hiPri :: rest)
  | .unlock t m, rest => s.giveUp m t rest
  | .handOver m t, rest =>
    let s := s.lock m t
    s.next (s.raise m t ++ rest)
  | .ter t .state exd, rest =>
    match (s.tcb t).state with
    | .ready => (s.queRemove t).next (.ter t .mutex exd :: rest)
    | .wait | .waitsus => (s.timerDelete t).next (.ter t .que exd :: rest)
    | _ => s.next (.ter t .mutex exd :: rest)
  | .ter t .que exd, rest => (s.queRemove t).next (.ter t .hook exd :: rest)
  | .ter t .hook exd, rest => s.next (.relWaiHook t :: .ter t .mutex exd :: rest)
  | .ter t .mutex exd, rest => s.next (.ter t (.signal (s.tcb t).mtxlist) exd :: rest)
  | .ter t (.signal (some m)) exd, rest =>
    s.giveUp m t (.ter t (.signal (s.mtxcb m).mtxlist) exd :: rest)
  | .ter t (.signal none) exd, rest =>
    let s := if s.hasWait t then s.ends t .ter else s
    (if exd then s.setTcb t fun x => { x with state := .nonexist } else s.makeDormant t).next rest

end WaitSys

end Mtk3Smp
