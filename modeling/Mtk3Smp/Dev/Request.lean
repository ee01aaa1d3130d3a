import Mtk3Smp.Dev.Open

/-!
# Requests of open devices

tk_rea_dev, tk_wri_dev, tk_wai_dev and tk_cls_dev on open descriptors, and `knl_devmgr_cleanup`
(`deviceio.c`), by any number of tasks. What runs between LockDM and UnlockDM is one step; the
driver's execfn and waitfn run outside the lock, and their returns are steps of their own. Of the
request packet there are the fields that the device manager works with.
-/

namespace Mtk3Smp

/-- ReqCB; the blocks are named by their index, `opncb` and `next` are none for NULL, and `tskid`
for 0. -/
structure ReqCb where
  opncb : Option Nat
  tskid : Option Tid
  next : Option Nat
  abort : Bool

/-- The part of OpnCB that concerns the requests; `sem` is the count of the semaphore
`abort_semid`, none when it is deleted, and `listed` says that the block is on the queue of the
resource manager. -/
structure OpnReq where
  resid : Bool
  omode : Omode
  requestq : List Nat
  waitone : Int
  nwaireq : Nat
  waireqlst : Option Nat
  abortTskid : Option Tid
  abortCnt : Int
  sem : Option Nat
  listed : Bool

/-- The errors; `driver` is one that the driver returned. -/
inductive ReqErr
  | E_ID | E_OACV | E_LIMIT | E_OBJ | E_NOEXS | E_SYS
  | driver (ercd : Int)
  deriving DecidableEq, Repr

/-- Where a task is; `d` is its descriptor. -/
inductive ReqPc
  | idle
  /-- in execfn for the request `i` -/
  | exec (d i : Nat)
  /-- in waitfn, for any request (`reqid` is none) or for one, with the list and its length -/
  | wait (d : Nat) (reqid : Option Nat) (devreq nreq : Nat)
  /-- before the first LockDM of `abort_allrequest` -/
  | abort (d : Nat)
  /-- `opncb->abort_cnt` is to be tested -/
  | check (d : Nat)
  /-- in tk_wai_sem -/
  | waiSem (d : Nat)
  /-- `opncb->abort_tskid` is to be cleared -/
  | clear (d : Nat)
  /-- before the last LockDM of `abort_allrequest` -/
  | rest (d : Nat)
  /-- in waitfn for the remaining request `i` -/
  | aborted (d i : Nat)
  /-- `abort_allrequest` has returned -/
  | done (d : Nat)
  deriving DecidableEq

structure ReqSys where
  reqcb : Nat → ReqCb
  /-- `knl_FreeReqCB` -/
  free : List Nat
  opn : Nat → OpnReq
  pc : Tid → ReqPc
  /-- what the last call of a task has returned -/
  result : Tid → Option (Except ReqErr Nat)
  /-- history: how often a block was taken from the free queue and put back -/
  taken : Nat → Nat
  freed : Nat → Nat

inductive ReqEvent
  /-- tk_rea_dev or tk_wri_dev up to execfn; `ignore`: `start` is in the range for which the open
  mode does not count -/
  | request (t : Tid) (d : Nat) (read ignore : Bool)
  /-- execfn returns -/
  | execReturn (t : Tid) (ercd : Int)
  /-- tk_wai_dev up to waitfn; `reqid` is 0 for any request -/
  | waiDev (t : Tid) (d : Nat) (reqid : Int)
  /-- waitfn returns; `walked` are the requests that the loop over `devreq` visits -/
  | waitReturn (t : Tid) (reqno : Int) (walked : List Nat)
  /-- tk_cls_dev up to knl_close_device -/
  | tkClsDev (t : Tid) (d : Nat)
  /-- a round of `knl_devmgr_cleanup` up to knl_close_device -/
  | cleanup (t : Tid) (d : Nat)
  | abortBegin (t : Tid)
  | abortCheck (t : Tid)
  | abortSem (t : Tid)
  | abortClear (t : Tid)
  | abortRest (t : Tid)
  /-- waitfn returns to `abort_allrequest` -/
  | abortReturn (t : Tid)
  /-- `knl_close_device` goes on -/
  | closeEnd (t : Tid)

/-- The links lead from `head` through the list and end. -/
def isChain (next : Nat → Option Nat) : Option Nat → List Nat → Bool
  | head, [] => head = none
  | head, i :: l => head = some i && isChain next (next i) l

/-- The list of tk_wai_dev for any request: `tskid` and `next` of the blocks on the queue. -/
def listUp (t : Tid) : List Nat → (Nat → ReqCb) → Nat → ReqCb
  | [], f => f
  | i :: l, f => listUp t l (Function.update f i { f i with tskid := some t, next := l.head? })

/-- `if ( opncb->abort_tskid > 0 && --opncb->abort_cnt == 0 ) tk_sig_sem(…)`; the semaphore counts
to 1. -/
def OpnReq.notifyAbort (o : OpnReq) : OpnReq :=
  if o.abortTskid = none then o
  else
    { o with
      abortCnt := o.abortCnt - 1
      sem := if o.abortCnt - 1 = 0 then o.sem.map fun n => min 1 (n + 1) else o.sem }

namespace ReqSys

variable (s : ReqSys)

def setPc (t : Tid) (pc : ReqPc) : ReqSys := { s with pc := Function.update s.pc t pc }

def returns (t : Tid) (r : Except ReqErr Nat) : ReqSys :=
  { s with result := Function.update s.result t (some r) }.setPc t .idle

def setOpn (d : Nat) (o : OpnReq) : ReqSys := { s with opn := Function.update s.opn d o }

def setReq (i : Nat) (r : ReqCb) : ReqSys := { s with reqcb := Function.update s.reqcb i r }

/-- `knl_delReqCB`: QueRemove takes the block out of the queue it is in. -/
def knlDelReqCB (i : Nat) : ReqSys :=
  { s with
    free := s.free.erase i ++ [i]
    opn := fun d => { s.opn d with requestq := (s.opn d).requestq.erase i }
    freed := Function.update s.freed i (s.freed i + 1)
    reqcb := Function.update s.reqcb i { s.reqcb i with opncb := none } }

/-- `newReqCB` and the request packet, for the block `i`. -/
def newReqCB (t : Tid) (d i : Nat) (rest : List Nat) : ReqSys :=
  ({ s with free := rest, taken := Function.update s.taken i (s.taken i + 1) }.setOpn d
    { s.opn d with requestq := (s.opn d).requestq ++ [i] }).setReq i
    { opncb := some d, tskid := some t, next := none, abort := false }

def notifyAbort (d : Nat) : ReqSys := s.setOpn d (s.opn d).notifyAbort

/-- `knl_check_devdesc` -/
def checkDevdesc (d : Nat) (mode : Omode) : Option ReqErr :=
  if (s.opn d).resid = false then some .E_ID
  else if mode ≠ 0 ∧ (s.opn d).omode &&& mode = 0 then some .E_OACV
  else none

/-- `knl_request` up to execfn. -/
def request (t : Tid) (d : Nat) (read ignore : Bool) : ReqSys :=
  match s.checkDevdesc d (if ignore then 0 else if read then TD_READ else TD_WRITE) with
  | some e => s.returns t (.error e)
  | none =>
    match s.free with
    | [] => s.returns t (.error .E_LIMIT)
    | i :: rest => (s.newReqCB t d i rest).setPc t (.exec d i)

/-- `knl_request` after execfn. -/
def execReturn (t : Tid) (d i : Nat) (ercd : Int) : ReqSys :=
  let s := (s.setReq i { s.reqcb i with tskid := none }).notifyAbort d
  if ercd < 0 then (s.knlDelReqCB i).returns t (.error (.driver ercd))
  else s.returns t (.ok (i + 1))

/-- tk_wai_dev for any request, up to waitfn. -/
def waiAny (t : Tid) (d : Nat) : ReqSys :=
  let o := s.opn d
  if 0 < o.nwaireq ∨ 0 < o.waitone then s.returns t (.error .E_OBJ)
  else
    match o.requestq with
    | [] => s.returns t (.error .E_NOEXS)
    | i :: l =>
      let nreq := (i :: l).length
      ({ s with reqcb := listUp t (i :: l) s.reqcb }.setOpn d
        { o with waireqlst := some i, nwaireq := nreq }).setPc t (.wait d none i nreq)

/-- tk_wai_dev for one request, up to waitfn; `max` is `MAX_REQDEV`. -/
def waiOne (max : Nat) (t : Tid) (d : Nat) (reqid : Int) : ReqSys :=
  let o := s.opn d
  let i := (reqid - 1).toNat
  if reqid < 1 ∨ max < reqid ∨ (s.reqcb i).opncb ≠ some d then s.returns t (.error .E_ID)
  else if 0 < o.nwaireq ∨ (s.reqcb i).tskid ≠ none then s.returns t (.error .E_OBJ)
  else
    ((s.setReq i { s.reqcb i with tskid := some t, next := none }).setOpn d
      { o with waitone := o.waitone + 1 }).setPc t (.wait d (some i) i 1)

def waiDev (max : Nat) (t : Tid) (d : Nat) (reqid : Int) : ReqSys :=
  match s.checkDevdesc d 0 with
  | some e => s.returns t (.error e)
  | none => if reqid = 0 then s.waiAny t d else s.waiOne max t d reqid

/-- `reqcb->tskid = 0` along the list. -/
def release (walked : List Nat) : ReqSys :=
  { s with reqcb := fun i => if i ∈ walked then { s.reqcb i with tskid := none } else s.reqcb i }

/-- The request that waitfn says is complete; none where `reqid` stays 0. -/
def completed (reqid : Option Nat) (reqno : Int) (walked : List Nat) : Option Nat :=
  if 0 ≤ reqno then (walked[reqno.toNat]?).or reqid else reqid

/-- tk_wai_dev after waitfn. -/
def waitReturn (t : Tid) (d : Nat) (reqid : Option Nat) (nreq : Nat) (reqno : Int)
    (walked : List Nat) : Option ReqSys :=
  let o := s.opn d
  let s := s.setOpn d
    (if reqid = none then { o with nwaireq := 0 } else { o with waitone := o.waitone - 1 })
  let s := (s.notifyAbort d).release walked
  if reqno < 0 then some (s.returns t (.error (.driver reqno)))
  else if (nreq : Int) ≤ reqno then some (s.returns t (.error .E_SYS))
  else
    -- REQCB(0) is outside the table
    (completed reqid reqno walked).map fun i => (s.knlDelReqCB i).returns t (.ok (i + 1))

/-- The first critical section of `abort_allrequest`. -/
def abortBegin (t : Tid) (d : Nat) : ReqSys :=
  let o := s.opn d
  if 0 < o.nwaireq then s.setOpn d { o with abortTskid := some t, abortCnt := 1 }
  else
    { s with
      reqcb := fun i =>
        if i ∈ o.requestq ∧ (s.reqcb i).tskid ≠ none then { s.reqcb i with abort := true }
        else s.reqcb i }.setOpn d
      { o with
        abortTskid := some t
        abortCnt := o.requestq.countP fun i => decide ((s.reqcb i).tskid ≠ none) }

/-- The loop over the remaining requests, up to waitfn or to the end. -/
def abortNext (t : Tid) (d : Nat) : ReqSys :=
  match (s.opn d).requestq with
  | [] => s.setPc t (.done d)
  | i :: _ => (s.setReq i { s.reqcb i with abort := true }).setPc t (.aborted d i)

def step (max : Nat) : ReqEvent → Option ReqSys
  | .request t d read ignore =>
    if s.pc t = .idle then some (s.request t d read ignore) else none
  | .execReturn t ercd =>
    match s.pc t with
    | .exec d i => some (s.execReturn t d i ercd)
    | _ => none
  | .waiDev t d reqid => if s.pc t = .idle then some (s.waiDev max t d reqid) else none
  | .waitReturn t reqno walked =>
    match s.pc t with
    | .wait d reqid devreq nreq =>
      if isChain (fun i => (s.reqcb i).next) (some devreq) walked then
        s.waitReturn t d reqid nreq reqno walked
      else none
    | _ => none
  | .tkClsDev t d =>
    if s.pc t = .idle then
      if (s.opn d).resid then
        some ((s.setOpn d { s.opn d with resid := false }).setPc t (.abort d))
      else some (s.returns t (.error .E_ID))
    else none
  | .cleanup t d =>
    if s.pc t = .idle ∧ (s.opn d).listed then
      some ((s.setOpn d { s.opn d with resid := false }).setPc t (.abort d))
    else none
  | .abortBegin t =>
    match s.pc t with
    | .abort d => some ((s.abortBegin t d).setPc t (.check d))
    | _ => none
  | .abortCheck t =>
    match s.pc t with
    | .check d => some (s.setPc t (if 0 < (s.opn d).abortCnt then .waiSem d else .clear d))
    | _ => none
  | .abortSem t =>
    match s.pc t with
    | .waiSem d =>
      match (s.opn d).sem with
      | some 0 => none
      | some (n + 1) => some ((s.setOpn d { s.opn d with sem := some n }).setPc t (.clear d))
      | none => some (s.setPc t (.clear d))
    | _ => none
  | .abortClear t =>
    match s.pc t with
    | .clear d => some ((s.setOpn d { s.opn d with abortTskid := none }).setPc t (.rest d))
    | _ => none
  | .abortRest t =>
    match s.pc t with
    | .rest d => some (s.abortNext t d)
    | _ => none
  | .abortReturn t =>
    match s.pc t with
    | .aborted d i => some ((s.knlDelReqCB i).abortNext t d)
    | _ => none
  | .closeEnd t =>
    match s.pc t with
    | .done d =>
      some ((s.setOpn d { s.opn d with listed := false, sem := none }).setPc t .idle)
    | _ => none

/-- What tk_opn_dev leaves of a descriptor that it has opened. -/
def opened (omode : Omode) : OpnReq :=
  { resid := true, omode, requestq := [], waitone := 0, nwaireq := 0, waireqlst := none
    abortTskid := none, abortCnt := 0, sem := some 0, listed := true }

/-- `knl_initDevIO`, with descriptors that are open. -/
def boot (max : Nat) (reqcb : Nat → ReqCb) (omode : Nat → Omode) : ReqSys :=
  { reqcb := fun i => { reqcb i with opncb := none }
    free := List.range max
    opn := fun d => opened (omode d)
    pc := fun _ => .idle
    result := fun _ => none
    taken := fun _ => 0
    freed := fun _ => 0 }

end ReqSys

/-- Requests on open descriptors, with `max` request management blocks. -/
def requestMachine (max : Nat) : Lts ReqSys ReqEvent where
  init s := ∃ reqcb omode, s = .boot max reqcb omode
  step s e := s.step max e

end Mtk3Smp
