import Mtk3Smp.Kernel.State
import Mtk3Smp.Lib.KeyOrder
import Mtk3Smp.Lib.Lts
import Mathlib.Algebra.Order.Ring.Nat

/-!
# Rendezvous ports

`rendezvous.c`, with the parts of `wait.c` that it uses. A task calls a port and another accepts
the call under a rendezvous number, by which it, or whoever else has the number, replies or
forwards the call to another port. Each call is one critical section, and so is what the timer,
tk_rel_wai, tk_ter_tsk or a change of priority does to a task that waits. The areas for the
messages of different tasks do not overlap.
-/

namespace Mtk3Smp

/-- What `msg` of a blocking call points to. -/
abbrev MsgArea := Nat → UInt8

/-- `knl_memcpy(dst, src, n)` -/
def MsgArea.knlMemcpy (dst src : MsgArea) (n : Nat) : MsgArea :=
  fun i => if i < n then src i else dst i

def MsgArea.read (area : MsgArea) (n : Nat) : List UInt8 := (List.range n).map area

/-- `NUM_TSKID`, which leaves half of a rendezvous number for the count, and `NUM_PORID`. -/
structure RdvCfg where
  numTskid : Nat
  small : numTskid < 2 ^ 16
  numPorid : Nat

/-- `CHK_PORID` -/
def RdvCfg.chkPorid (k : RdvCfg) (porid : Nat) : Bool := 1 ≤ porid ∧ porid ≤ k.numPorid

def RDVNO_SHIFT : Nat := 16

/-- The ID of a task. -/
def tskid (t : Tid) : Nat := t + 1

/-- `knl_get_tskid_rdvno`; an RNO is given by its bits. -/
def knlGetTskidRdvno (rdvno : Nat) : Nat := rdvno % 2 ^ RDVNO_SHIFT

/-- `get_tcb(knl_get_tskid_rdvno(rdvno))` -/
def getTcbRdvno (rdvno : Nat) : Tid := knlGetTskidRdvno rdvno - 1

/-- `CHECK_RDVNO` -/
def RdvCfg.chkRdvno (k : RdvCfg) (rdvno : Nat) : Bool :=
  1 ≤ knlGetTskidRdvno rdvno ∧ knlGetTskidRdvno rdvno ≤ k.numTskid

/-- PORCB, by its ID -/
structure Porcb where
  /-- `porid != 0` -/
  exists_ : Bool
  /-- TA_TPRI in `poratr` -/
  tpri : Bool
  maxcmsz : Nat
  maxrmsz : Nat
  callQueue : List Tid
  acceptQueue : List Tid

/-- `wspec`, `wid` and `winfo` of a waiting task. The members `cal` and `rdv` of `winfo` lie one
over the other, so what `msg` and `p_rmsgsz` point to is the same in both. -/
inductive PorWait
  | cal (porid : Nat) (tpri : Bool) (calptn : BitVec 32) (cmsgsz : Nat)
  | acp (porid : Nat) (acpptn : BitVec 32)
  | rdv (rdvno : Nat) (maxrmsz : Nat)
  deriving DecidableEq

/-- The blocking call of a task. -/
inductive PorCall
  | cal | acp
  deriving DecidableEq

/-- The variables of a blocking call: `ercd`, its `rmsgsz` or `cmsgsz`, `*p_rdvno` and what `msg`
points to. -/
structure PorFrame where
  ercd : ER
  msgsz : Nat
  rdvno : Nat
  msg : MsgArea

inductive RdvRecord
  /-- the message of a call, from the caller or from a task that forwards the call -/
  | sent (caller : Tid) (msg : List UInt8)
  /-- it has reached a task that accepts -/
  | accepted (rdvno : Nat) (caller acceptor : Tid) (msg : List UInt8)
  /-- an answer to the number, or the wait for one is over otherwise -/
  | replied (rdvno : Nat) (msg : List UInt8)
  | forwarded (rdvno : Nat)
  | broken (rdvno : Nat)
  /-- what tk_cal_por has returned, and the reply -/
  | calRet (caller : Tid) (r : Except ER (List UInt8))
  /-- what tk_acp_por has returned, with the number and the message -/
  | acpRet (acceptor : Tid) (r : Except ER (Nat × List UInt8))
  | terminated (t : Tid)

structure RdvSys where
  /-- `knl_porcb_table` and `knl_free_porcb` -/
  porcb : Nat → Porcb
  free : List Nat
  wrdvno : Tid → Nat
  priority : Tid → Nat
  wait : Tid → Option PorWait
  /-- the timeout that a waiting task has given to the timer -/
  tmout : Tid → Tmo
  /-- the blocking call that a task is in, with its variables -/
  call : Tid → Option PorCall
  frame : Tid → PorFrame
  /-- history: the bytes that the port has promised not to exceed at the `msg` of each call, those
  written there, and what has happened, the newest first -/
  room : Tid → Nat
  written : List (Tid × Nat × Nat)
  log : List RdvRecord

namespace RdvSys

variable (k : RdvCfg) (s : RdvSys)

def setPor (p : Nat) (f : Porcb → Porcb) : RdvSys :=
  { s with porcb := Function.update s.porcb p (f (s.porcb p)) }

def setFrame (t : Tid) (f : PorFrame → PorFrame) : RdvSys :=
  { s with frame := Function.update s.frame t (f (s.frame t)) }

def setErcd (t : Tid) (e : ER) : RdvSys := s.setFrame t fun x => { x with ercd := e }

def logged (r : RdvRecord) : RdvSys := { s with log := r :: s.log }

/-- `knl_memcpy` to the message area of a task, for a message that is not empty. -/
def copyTo (t : Tid) (src : MsgArea) (n : Nat) : RdvSys :=
  if 0 < n then
    { s.setFrame t fun x => { x with msg := x.msg.knlMemcpy src n } with
      written := (t, n, s.room t) :: s.written }
  else s

/-- `knl_gen_rdvno`: the number is `wrdvno`, which moves on. -/
def knlGenRdvno (t : Tid) : RdvSys :=
  { s with
    wrdvno := Function.update s.wrdvno t ((s.wrdvno t + 2 ^ RDVNO_SHIFT) % 2 ^ 32) }

/-- `winfo.cal.calptn` or `winfo.acp.acpptn`, which are one word -/
def ptn (t : Tid) : BitVec 32 :=
  match s.wait t with
  | some (.cal _ _ calptn _) => calptn
  | some (.acp _ acpptn) => acpptn
  | _ => 0

/-- `winfo.cal.cmsgsz` -/
def cmsgsz (t : Tid) : Nat :=
  match s.wait t with
  | some (.cal _ _ _ n) => n
  | _ => 0

/-- The wait with a rendezvous number: `winfo.rdv.maxrmsz`. -/
def maxrmsz (t : Tid) (rdvno : Nat) : Option Nat :=
  match s.wait t with
  | some (.rdv n maxrmsz) => if rdvno = n then some maxrmsz else none
  | _ => none

/-- The search in tk_cal_por and tk_fwd_por. -/
def searchAccept (porid : Nat) (calptn : BitVec 32) : Option Tid :=
  (s.porcb porid).acceptQueue.find? fun t => calptn &&& s.ptn t != 0

/-- The search in tk_acp_por. -/
def searchCall (porid : Nat) (acpptn : BitVec 32) : Option Tid :=
  (s.porcb porid).callQueue.find? fun t => acpptn &&& s.ptn t != 0

/-! ## `wait.c` -/

/-- QueRemove of `tskque` -/
def queRemove (t : Tid) : RdvSys :=
  { s with
    porcb :=
      match s.wait t with
      | some (.cal p _ _ _) =>
        Function.update s.porcb p
          { s.porcb p with callQueue := (s.porcb p).callQueue.erase t }
      | some (.acp p _) =>
        Function.update s.porcb p
          { s.porcb p with acceptQueue := (s.porcb p).acceptQueue.erase t }
      | _ => s.porcb }

/-- The insertion into the call queue, by priority or at the end. -/
def insertCall (p : Nat) (t : Tid) : RdvSys :=
  s.setPor p fun x =>
    { x with
      callQueue :=
        if x.tpri then KeyOrder.insert s.priority t x.callQueue else x.callQueue ++ [t] }

/-- `knl_timer_delete`, QueRemove and `knl_make_non_wait` -/
def knlWaitRelease (t : Tid) : RdvSys :=
  { s.queRemove t with wait := Function.update s.wait t none }

/-- `knl_wait_release_ok`, `knl_wait_release_ng` and a round of `knl_wait_delete` -/
def release (t : Tid) (e : ER) : RdvSys := (s.setErcd t e).knlWaitRelease t

/-- `wspec`, `wid` and `winfo`, and the insertion of the timer event. -/
def setWait (t : Tid) (w : PorWait) (tmout : Tmo) : RdvSys :=
  { s with wait := Function.update s.wait t (some w), tmout := Function.update s.tmout t tmout }

/-- `knl_wait_delete` -/
def knlWaitDelete : List Tid → RdvSys → RdvSys
  | [], s => s
  | t :: queue, s => knlWaitDelete queue (s.release t .E_DLT)

/-! ## `rendezvous.c` -/

/-- `cal_chg_pri`, the hook of a wait in the call queue of a port with TA_TPRI, after a change of
the priority -/
def calChgPri (t : Tid) : RdvSys :=
  match s.wait t with
  | some (.cal p true _ _) =>
    (s.queRemove t).setPor p fun x =>
      { x with callQueue := KeyOrder.insert s.priority t x.callQueue }
  | _ => s

/-- tk_cre_por -/
def tkCrePor (tpri : Bool) (maxcmsz maxrmsz : Int) : RdvSys × ER :=
  if maxcmsz < 0 ∨ maxrmsz < 0 then (s, .E_PAR)
  else
    match s.free with
    | [] => (s, .E_LIMIT)
    | porid :: rest =>
      ({ s with free := rest }.setPor porid fun _ =>
        { exists_ := true, tpri, maxcmsz := maxcmsz.toNat, maxrmsz := maxrmsz.toNat
          callQueue := [], acceptQueue := [] }, .E_OK)

/-- tk_del_por -/
def tkDelPor (porid : Nat) : RdvSys × ER :=
  if !k.chkPorid porid then (s, .E_ID)
  else if !(s.porcb porid).exists_ then (s, .E_NOEXS)
  else
    let s := knlWaitDelete (s.porcb porid).callQueue s
    let s := knlWaitDelete (s.porcb porid).acceptQueue s
    ({ s with free := s.free ++ [porid] }.setPor porid fun x => { x with exists_ := false }, .E_OK)

/-- "Send message" in tk_cal_por and tk_fwd_por: the task `tcb` accepts the call of `caller`. -/
def sendMessage (tcb : Tid) (rdvno : Nat) (caller : Tid) (msg : MsgArea) (cmsgsz : Nat) : RdvSys :=
  let s := (s.copyTo tcb msg cmsgsz).setFrame tcb fun x => { x with rdvno, msgsz := cmsgsz }
  (s.logged (.accepted rdvno caller tcb ((s.frame tcb).msg.read cmsgsz))).release tcb .E_OK

/-- tk_cal_por of `self` past the checks -/
def calPor (self : Tid) (porid : Nat) (calptn : BitVec 32) (cmsgsz : Nat) (tmout : Tmo) : RdvSys :=
  let s := { s with room := Function.update s.room self (s.porcb porid).maxrmsz }
  let s := s.logged (.sent self ((s.frame self).msg.read cmsgsz))
  match s.searchAccept porid calptn with
  | some tcb =>
    let rdvno := s.wrdvno self
    let s := (s.knlGenRdvno self).sendMessage tcb rdvno self (s.frame self).msg cmsgsz
    (s.setErcd self .E_TMOUT).setWait self (.rdv rdvno (s.porcb porid).maxrmsz) .TMO_FEVR
  | none =>
    let s := s.setErcd self .E_TMOUT
    if tmout = .TMO_POL then s
    else
      (s.setWait self (.cal porid (s.porcb porid).tpri calptn cmsgsz) tmout).insertCall porid self

def tkCalPor (self : Tid) (porid : Nat) (calptn : BitVec 32) (cmsgsz : Int) (tmout : Tmo) :
    RdvSys :=
  if !k.chkPorid porid then s.setErcd self .E_ID
  else if calptn = 0 ∨ cmsgsz < 0 then s.setErcd self .E_PAR
  else if !(s.porcb porid).exists_ then s.setErcd self .E_NOEXS
  else if (s.porcb porid).maxcmsz < cmsgsz then s.setErcd self .E_PAR
  else s.calPor self porid calptn cmsgsz.toNat tmout

/-- tk_acp_por of `self` past the checks -/
def acpPor (self : Tid) (porid : Nat) (acpptn : BitVec 32) (tmout : Tmo) : RdvSys :=
  let s := { s with room := Function.update s.room self (s.porcb porid).maxcmsz }
  match s.searchCall porid acpptn with
  | some tcb =>
    let rdvno := s.wrdvno tcb
    let cmsgsz := s.cmsgsz tcb
    let s := (s.knlGenRdvno tcb).setFrame self fun x => { x with rdvno, msgsz := cmsgsz }
    let s := s.copyTo self (s.frame tcb).msg cmsgsz
    let s := s.logged (.accepted rdvno tcb self ((s.frame self).msg.read cmsgsz))
    (s.queRemove tcb).setWait tcb (.rdv rdvno (s.porcb porid).maxrmsz) .TMO_FEVR
  | none =>
    let s := s.setErcd self .E_TMOUT
    if tmout = .TMO_POL then s
    else
      (s.setWait self (.acp porid acpptn) tmout).setPor porid fun x =>
        { x with acceptQueue := x.acceptQueue ++ [self] }

def tkAcpPor (self : Tid) (porid : Nat) (acpptn : BitVec 32) (tmout : Tmo) : RdvSys :=
  if !k.chkPorid porid then s.setErcd self .E_ID
  else if acpptn = 0 then s.setErcd self .E_PAR
  else if !(s.porcb porid).exists_ then s.setErcd self .E_NOEXS
  else s.acpPor self porid acpptn tmout

/-- tk_fwd_por of the call of `caltcb` past the checks -/
def fwdPor (caltcb : Tid) (porid : Nat) (calptn : BitVec 32) (rdvno : Nat) (msg : MsgArea)
    (cmsgsz : Nat) : RdvSys :=
  let s := (s.logged (.forwarded rdvno)).logged (.sent caltcb (msg.read cmsgsz))
  match s.searchAccept porid calptn with
  | some tcb =>
    let newRdvno := s.wrdvno caltcb
    let s := (s.knlGenRdvno caltcb).sendMessage tcb newRdvno caltcb msg cmsgsz
    s.setWait caltcb (.rdv newRdvno (s.porcb porid).maxrmsz) .TMO_FEVR
  | none =>
    let s := s.setWait caltcb (.cal porid (s.porcb porid).tpri calptn cmsgsz) .TMO_FEVR
    (s.insertCall porid caltcb).copyTo caltcb msg cmsgsz

def tkFwdPor (porid : Nat) (calptn : BitVec 32) (rdvno : Nat) (msg : MsgArea) (cmsgsz : Int) :
    RdvSys × ER :=
  let caltcb := getTcbRdvno rdvno
  if !k.chkPorid porid then (s, .E_ID)
  else if calptn = 0 then (s, .E_PAR)
  else if !k.chkRdvno rdvno then (s, .E_OBJ)
  else if cmsgsz < 0 then (s, .E_PAR)
  else if !(s.porcb porid).exists_ then (s, .E_NOEXS)
  else if (s.porcb porid).maxcmsz < cmsgsz then (s, .E_PAR)
  else
    match s.maxrmsz caltcb rdvno with
    | none => (s, .E_OBJ)
    | some maxrmsz =>
      if maxrmsz < (s.porcb porid).maxrmsz then (s, .E_OBJ)
      else if maxrmsz < cmsgsz then (s, .E_PAR)
      else (s.fwdPor caltcb porid calptn rdvno msg cmsgsz.toNat, .E_OK)

/-- tk_rpl_rdv to `caltcb` past the checks -/
def rplRdv (caltcb : Tid) (rdvno : Nat) (msg : MsgArea) (rmsgsz : Nat) : RdvSys :=
  let s := (s.logged (.replied rdvno (msg.read rmsgsz))).copyTo caltcb msg rmsgsz
  (s.setFrame caltcb fun x => { x with msgsz := rmsgsz }).release caltcb .E_OK

def tkRplRdv (rdvno : Nat) (msg : MsgArea) (rmsgsz : Int) : RdvSys × ER :=
  let caltcb := getTcbRdvno rdvno
  if !k.chkRdvno rdvno then (s, .E_OBJ)
  else if rmsgsz < 0 then (s, .E_PAR)
  else
    match s.maxrmsz caltcb rdvno with
    | none => (s, .E_OBJ)
    | some maxrmsz =>
      if maxrmsz < rmsgsz then (s, .E_PAR)
      else (s.rplRdv caltcb rdvno msg rmsgsz.toNat, .E_OK)

/-- The end of a rendezvous that nobody has replied to. -/
def breaks (t : Tid) : RdvSys :=
  match s.wait t with
  | some (.rdv rdvno _) => s.logged (.broken rdvno)
  | _ => s

/-- A task enters a blocking call. -/
def enter (t : Tid) (c : PorCall) (msg : MsgArea) : RdvSys :=
  { s with
    call := Function.update s.call t (some c)
    frame := Function.update s.frame t { ercd := .E_OK, msgsz := 0, rdvno := 0, msg } }

/-- A blocking call returns. -/
def returns (t : Tid) (c : PorCall) : RdvSys :=
  let x := s.frame t
  { s with call := Function.update s.call t none }.logged
    (match c with
    | .cal => .calRet t (if x.ercd = ER.E_OK then .ok (x.msg.read x.msgsz) else .error x.ercd)
    | .acp =>
      .acpRet t (if x.ercd = ER.E_OK then .ok (x.rdvno, x.msg.read x.msgsz) else .error x.ercd))

end RdvSys

inductive RdvEvent
  | tkCrePor (tpri : Bool) (maxcmsz maxrmsz : Int)
  | tkDelPor (porid : Nat)
  | tkCalPor (self : Tid) (porid : Nat) (calptn : BitVec 32) (msg : MsgArea) (cmsgsz : Int)
    (tmout : Tmo)
  | tkAcpPor (self : Tid) (porid : Nat) (acpptn : BitVec 32) (msg : MsgArea) (tmout : Tmo)
  | tkFwdPor (porid : Nat) (calptn : BitVec 32) (rdvno : Nat) (msg : MsgArea) (cmsgsz : Int)
  | tkRplRdv (rdvno : Nat) (msg : MsgArea) (rmsgsz : Int)
  /-- `knl_wait_release_tmout` from the timer, tk_rel_wai and tk_ter_tsk -/
  | timeout (t : Tid)
  | tkRelWai (t : Tid)
  | tkTerTsk (t : Tid)
  | chgPri (t : Tid) (priority : Nat)
  /-- a blocking call returns -/
  | ret (t : Tid)

namespace RdvSys

variable (k : RdvCfg) (s : RdvSys)

/-- A task that runs and is in no call. -/
def free? (t : Tid) : Bool := t < k.numTskid ∧ s.call t = none

def step : RdvEvent → Option RdvSys
  | .tkCrePor tpri maxcmsz maxrmsz => some (s.tkCrePor tpri maxcmsz maxrmsz).1
  | .tkDelPor porid => some (s.tkDelPor k porid).1
  | .tkCalPor self porid calptn msg cmsgsz tmout =>
    if s.free? k self then
      some ((s.enter self .cal msg).tkCalPor k self porid calptn cmsgsz tmout)
    else none
  | .tkAcpPor self porid acpptn msg tmout =>
    if s.free? k self then some ((s.enter self .acp msg).tkAcpPor k self porid acpptn tmout)
    else none
  | .tkFwdPor porid calptn rdvno msg cmsgsz =>
    some (s.tkFwdPor k porid calptn rdvno msg cmsgsz).1
  | .tkRplRdv rdvno msg rmsgsz => some (s.tkRplRdv k rdvno msg rmsgsz).1
  | .timeout t =>
    if (s.wait t).isSome ∧ s.tmout t ≠ .TMO_FEVR then some ((s.breaks t).knlWaitRelease t)
    else none
  | .tkRelWai t =>
    if (s.wait t).isSome then some ((s.breaks t).release t .E_RLWAI) else none
  | .tkTerTsk t =>
    let s := if (s.wait t).isSome then (s.breaks t).knlWaitRelease t else s
    some ({ s with call := Function.update s.call t none }.logged (.terminated t))
  | .chgPri t priority =>
    some ({ s with priority := Function.update s.priority t priority }.calChgPri t)
  | .ret t =>
    match s.call t with
    | some c => if s.wait t = none then some (s.returns t c) else none
    | none => none

/-- `knl_rendezvous_initialize`, and `wrdvno` as `knl_task_initialize` sets it. -/
def boot (priority : Tid → Nat) : RdvSys where
  porcb _ :=
    { exists_ := false, tpri := false, maxcmsz := 0, maxrmsz := 0, callQueue := []
      acceptQueue := [] }
  free := (List.range k.numPorid).map (· + 1)
  wrdvno := tskid
  priority := priority
  wait _ := none
  tmout _ := .TMO_FEVR
  call _ := none
  frame _ := { ercd := .E_OK, msgsz := 0, rdvno := 0, msg := fun _ => 0 }
  room _ := 0
  written := []
  log := []

end RdvSys

def rdvMachine (k : RdvCfg) : Lts RdvSys RdvEvent where
  init s := ∃ priority, s = RdvSys.boot k priority
  step := RdvSys.step k

end Mtk3Smp
