import Mtk3Smp.Kernel.State
import Mtk3Smp.Lib.Cyclic
import Mtk3Smp.Lib.Lts

/-!
# Message buffers

`messagebuf.c`: the ring of headers and bodies with its split copies, the two wait queues, and
the calls and events that reach them. Each call is one critical section, so a run on two cores
is a sequence of them. The history numbers the calls of tk_snd_mbf and tk_rcv_mbf and records
which messages were sent, accepted and delivered, and what each call returned.
-/

namespace Mtk3Smp

open Cyclic

abbrev Msg := List UInt8

/-- `sizeof(HEADER)` -/
def HEADERSZ : Nat := 4

/-- `ROUNDSZ(sz)` (`messagebuf.h`), for sizes whose rounding does not overflow. -/
def ROUNDSZ (sz : Nat) : Nat := (sz + 3) / 4 * 4

/-- The bytes of a HEADER, least significant first. -/
def headerBytes (n : Nat) : List UInt8 :=
  [UInt8.ofNat n, UInt8.ofNat (n / 256), UInt8.ofNat (n / 65536), UInt8.ofNat (n / 16777216)]

def headerValue : List UInt8 → Nat
  | [b₀, b₁, b₂, b₃] => b₀.toNat + 256 * b₁.toNat + 65536 * b₂.toNat + 16777216 * b₃.toNat
  | _ => 0

/-- The fields of MBFCB that the ring is made of, and `mbfatr & TA_TPRI`. -/
structure Mbfcb where
  tpri : Bool
  bufsz : Nat
  maxmsz : Nat
  frbufsz : Int
  head : Nat
  tail : Nat
  buffer : Nat → UInt8

/-- `knl_mbf_free`: the comparison is one of UW values. -/
def knlMbfFree (m : Mbfcb) (msgsz : Nat) : Bool :=
  (HEADERSZ + msgsz) % 2 ^ 32 ≤ (m.frbufsz % 2 ^ 32).toNat

/-- `knl_mbf_empty` -/
def knlMbfEmpty (m : Mbfcb) : Bool := m.frbufsz == m.bufsz

/-- `knl_msg_to_mbf` -/
def knlMsgToMbf (m : Mbfcb) (msg : Msg) : Mbfcb :=
  let frbufsz := m.frbufsz - (HEADERSZ + ROUNDSZ msg.length : Nat)
  let buffer := put m.buffer m.tail (headerBytes msg.length)
  let tail := m.tail + HEADERSZ
  let tail := if m.bufsz ≤ tail then 0 else tail
  let remsz := m.bufsz - tail
  if remsz < msg.length then
    let buffer := put buffer tail (msg.take remsz)
    let msg := msg.drop remsz
    let buffer := put buffer 0 msg
    let tail := 0 + ROUNDSZ msg.length
    { m with frbufsz, buffer, tail := if m.bufsz ≤ tail then 0 else tail }
  else
    let buffer := put buffer tail msg
    let tail := tail + ROUNDSZ msg.length
    { m with frbufsz, buffer, tail := if m.bufsz ≤ tail then 0 else tail }

/-- `knl_mbf_to_msg`: the message and the buffer without it. -/
def knlMbfToMsg (m : Mbfcb) : Msg × Mbfcb :=
  let msgsz := headerValue (slice m.buffer m.head 4)
  let frbufsz := m.frbufsz + (HEADERSZ + ROUNDSZ msgsz : Nat)
  let head := m.head + HEADERSZ
  let head := if m.bufsz ≤ head then 0 else head
  let remsz := m.bufsz - head
  if remsz < msgsz then
    let msg := slice m.buffer head remsz
    let msgsz := msgsz - remsz
    let head := 0 + ROUNDSZ msgsz
    (msg ++ slice m.buffer 0 msgsz, { m with frbufsz, head := if m.bufsz ≤ head then 0 else head })
  else
    let next := head + ROUNDSZ msgsz
    (slice m.buffer head msgsz, { m with frbufsz, head := if m.bufsz ≤ next then 0 else next })

/-- A task in the send wait queue: `winfo.smbf`, and the number of its call. -/
structure Sender where
  tsk : Tid
  msg : Msg
  tmout : Tmo
  call : Nat

/-- A task in the receive wait queue. -/
structure Receiver where
  tsk : Tid
  tmout : Tmo
  call : Nat

/-- A message buffer with the tasks that wait at it. -/
structure MbfSys where
  /-- `mbfid != 0` -/
  exists_ : Bool
  cb : Mbfcb
  sendQueue : List Sender
  recvQueue : List Receiver
  /-- `tcb->priority` -/
  priority : Tid → Nat
  /-- history: the calls so far, the messages of the send calls, those accepted and those
  delivered, oldest first, each with the number of the call, and the codes returned -/
  calls : Nat
  sent : List (Nat × Msg)
  accepted : List (Nat × Msg)
  delivered : List (Nat × Msg)
  sndRet : List (Nat × ER)
  rcvRet : List (Nat × ER)

namespace MbfSys

variable (s : MbfSys)

/-- A send call ends with E_OK, or with another code. -/
def sndOk (call : Nat) (msg : Msg) : MbfSys :=
  { s with accepted := s.accepted ++ [(call, msg)], sndRet := s.sndRet ++ [(call, .E_OK)] }

def sndNg (call : Nat) (e : ER) : MbfSys := { s with sndRet := s.sndRet ++ [(call, e)] }

/-- A receive call ends with a message, or with an error. -/
def rcvOk (call : Nat) (msg : Msg) : MbfSys :=
  { s with delivered := s.delivered ++ [(call, msg)], rcvRet := s.rcvRet ++ [(call, .E_OK)] }

def rcvNg (call : Nat) (e : ER) : MbfSys := { s with rcvRet := s.rcvRet ++ [(call, e)] }

/-- The loop of `knl_mbf_wakeup`, over the tasks of the send wait queue. -/
def wakeupLoop : List Sender → MbfSys → MbfSys
  | [], s => { s with sendQueue := [] }
  | top :: rest, s =>
    if !knlMbfFree s.cb top.msg.length then { s with sendQueue := top :: rest }
    else
      wakeupLoop rest ({ s with cb := knlMsgToMbf s.cb top.msg }.sndOk top.call top.msg)

def knlMbfWakeup : MbfSys := wakeupLoop s.sendQueue s

/-- `knl_queue_insert_tpri` -/
def knlQueueInsertTpri (priority : Tid → Nat) (x : Sender) : List Sender → List Sender
  | [] => [x]
  | q :: rest =>
    if priority x.tsk < priority q.tsk then x :: q :: rest
    else q :: knlQueueInsertTpri priority x rest

/-- `knl_gcb_make_wait` -/
def makeSendWait (x : Sender) : MbfSys :=
  { s with
    sendQueue :=
      if s.cb.tpri then knlQueueInsertTpri s.priority x s.sendQueue else s.sendQueue ++ [x] }

/-- `knl_gcb_top_of_wait_queue(mbfcb, t) == t`, for a task that is not in the queue. -/
def isTop (t : Tid) : Bool :=
  match s.sendQueue with
  | [] => true
  | q :: _ => s.cb.tpri && s.priority t < s.priority q.tsk

def waiting (t : Tid) : Bool :=
  s.sendQueue.any (·.tsk == t) || s.recvQueue.any (·.tsk == t)

/-- tk_snd_mbf; `self` is the calling task, none in a task-independent portion, and `ddsp` is
`in_ddsp()`. -/
def tkSndMbf (self : Option Tid) (ddsp : Bool) (msg : Msg) (tmout : Tmo) : MbfSys :=
  let call := s.calls
  let s := { s with calls := s.calls + 1, sent := s.sent ++ [(call, msg)] }
  if msg.length = 0 then s.sndNg call .E_PAR
  else if (self = none ∨ ddsp) ∧ tmout ≠ .TMO_POL then s.sndNg call .E_CTX
  else if !s.exists_ then s.sndNg call .E_NOEXS
  else if s.cb.maxmsz < msg.length then s.sndNg call .E_PAR
  else
    match s.recvQueue with
    | tcb :: rest => ({ s with recvQueue := rest }.rcvOk tcb.call msg).sndOk call msg
    | [] =>
      if self.all s.isTop && knlMbfFree s.cb msg.length then
        { s with cb := knlMsgToMbf s.cb msg }.sndOk call msg
      else
        match self, tmout with
        | some t, .TMO_FEVR => s.makeSendWait ⟨t, msg, tmout, call⟩
        | some t, .after _ => s.makeSendWait ⟨t, msg, tmout, call⟩
        | _, _ => s.sndNg call .E_TMOUT

/-- tk_rcv_mbf, called by the task `self`. -/
def tkRcvMbf (self : Tid) (ddsp : Bool) (tmout : Tmo) : MbfSys :=
  let call := s.calls
  let s := { s with calls := s.calls + 1 }
  if ddsp then s.rcvNg call .E_CTX
  else if !s.exists_ then s.rcvNg call .E_NOEXS
  else if !knlMbfEmpty s.cb then
    let r := knlMbfToMsg s.cb
    ({ s with cb := r.2 }.rcvOk call r.1).knlMbfWakeup
  else
    match s.sendQueue with
    | tcb :: rest =>
      (({ s with sendQueue := rest }.rcvOk call tcb.msg).sndOk tcb.call tcb.msg).knlMbfWakeup
    | [] =>
      match tmout with
      | .TMO_POL => s.rcvNg call .E_TMOUT
      | _ => { s with recvQueue := s.recvQueue ++ [⟨self, tmout, call⟩] }

/-- A waiting task leaves its queue and the hook of its wait specification runs: `e` is what
its call returns, none where it does not return (tk_ter_tsk). -/
def endWait (t : Tid) (e : Option ER) : MbfSys :=
  match s.sendQueue.find? (·.tsk == t) with
  | some x =>
    let s := { s with sendQueue := s.sendQueue.eraseP (·.tsk == t) }
    (match e with
      | some e => s.sndNg x.call e
      | none => s).knlMbfWakeup
  | none =>
    match s.recvQueue.find? (·.tsk == t) with
    | some x =>
      let s := { s with recvQueue := s.recvQueue.eraseP (·.tsk == t) }
      match e with
      | some e => s.rcvNg x.call e
      | none => s
    | none => s

/-- `knl_change_task_priority`: only a TA_TPRI sender has the hook `knl_mbf_chg_pri`. -/
def chgPri (t : Tid) (priority : Nat) : MbfSys :=
  let s := { s with priority := Function.update s.priority t priority }
  match s.cb.tpri, s.sendQueue.find? (·.tsk == t) with
  | true, some x =>
    { s with
      sendQueue := knlQueueInsertTpri s.priority x (s.sendQueue.eraseP (·.tsk == t))
    }.knlMbfWakeup
  | _, _ => s

/-- tk_del_mbf -/
def tkDelMbf : MbfSys :=
  if !s.exists_ then s
  else
    { s with
      exists_ := false
      sendQueue := []
      recvQueue := []
      sndRet := s.sndRet ++ s.sendQueue.map fun x => (x.call, .E_DLT)
      rcvRet := s.rcvRet ++ s.recvQueue.map fun x => (x.call, .E_DLT) }

end MbfSys

inductive MbfEvent
  | tkSndMbf (self : Option Tid) (ddsp : Bool) (msg : Msg) (tmout : Tmo)
  | tkRcvMbf (self : Tid) (ddsp : Bool) (tmout : Tmo)
  /-- `knl_wait_release_tmout` from the timer, tk_rel_wai and tk_ter_tsk -/
  | timeout (t : Tid)
  | tkRelWai (t : Tid)
  | tkTerTsk (t : Tid)
  | chgPri (t : Tid) (priority : Nat)
  | tkDelMbf

namespace MbfSys

variable (s : MbfSys)

/-- The task waits with a timeout. -/
def timed (t : Tid) : Bool :=
  s.sendQueue.any (fun x => x.tsk == t && x.tmout != .TMO_FEVR) ||
    s.recvQueue.any (fun x => x.tsk == t && x.tmout != .TMO_FEVR)

def step : MbfEvent → Option MbfSys
  -- a task that waits makes no call
  | .tkSndMbf self ddsp msg tmout =>
    if self.any s.waiting then none else some (s.tkSndMbf self ddsp msg tmout)
  | .tkRcvMbf self ddsp tmout =>
    if s.waiting self then none else some (s.tkRcvMbf self ddsp tmout)
  | .timeout t => if s.timed t then some (s.endWait t (some .E_TMOUT)) else none
  | .tkRelWai t => if s.waiting t then some (s.endWait t (some .E_RLWAI)) else none
  | .tkTerTsk t => if s.waiting t then some (s.endWait t none) else none
  | .chgPri t priority => some (s.chgPri t priority)
  | .tkDelMbf => some s.tkDelMbf

/-- What tk_cre_mbf leaves, `bufsz` being rounded. -/
def created (tpri : Bool) (bufsz maxmsz : Nat) (buffer : Nat → UInt8) (priority : Tid → Nat) :
    MbfSys :=
  { exists_ := true
    cb := { tpri, bufsz, maxmsz, frbufsz := bufsz, head := 0, tail := 0, buffer }
    sendQueue := []
    recvQueue := []
    priority
    calls := 0
    sent := []
    accepted := []
    delivered := []
    sndRet := []
    rcvRet := [] }

end MbfSys

/-- The messages that calls of `knl_mbf_to_msg` return from now on, `n` of them at most. -/
def Mbfcb.drain : Nat → Mbfcb → List Msg
  | 0, _ => []
  | n + 1, m =>
    if knlMbfEmpty m then [] else (knlMbfToMsg m).1 :: Mbfcb.drain n (knlMbfToMsg m).2

/-- The stored messages; each takes more than a byte. -/
def Mbfcb.contents (m : Mbfcb) : List Msg := m.drain m.bufsz

/-- The bytes of the ring that a message takes. -/
def msgSpan (msg : Msg) : Nat := HEADERSZ + ROUNDSZ msg.length

def spans (msgs : List Msg) : Nat := (msgs.map msgSpan).sum

/-- `bufsz` is a W and a multiple of the header size, `maxmsz` a positive INT. -/
def mbfMachine : Lts MbfSys MbfEvent where
  init s := ∃ tpri bufsz maxmsz buffer priority, s = .created tpri bufsz maxmsz buffer priority ∧
    HEADERSZ ∣ bufsz ∧ bufsz < 2 ^ 31 ∧ 0 < maxmsz ∧ maxmsz < 2 ^ 31
  step := MbfSys.step

end Mtk3Smp
