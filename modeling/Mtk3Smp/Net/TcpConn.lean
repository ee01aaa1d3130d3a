import Mtk3Smp.Net.Lwip

/-!
# What the two TCP sessions have in common

`lwip_utk_tcp.c` and `lwip_utk_tcpbulk.c` open, supervise and close their connection in the
same words. Both have the fields and functions of this module.
-/

namespace Mtk3Smp

namespace Net

/-- The build's address of the peer, as `ip4addr_aton` reads it. -/
abbrev TcpPeer := Option Ip4

structure Conn where
  initResult : Err
  connectResult : Err
  sendResult : Err
  closeResult : Err
  result : Err
  fatalError : Err
  initialized : Bool
  started : Bool
  connected : Bool
  complete : Bool
  finSent : Bool
  peerFin : Bool
  closed : Bool
  aborted : Bool
  bytesSent : UW
  bytesAcked : UW
  bytesReceived : UW
  segmentsReceived : UW
  connectMs : UW
  closeMs : UW
  elapsedMs : UW
  /-- `tcp_pcb_handle`, `bulk_pcb` -/
  pcb : Option Nat
  target : Ip4
  startedMs : UW
  connectStartedMs : UW
  closeStartedMs : UW
  lwip : Pcbs
  /-- the pcb that has the session's callbacks -/
  attached : Option Nat
  /-- history: the bytes received, and those received when `tcp_shutdown` succeeded -/
  received : List UB
  atShutdown : Option (List UB)

/-- What the lwIP calls of a poll answer. -/
structure TcpAnswers where
  tcpNew : Option Nat
  /-- the clock when `initialize` reads it -/
  sysNow : UW
  tcpConnect : Err
  tcpClose : Err
  tcpShutdown : Err

namespace Conn

variable (s : Conn)

def finish (result : Err) (now : UW) : Conn :=
  { s with result := result, elapsedMs := now - s.startedMs, complete := true }

/-- The error callback, up to its `finish`. -/
def freed (h : Nat) (err : Err) : Conn :=
  { s with
    pcb := none
    aborted := true
    closed := true
    fatalError := err
    lwip := s.lwip.free h
    attached := none }

def sent (len : UW) : Conn := { s with bytesAcked := s.bytesAcked + len }

/-- A segment, up to the walk through its bytes; the last call is `tcp_recved`. -/
def segment (h : Nat) (p : Pbuf) : Conn :=
  { s with
    segmentsReceived := s.segmentsReceived + 1
    bytesReceived := s.bytesReceived + BitVec.ofNat 32 p.totLen
    lwip := s.lwip.use h
    received := s.received ++ p.payload }

def connectedNow (now : UW) : Conn :=
  { s with connected := true, connectMs := now - s.connectStartedMs }

def initFailed (result : Err) : Conn :=
  { s with initResult := result, complete := true, closed := true, result := result }

/-- `initialize` -/
def initSession (c : TcpPeer) (netif : Option Netif) (o : TcpAnswers) : Conn :=
  let s := { s with initialized := true }
  match netif, c with
  | none, _ => s.initFailed ERR_ARG
  | some _, none => s.initFailed ERR_ARG
  | some _, some target =>
    let s := { s with target := target }
    if target = 0 then s.initFailed ERR_ARG
    else
      match o.tcpNew with
      | none => { s with pcb := none }.initFailed ERR_MEM
      | some h =>
        -- tcp_bind_netif, tcp_arg, tcp_recv, tcp_sent, tcp_err and tcp_connect
        let s := { s with
          pcb := some h
          connectStartedMs := o.sysNow
          lwip := (s.lwip.new h).uses h 6
          attached := some h }
        if o.tcpConnect ≠ ERR_OK then
          -- detach_callbacks and tcp_abort
          { s with
            pcb := none
            connectResult := o.tcpConnect
            lwip := (s.lwip.uses h 5).release h
            attached := none }.initFailed o.tcpConnect
        else { s with initResult := ERR_OK }

def releasePcb (o : TcpAnswers) : Conn :=
  match s.pcb with
  | none => { s with closed := true }
  | some h =>
    let s := { s with closeResult := o.tcpClose, lwip := s.lwip.uses h 5, attached := none }
    let s := if o.tcpClose ≠ ERR_OK then
        { s with aborted := true, lwip := (s.lwip.use h).release h }
      else { s with lwip := s.lwip.release h }
    { s with pcb := none, closed := true }

/-- `tcp_shutdown` of the sending side; `true` where the session has to end. -/
def shutdown (h : Nat) (now : UW) (o : TcpAnswers) : Conn × Bool :=
  let s := { s with lwip := s.lwip.use h }
  if o.tcpShutdown = ERR_OK then
    ({ s with finSent := true, closeStartedMs := now, atShutdown := some s.received }, false)
  else if o.tcpShutdown ≠ ERR_MEM then ({ s with closeResult := o.tcpShutdown }, true)
  else (s, false)

/-- The wait for the peer's FIN; the verdict, where there is one. -/
def pollFin (closeTimeout : UW) (now : UW) (o : TcpAnswers) : Conn × Option Err :=
  if s.peerFin then
    let s := { s with closeMs := now - s.closeStartedMs }.releasePcb o
    (s, some (if s.closeResult = ERR_OK then ERR_OK else s.closeResult))
  else if now - s.closeStartedMs ≥ closeTimeout then
    ({ s with closeMs := now - s.closeStartedMs }, some ERR_TIMEOUT)
  else (s, none)

/-- At reset. -/
structure Init (s : Conn) : Prop where
  result : s.result = ERR_TIMEOUT
  initialized : s.initialized = false
  connected : s.connected = false
  complete : s.complete = false
  finSent : s.finSent = false
  pcb : s.pcb = none
  lwip : s.lwip = .empty
  attached : s.attached = none
  received : s.received = []
  atShutdown : s.atShutdown = none

end Conn

/-- The callbacks of a connection. -/
inductive TcpCallback
  | recv (p : Option Pbuf) (err : Err)
  | sent (len : UW)
  | connected (err : Err)
  | err (err : Err)

/-- lwIP calls back for a pcb that has the callbacks; an error callback names an error. -/
def Conn.mayCall (s : Conn) (h : Nat) : TcpCallback → Bool
  | .err err => s.attached == some h && err != ERR_OK
  | _ => s.attached == some h

end Net

end Mtk3Smp
