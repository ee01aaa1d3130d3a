import Mtk3Smp.Lib.Cyclic
import Mtk3Smp.Net.TcpConn

/-!
# The TCP record echo session

`lwip_utk_tcp.c`: 64 records of 48 bytes, each sent when the echo of the one before has come
back. The receive callback puts the records together from segments of any size.
-/

namespace Mtk3Smp

namespace Net

abbrev UTK_TCP_CONNECT_TIMEOUT_MS : UW := 10000
abbrev UTK_TCP_ECHO_TIMEOUT_MS : UW := 2000
abbrev UTK_TCP_CLOSE_TIMEOUT_MS : UW := 5000
abbrev UTK_TCP_SESSION_TIMEOUT_MS : UW := 30000
abbrev LWIP_UTK_TCP_RECORD_COUNT : Nat := 64
abbrev LWIP_UTK_TCP_RECORD_SIZE : Nat := 48

def makeRecord (value : UH) : List UB :=
  message 0x37 LWIP_UTK_TCP_RECORD_COUNT LWIP_UTK_TCP_RECORD_SIZE value

structure TcpEcho where
  conn : Conn
  recordsSent : UW
  recordsMatched : UW
  shortSegments : UW
  corrupt : UW
  sendErrors : UW
  pollCalls : UW
  guardBlocked : UW
  startDelayMs : UW
  record : UH
  awaitingEcho : Bool
  rxFill : Nat
  rxBuffer : Nat → UB
  lastSendMs : UW

structure TcpEchoAnswers extends TcpAnswers where
  tcpWrite : Err
  tcpOutput : Err

namespace TcpEcho

variable (s : TcpEcho)

def finish (result : Err) (now : UW) : TcpEcho :=
  { s with conn := s.conn.finish result now, awaitingEcho := false }

def tcpEchoErr (h : Nat) (err : Err) (now : UW) : TcpEcho :=
  let s := { s with conn := s.conn.freed h err }
  if !s.conn.complete then s.finish err now else s

def tcpEchoSent (len : UW) : TcpEcho := { s with conn := s.conn.sent len }

/-- The bytes of `rx_buffer`. -/
def rxRecord : List UB := Cyclic.slice s.rxBuffer 0 LWIP_UTK_TCP_RECORD_SIZE

/-- A record is complete. -/
def takeRecord (now : UW) : TcpEcho :=
  let s := { s with rxFill := 0 }
  if !s.awaitingEcho then { s with corrupt := s.corrupt + 1 }.finish ERR_VAL now
  else if s.rxRecord ≠ makeRecord s.record then
    { s with corrupt := s.corrupt + 1 }.finish ERR_VAL now
  else
    { s with
      recordsMatched := s.recordsMatched + 1
      awaitingEcho := false
      record := s.record + 1 }

/-- The loop of `tcp_echo_recv`. -/
def recvLoop (p : Pbuf) (now : UW) : Nat → Nat → TcpEcho → TcpEcho
  | 0, _, s => s
  | fuel + 1, offset, s =>
    if offset < p.totLen ∧ !s.conn.complete then
      let chunk := min (LWIP_UTK_TCP_RECORD_SIZE - s.rxFill) (p.totLen - offset)
      let copied := p.copyPartial chunk offset
      if copied.length ≠ chunk then
        { s with corrupt := s.corrupt + 1 }.finish ERR_BUF now
      else
        let s := { s with
          rxBuffer := Cyclic.put s.rxBuffer s.rxFill copied
          rxFill := s.rxFill + chunk }
        if s.rxFill < LWIP_UTK_TCP_RECORD_SIZE then s
        else recvLoop p now fuel (offset + chunk) (s.takeRecord now)
    else s

/-- A segment, up to the loop. -/
def segment (h : Nat) (p : Pbuf) : TcpEcho :=
  { s with
    conn := s.conn.segment h p
    shortSegments :=
      if p.totLen < LWIP_UTK_TCP_RECORD_SIZE then s.shortSegments + 1 else s.shortSegments }

def tcpEchoRecv (h : Nat) (p : Option Pbuf) (err : Err) (now : UW) : TcpEcho :=
  if err ≠ ERR_OK then s.finish err now
  else
    match p with
    | none => { s with conn := { s.conn with peerFin := true } }
    | some p => recvLoop p now p.totLen 0 (s.segment h p)

def tcpEchoConnected (err : Err) (now : UW) : TcpEcho :=
  let s := { s with conn := { s.conn with connectResult := err } }
  if err ≠ ERR_OK then s.finish err now else { s with conn := s.conn.connectedNow now }

/-- The result of `send_record`, and how many calls it takes. -/
def sendRecord (o : TcpEchoAnswers) : Err × Nat :=
  if o.tcpWrite = ERR_OK then (o.tcpOutput, 2) else (o.tcpWrite, 1)

/-- The next record. -/
def pollSend (h : Nat) (now : UW) (o : TcpEchoAnswers) : TcpEcho :=
  let (result, calls) := sendRecord o
  let s := { s with conn := { s.conn with
    sendResult := result
    lwip := s.conn.lwip.uses h calls } }
  if result = ERR_OK then
    { s with
      recordsSent := s.recordsSent + 1
      conn := { s.conn with
        bytesSent := s.conn.bytesSent + BitVec.ofNat 32 LWIP_UTK_TCP_RECORD_SIZE }
      lastSendMs := now
      awaitingEcho := true }
  else if result ≠ ERR_MEM then
    { s with sendErrors := s.sendErrors + 1 }.finish result now
  else s

/-- The poll of a connected session. -/
def pollConnected (h : Nat) (now : UW) (o : TcpEchoAnswers) : TcpEcho :=
  if s.conn.finSent then
    let (conn, verdict) := s.conn.pollFin UTK_TCP_CLOSE_TIMEOUT_MS now o.toTcpAnswers
    let s := { s with conn := conn }
    match verdict with
    | some result => s.finish result now
    | none => s
  else if s.recordsMatched.toNat ≥ LWIP_UTK_TCP_RECORD_COUNT then
    let (conn, failed) := s.conn.shutdown h now o.toTcpAnswers
    let s := { s with conn := conn }
    if failed then s.finish o.tcpShutdown now else s
  else if s.awaitingEcho then
    if now - s.lastSendMs ≥ UTK_TCP_ECHO_TIMEOUT_MS then s.finish ERR_TIMEOUT now else s
  else s.pollSend h now o

/-- The poll after the clock has been read. -/
def pollTimed (h : Nat) (now : UW) (o : TcpEchoAnswers) : TcpEcho :=
  if s.conn.elapsedMs ≥ UTK_TCP_SESSION_TIMEOUT_MS then s.finish ERR_TIMEOUT now
  else if !s.conn.connected then
    if now - s.conn.connectStartedMs ≥ UTK_TCP_CONNECT_TIMEOUT_MS then
      { s with conn := { s.conn with connectResult := ERR_TIMEOUT } }.finish ERR_TIMEOUT now
    else s
  else s.pollConnected h now o

/-- The poll of a session that goes on. -/
def pollSession (h : Nat) (now : UW) (o : TcpEchoAnswers) : TcpEcho :=
  let s := if s.conn.started then s else { s with
    conn := { s.conn with started := true, startedMs := now }
    startDelayMs := now - s.conn.connectStartedMs }
  let s := { s with conn := { s.conn with elapsedMs := now - s.conn.startedMs } }
  s.pollTimed h now o

/-- The poll after `initialize`. -/
def pollOpen (netif : Option Netif) (now : UW) (o : TcpEchoAnswers) : TcpEcho :=
  match s.conn.pcb with
  | none => { s with guardBlocked := s.guardBlocked + 1 }
  | some h =>
    if s.conn.complete ∨ !netif.any Netif.isReady then
      { s with guardBlocked := s.guardBlocked + 1 }
    else s.pollSession h now o

/-- `lwip_utk_tcp_poll` -/
def poll (c : TcpPeer) (netif : Option Netif) (now : UW) (o : TcpEchoAnswers) : TcpEcho :=
  let s := { s with pollCalls := s.pollCalls + 1 }
  if s.conn.complete then
    if !s.conn.closed then { s with conn := s.conn.releasePcb o.toTcpAnswers } else s
  else
    let s := if s.conn.initialized then s
      else { s with conn := s.conn.initSession c netif o.toTcpAnswers }
    s.pollOpen netif now o

def callback (h : Nat) (now : UW) : TcpCallback → TcpEcho
  | .recv p err => s.tcpEchoRecv h p err now
  | .sent len => s.tcpEchoSent len
  | .connected err => s.tcpEchoConnected err now
  | .err err => s.tcpEchoErr h err now

end TcpEcho

theorem TcpEcho.recvLoop_complete {s : TcpEcho} (p : Pbuf) (now : UW) (fuel offset : Nat)
    (hc : s.conn.complete = true) : recvLoop p now fuel offset s = s := by
  cases fuel with
  | zero => rfl
  | succ fuel =>
    rw [recvLoop, if_neg]
    rw [hc]
    exact fun h => Bool.false_ne_true h.2

inductive TcpEchoEvent
  | poll (netif : Option Netif) (now : UW) (o : TcpEchoAnswers)
  | callback (h : Nat) (now : UW) (cb : TcpCallback)

namespace TcpEcho

def step (c : TcpPeer) (s : TcpEcho) : TcpEchoEvent → Option TcpEcho
  | .poll netif now o =>
    if s.conn.lwip.isNew o.tcpNew then some (s.poll c netif now o) else none
  | .callback h now cb => if s.conn.mayCall h cb then some (s.callback h now cb) else none

/-- At reset. -/
structure Init (s : TcpEcho) : Prop where
  conn : s.conn.Init
  recordsMatched : s.recordsMatched = 0
  record : s.record = 0
  awaitingEcho : s.awaitingEcho = false
  rxFill : s.rxFill = 0

end TcpEcho

end Net

def tcpEchoSys (c : Net.TcpPeer) : Lts Net.TcpEcho Net.TcpEchoEvent where
  init := Net.TcpEcho.Init
  step := Net.TcpEcho.step c

end Mtk3Smp
