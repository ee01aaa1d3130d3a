import Mtk3Smp.Net.TcpConn

/-!
# The TCP bulk session

`lwip_utk_tcpbulk.c`: a stream of 32768 bytes is sent as fast as lwIP takes it, and what comes
back is compared with the byte that belongs to its offset.
-/

namespace Mtk3Smp

namespace Net

abbrev UTK_BULK_CONNECT_TIMEOUT_MS : UW := 10000
abbrev UTK_BULK_STALL_TIMEOUT_MS : UW := 5000
abbrev UTK_BULK_CLOSE_TIMEOUT_MS : UW := 5000
abbrev UTK_BULK_SESSION_TIMEOUT_MS : UW := 30000
abbrev UTK_BULK_CHUNK : Nat := 64
abbrev UTK_BULK_SEND_CHUNK : Nat := 512
/-- `total_bytes` -/
abbrev LWIP_UTK_TCPBULK_TOTAL_BYTES : Nat := 32768

def streamByte (offset : UW) : UB :=
  let h := offset * 2654435761
  let h := h ^^^ (h >>> 13)
  let h := h * 1274126177
  (h ^^^ (h >>> 17)).setWidth 8

structure TcpBulk where
  conn : Conn
  mismatches : UW
  firstMismatch : UW
  maxSegment : UW
  minSegment : UW
  splitBoundaries : UW
  writeRetries : UW
  throughputBps : UW
  sendOffset : UW
  recvOffset : UW
  lastProgressMs : UW

structure TcpBulkAnswers extends TcpAnswers where
  /-- `tcp_sndbuf` and `tcp_write`, one time after the other; the space is 0 in the end -/
  writes : List (UH × Err)
  tcpOutput : Err

namespace TcpBulk

variable (s : TcpBulk)

def finish (result : Err) (now : UW) : TcpBulk :=
  let s := { s with conn := s.conn.finish result now }
  if s.conn.elapsedMs > 0 then
    { s with throughputBps := s.conn.bytesReceived * 1000 / s.conn.elapsedMs }
  else s

def bulkErr (h : Nat) (err : Err) (now : UW) : TcpBulk :=
  let s := { s with conn := s.conn.freed h err }
  if !s.conn.complete then s.finish err now else s

def bulkSent (len : UW) (now : UW) : TcpBulk :=
  { s with conn := s.conn.sent len, lastProgressMs := now }

/-- The bytes of `recv_scratch`, of which the first one is at `offset` of the stream. -/
def compareBytes : List UB → UW → TcpBulk → TcpBulk
  | [], _, s => s
  | x :: rest, offset, s =>
    compareBytes rest (offset + 1)
      (if x ≠ streamByte offset then
        { s with
          firstMismatch := if s.mismatches = 0 then offset else s.firstMismatch
          mismatches := s.mismatches + 1 }
      else s)

/-- The loop of `bulk_recv`. -/
def recvLoop (p : Pbuf) (now : UW) : Nat → Nat → TcpBulk → TcpBulk
  | 0, _, s => s
  | fuel + 1, offset, s =>
    if offset < p.totLen then
      let chunk := min UTK_BULK_CHUNK (p.totLen - offset)
      let copied := p.copyPartial chunk offset
      if copied.length ≠ chunk then
        { s with mismatches := s.mismatches + 1 }.finish ERR_BUF now
      else
        let s := compareBytes copied s.recvOffset s
        recvLoop p now fuel (offset + chunk)
          { s with recvOffset := s.recvOffset + BitVec.ofNat 32 chunk }
    else s

/-- A segment, up to the loop. -/
def segment (h : Nat) (p : Pbuf) (now : UW) : TcpBulk :=
  let len := BitVec.ofNat 32 p.totLen
  { s with
    conn := s.conn.segment h p
    maxSegment := if len > s.maxSegment then len else s.maxSegment
    minSegment := if len < s.minSegment then len else s.minSegment
    splitBoundaries :=
      if s.recvOffset.toNat % UTK_BULK_CHUNK ≠ 0 then s.splitBoundaries + 1
      else s.splitBoundaries
    lastProgressMs := now }

def bulkRecv (h : Nat) (p : Option Pbuf) (err : Err) (now : UW) : TcpBulk :=
  if err ≠ ERR_OK then s.finish err now
  else
    match p with
    | none => { s with conn := { s.conn with peerFin := true } }
    | some p =>
      let s := recvLoop p now p.totLen 0 (s.segment h p now)
      if s.mismatches ≠ 0 ∧ !s.conn.complete then s.finish ERR_VAL now else s

def bulkConnected (err : Err) (now : UW) : TcpBulk :=
  let s := { s with conn := { s.conn with connectResult := err } }
  if err ≠ ERR_OK then s.finish err now
  else { s with conn := s.conn.connectedNow now, lastProgressMs := now }

/-- The loop of `pump_send`: the bytes queued, or `none` where it returns. -/
def pumpLoop (h : Nat) : List (UH × Err) → Nat → TcpBulk → TcpBulk × Option Nat
  | [], queued, s =>
    if s.sendOffset.toNat < LWIP_UTK_TCPBULK_TOTAL_BYTES then
      ({ s with conn := { s.conn with lwip := s.conn.lwip.use h } }, some queued)
    else (s, some queued)
  | (space, result) :: rest, queued, s =>
    if s.sendOffset.toNat < LWIP_UTK_TCPBULK_TOTAL_BYTES then
      let s := { s with conn := { s.conn with lwip := s.conn.lwip.use h } }
      let remaining := LWIP_UTK_TCPBULK_TOTAL_BYTES - s.sendOffset.toNat
      if space = 0 then (s, some queued)
      else
        let chunk := min (min UTK_BULK_SEND_CHUNK space.toNat) remaining
        let s := { s with conn := { s.conn with lwip := s.conn.lwip.use h } }
        if result = ERR_MEM then ({ s with writeRetries := s.writeRetries + 1 }, some queued)
        else
          let s := { s with conn := { s.conn with sendResult := result } }
          if result ≠ ERR_OK then (s, none)
          else
            pumpLoop h rest (queued + chunk)
              { s with
                sendOffset := s.sendOffset + BitVec.ofNat 32 chunk
                conn := { s.conn with
                  bytesSent := s.conn.bytesSent + BitVec.ofNat 32 chunk } }
    else (s, some queued)

def pumpSend (h : Nat) (o : TcpBulkAnswers) : TcpBulk :=
  match pumpLoop h o.writes 0 s with
  | (s, none) => s
  | (s, some queued) =>
    if queued > 0 then
      { s with conn := { s.conn with sendResult := o.tcpOutput, lwip := s.conn.lwip.use h } }
    else s

/-- The poll of a connected session. -/
def pollConnected (h : Nat) (now : UW) (o : TcpBulkAnswers) : TcpBulk :=
  if s.conn.finSent then
    let (conn, verdict) := s.conn.pollFin UTK_BULK_CLOSE_TIMEOUT_MS now o.toTcpAnswers
    let s := { s with conn := conn }
    match verdict with
    | some result => s.finish result now
    | none => s
  else if s.recvOffset.toNat ≥ LWIP_UTK_TCPBULK_TOTAL_BYTES then
    let (conn, failed) := s.conn.shutdown h now o.toTcpAnswers
    let s := { s with conn := conn }
    if failed then s.finish o.tcpShutdown now else s
  else
    let s := if s.sendOffset.toNat < LWIP_UTK_TCPBULK_TOTAL_BYTES then s.pumpSend h o else s
    if now - s.lastProgressMs ≥ UTK_BULK_STALL_TIMEOUT_MS then s.finish ERR_TIMEOUT now else s

/-- The poll after the clock has been read. -/
def pollTimed (h : Nat) (now : UW) (o : TcpBulkAnswers) : TcpBulk :=
  if s.conn.elapsedMs ≥ UTK_BULK_SESSION_TIMEOUT_MS then s.finish ERR_TIMEOUT now
  else if !s.conn.connected then
    if now - s.conn.connectStartedMs ≥ UTK_BULK_CONNECT_TIMEOUT_MS then
      { s with conn := { s.conn with connectResult := ERR_TIMEOUT } }.finish ERR_TIMEOUT now
    else s
  else s.pollConnected h now o

/-- The poll of a session that goes on. -/
def pollSession (h : Nat) (now : UW) (o : TcpBulkAnswers) : TcpBulk :=
  let s := if s.conn.started then s else { s with
    conn := { s.conn with started := true, startedMs := now }
    lastProgressMs := now }
  let s := { s with conn := { s.conn with elapsedMs := now - s.conn.startedMs } }
  s.pollTimed h now o

/-- The poll after `initialize`. -/
def pollOpen (netif : Option Netif) (now : UW) (o : TcpBulkAnswers) : TcpBulk :=
  match s.conn.pcb with
  | none => s
  | some h =>
    if s.conn.complete ∨ !netif.any Netif.isReady then s else s.pollSession h now o

/-- `lwip_utk_tcpbulk_poll` -/
def poll (c : TcpPeer) (netif : Option Netif) (now : UW) (o : TcpBulkAnswers) : TcpBulk :=
  if s.conn.complete then
    if !s.conn.closed then { s with conn := s.conn.releasePcb o.toTcpAnswers } else s
  else
    let s := if s.conn.initialized then s
      else { s with conn := s.conn.initSession c netif o.toTcpAnswers }
    s.pollOpen netif now o

def callback (h : Nat) (now : UW) : TcpCallback → TcpBulk
  | .recv p err => s.bulkRecv h p err now
  | .sent len => s.bulkSent len now
  | .connected err => s.bulkConnected err now
  | .err err => s.bulkErr h err now

end TcpBulk

namespace TcpBulk

variable {s : TcpBulk}

theorem finish_conn (result : Err) (now : UW) :
    (s.finish result now).conn = s.conn.finish result now := by
  unfold finish
  dsimp only
  split <;> rfl

theorem compareBytes_rest (bytes : List UB) (offset : UW) :
    (compareBytes bytes offset s).conn = s.conn ∧
      (compareBytes bytes offset s).recvOffset = s.recvOffset := by
  induction bytes generalizing offset s with
  | nil => exact ⟨rfl, rfl⟩
  | cons x rest ih =>
    obtain ⟨hconn, hoff⟩ := @ih _ (offset + 1)
    rw [compareBytes, hconn, hoff]
    split <;> exact ⟨rfl, rfl⟩

/-- A segment is as long as it says, so the loop does not end the session. -/
theorem recvLoop_conn (p : Pbuf) (now : UW) (fuel offset : Nat) :
    (recvLoop p now fuel offset s).conn = s.conn := by
  induction fuel generalizing offset s with
  | zero => rfl
  | succ fuel ih =>
    rw [recvLoop]
    split
    · have hlen : (p.copyPartial (min UTK_BULK_CHUNK (p.totLen - offset)) offset).length =
          min UTK_BULK_CHUNK (p.totLen - offset) := Pbuf.length_copyPartial (by omega)
      dsimp only
      rw [if_neg (not_not_intro hlen), ih]
      exact (compareBytes_rest _ _).1
    · rfl

end TcpBulk

inductive TcpBulkEvent
  | poll (netif : Option Netif) (now : UW) (o : TcpBulkAnswers)
  | callback (h : Nat) (now : UW) (cb : TcpCallback)

namespace TcpBulk

def step (c : TcpPeer) (s : TcpBulk) : TcpBulkEvent → Option TcpBulk
  | .poll netif now o =>
    if s.conn.lwip.isNew o.tcpNew then some (s.poll c netif now o) else none
  | .callback h now cb => if s.conn.mayCall h cb then some (s.callback h now cb) else none

/-- At reset. -/
structure Init (s : TcpBulk) : Prop where
  conn : s.conn.Init
  mismatches : s.mismatches = 0
  firstMismatch : s.firstMismatch = 0
  sendOffset : s.sendOffset = 0
  recvOffset : s.recvOffset = 0

end TcpBulk

end Net

def tcpBulkSys (c : Net.TcpPeer) : Lts Net.TcpBulk Net.TcpBulkEvent where
  init := Net.TcpBulk.Init
  step := Net.TcpBulk.step c

end Mtk3Smp
