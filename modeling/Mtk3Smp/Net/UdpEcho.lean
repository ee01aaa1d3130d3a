import Mtk3Smp.Net.Lwip

/-!
# The UDP echo session

`lwip_utk_udp.c`: a stop-and-wait exchange of 64 messages with an echo peer, driven by a poll
and by the receive callback, and started again some time after it has ended.
-/

namespace Mtk3Smp

namespace Net

abbrev UTK_UDP_REPLY_TIMEOUT_MS : UW := 250
abbrev UTK_UDP_SESSION_TIMEOUT_MS : UW := 30000
abbrev UTK_UDP_MAX_ATTEMPTS : UW := 3
abbrev UTK_UDP_REPEAT_MS : UW := 5000
abbrev LWIP_UTK_UDP_PACKET_COUNT : Nat := 64
abbrev LWIP_UTK_UDP_PAYLOAD_SIZE : Nat := 48
abbrev LWIP_UTK_UDP_RING : Nat := 32

def makePayload (value : UH) : List UB :=
  message 0x36 LWIP_UTK_UDP_PACKET_COUNT LWIP_UTK_UDP_PAYLOAD_SIZE value

/-- A reply that was taken: for which number, what it held, and `awaiting_reply` then. -/
structure Matched where
  seq : UH
  received : List UB
  awaited : Bool

/-- The build's address of the peer, as `ip4addr_aton` reads it, and its port. -/
structure Peer where
  aton : Option Ip4
  port : UH

structure Udp where
  initResult : Err
  initialized : Bool
  started : Bool
  complete : Bool
  closed : Bool
  sendResult : Err
  result : Err
  packetsSent : UW
  packetsReceived : UW
  packetsMatched : UW
  retries : UW
  sendErrors : UW
  corrupt : UW
  unexpected : UW
  elapsedMs : UW
  ringPayload : Nat → List UB
  ringSeq : Nat → UW
  ringLen : Nat → UH
  writeSeq : UW
  sessionCount : UW
  udpPcb : Option Nat
  udpTarget : Ip4
  sequence : UH
  sequenceAttempts : UW
  awaitingReply : Bool
  startedMs : UW
  lastSendMs : UW
  completedMs : UW
  lwip : Pcbs
  /-- history: the calls of `send_packet` for each number and the replies taken, both in this
  session, and the replies taken in the sessions before -/
  sends : Nat → Nat
  matched : List Matched
  past : List Matched

/-- What the lwIP calls of a poll answer. -/
structure UdpAnswers where
  udpNew : Option Nat
  udpBind : Err
  udpConnect : Err
  pbufAlloc : Bool
  pbufTake : Err
  udpSend : Err

namespace Udp

variable (s : Udp)

def finish (result : Err) (now : UW) : Udp :=
  { s with
    result := result
    elapsedMs := now - s.startedMs
    complete := true
    awaitingReply := false
    completedMs := now }

def restartSession : Udp :=
  { s with
    started := false
    complete := false
    closed := false
    initialized := false
    packetsSent := 0
    packetsReceived := 0
    packetsMatched := 0
    retries := 0
    sendErrors := 0
    corrupt := 0
    unexpected := 0
    elapsedMs := 0
    result := 0
    sendResult := 0
    sessionCount := s.sessionCount + 1
    sequence := 0
    sequenceAttempts := 0
    awaitingReply := false
    sends := fun _ => 0
    matched := []
    past := s.past ++ s.matched }

/-- The reply to the number that is awaited. -/
def takeReply (received : List UB) (now : UW) : Udp :=
  let slot := s.writeSeq.toNat % LWIP_UTK_UDP_RING
  let s' := { s with
    packetsMatched := s.packetsMatched + 1
    ringPayload := Function.update s.ringPayload slot received
    ringLen := Function.update s.ringLen slot (BitVec.ofNat 16 received.length)
    ringSeq := Function.update s.ringSeq slot (s.sequence.setWidth 32)
    writeSeq := s.writeSeq + 1
    sequence := s.sequence + 1
    sequenceAttempts := 0
    awaitingReply := false
    matched := s.matched ++ [⟨s.sequence, received, s.awaitingReply⟩] }
  if s'.sequence.toNat ≥ LWIP_UTK_UDP_PACKET_COUNT then s'.finish ERR_OK now else s'

def udpEchoRecv (c : Peer) (p : Option Pbuf) (address : Option Ip4) (port : UH) (now : UW) :
    Udp :=
  match p with
  | none => s
  | some p =>
    if address ≠ some s.udpTarget ∨ port ≠ c.port ∨ !s.awaitingReply ∨ s.complete then
      { s with unexpected := s.unexpected + 1 }
    else
      let s := { s with packetsReceived := s.packetsReceived + 1 }
      let expected := makePayload s.sequence
      let received := p.copyPartial LWIP_UTK_UDP_PAYLOAD_SIZE 0
      if p.totLen ≠ LWIP_UTK_UDP_PAYLOAD_SIZE ∨ received.length ≠ LWIP_UTK_UDP_PAYLOAD_SIZE ∨
          received ≠ expected then
        { s with corrupt := s.corrupt + 1 }
      else s.takeReply received now

/-- The result of `send_packet`, and whether it comes to `udp_send`. -/
def sendPacket (o : UdpAnswers) : Err × Bool :=
  if !o.pbufAlloc then (ERR_MEM, false)
  else if o.pbufTake = ERR_OK then (o.udpSend, true)
  else (o.pbufTake, false)

/-- The end of `initialize` where the session cannot start. -/
def initFailed (result : Err) : Udp :=
  { s with initResult := result, complete := true, closed := true, result := result }

/-- `initialize` -/
def initSession (c : Peer) (netif : Option Netif) (o : UdpAnswers) : Udp :=
  let s := { s with initialized := true }
  match netif, c.aton with
  | none, _ => s.initFailed ERR_ARG
  | some _, none => s.initFailed ERR_ARG
  | some _, some target =>
    let s := { s with udpTarget := target }
    if target = 0 then s.initFailed ERR_ARG
    else
      match o.udpNew with
      | none => { s with udpPcb := none }.initFailed ERR_MEM
      | some h =>
        -- udp_bind_netif and udp_bind
        let s := { s with udpPcb := some h, lwip := ((s.lwip.new h).use h).use h }
        let s := if o.udpBind = ERR_OK then { s with lwip := s.lwip.use h } else s
        let result := if o.udpBind = ERR_OK then o.udpConnect else o.udpBind
        if result ≠ ERR_OK then
          { s with udpPcb := none, lwip := s.lwip.release h }.initFailed result
        else { s with lwip := s.lwip.use h, initResult := ERR_OK }

/-- The poll of a session that has ended. -/
def pollComplete (now : UW) : Udp :=
  let s := match s.udpPcb with
    | some h => { s with udpPcb := none, closed := true, lwip := s.lwip.release h }
    | none => s
  if s.initResult = ERR_OK ∧ now - s.completedMs ≥ UTK_UDP_REPEAT_MS then s.restartSession
  else s

/-- A first or another attempt for the number. -/
def pollSend (h : Nat) (now : UW) (o : UdpAnswers) : Udp :=
  let (result, sent) := sendPacket o
  let s := if s.sequenceAttempts > 0 then { s with retries := s.retries + 1 } else s
  let s := { s with
    sendResult := result
    sequenceAttempts := s.sequenceAttempts + 1
    sends := Function.update s.sends s.sequence.toNat (s.sends s.sequence.toNat + 1)
    lwip := if sent then s.lwip.use h else s.lwip }
  let s := if result = ERR_OK then { s with packetsSent := s.packetsSent + 1 }
    else { s with sendErrors := s.sendErrors + 1 }
  { s with lastSendMs := now, awaitingReply := true }

/-- The poll of a session that goes on. -/
def pollExchange (h : Nat) (now : UW) (o : UdpAnswers) : Udp :=
  let s := if s.started then s else { s with started := true, startedMs := now }
  let s := { s with elapsedMs := now - s.startedMs }
  if s.elapsedMs ≥ UTK_UDP_SESSION_TIMEOUT_MS then s.finish ERR_TIMEOUT now
  else if s.awaitingReply then
    if now - s.lastSendMs < UTK_UDP_REPLY_TIMEOUT_MS then s
    else if s.sequenceAttempts ≥ UTK_UDP_MAX_ATTEMPTS then s.finish ERR_TIMEOUT now
    else { s with awaitingReply := false }.pollSend h now o
  else s.pollSend h now o

/-- `lwip_utk_udp_poll` -/
def poll (c : Peer) (netif : Option Netif) (now : UW) (o : UdpAnswers) : Udp :=
  if s.complete then s.pollComplete now
  else
    let s := if s.initialized then s else s.initSession c netif o
    match s.udpPcb with
    | none => s
    | some h =>
      if s.complete ∨ !netif.any Netif.isReady then s else s.pollExchange h now o

end Udp

inductive UdpEvent
  | poll (netif : Option Netif) (now : UW) (o : UdpAnswers)
  | recv (p : Option Pbuf) (address : Option Ip4) (port : UH) (now : UW)

namespace Udp

def step (c : Peer) (s : Udp) : UdpEvent → Option Udp
  | .poll netif now o => if s.lwip.isNew o.udpNew then some (s.poll c netif now o) else none
  | .recv p address port now => some (s.udpEchoRecv c p address port now)

/-- At reset. -/
structure Init (s : Udp) : Prop where
  initResult : s.initResult = ERR_VAL
  result : s.result = ERR_TIMEOUT
  initialized : s.initialized = false
  complete : s.complete = false
  packetsMatched : s.packetsMatched = 0
  writeSeq : s.writeSeq = 0
  udpPcb : s.udpPcb = none
  sequence : s.sequence = 0
  sequenceAttempts : s.sequenceAttempts = 0
  awaitingReply : s.awaitingReply = false
  lwip : s.lwip = .empty
  sends : s.sends = fun _ => 0
  matched : s.matched = []
  past : s.past = []

end Udp

end Net

def udpSys (c : Net.Peer) : Lts Net.Udp Net.UdpEvent where
  init := Net.Udp.Init
  step := Net.Udp.step c

end Mtk3Smp
