import Mtk3Smp.Net.Lwip

/-!
# The ping session

The part of `lwip_utk_ipv4.c` that sends echo requests to a target: at most five, a second
apart, until one is answered.
-/

namespace Mtk3Smp

namespace Net

abbrev UTK_PING_ID : UH := 0x554b
abbrev UTK_PING_INTERVAL_MS : UW := 1000
abbrev UTK_PING_MAX_ATTEMPTS : UW := 5
abbrev UTK_PING_FINAL_WAIT_MS : UW := 1000
/-- The type of an echo reply, and the size of `struct icmp_echo_hdr`. -/
abbrev ICMP_ER : UB := 0
abbrev sizeofEchoHdr : Nat := 8

structure Ping where
  configResult : Err
  configured : Bool
  arpMac : Option (List UB)
  pingStarted : Bool
  pingComplete : Bool
  pingSendResult : Err
  pingResult : Err
  pingAttempts : UW
  pingElapsedMs : UW
  pingTarget : Ip4
  pingPcb : Option Nat
  pingStartedMs : UW
  lastPingMs : UW
  lwip : Pcbs

/-- What the lwIP calls of a poll answer. -/
structure PingAnswers where
  /-- `etharp_find_addr` -/
  arpMac : Option (List UB)
  rawNew : Option Nat
  rawBind : Err
  /-- `pbuf_alloc`, where it gives one pbuf that holds it all -/
  pbufAlloc : Bool
  rawSendto : Err

namespace Ping

variable (s : Ping)

/-- `echo.id`, as the bytes lie in memory. -/
def echoId (echo : List UB) : UH := (echo.getD 5 0) ++ (echo.getD 4 0)

/-- Whether a datagram answers a request; `offset` is the length of its IP header. -/
def isReply (p : Pbuf) (offset : Nat) (source : Ip4) : Bool :=
  let echo := p.copyPartial sizeofEchoHdr offset
  !(p.totLen < offset + sizeofEchoHdr || echo.length != sizeofEchoHdr) &&
    !(echo.getD 0 0 != ICMP_ER || echo.getD 1 0 != 0 || echoId echo != UTK_PING_ID ||
      source != s.pingTarget)

/-- `hdrLen` is the length of the header that `ip4_current_header` points to. -/
def pingRecv (p : Option Pbuf) (hdrLen : Option Nat) (source : Option Ip4) (now : UW) : Ping :=
  match hdrLen, source, p with
  | some offset, some source, some p =>
    if s.isReply p offset source then
      { s with
        pingResult := ERR_OK
        pingComplete := true
        pingElapsedMs := now - s.pingStartedMs }
    else s
  | _, _, _ => s

/-- The result of `send_ping`, and whether it comes to `raw_sendto`. -/
def sendPing (o : PingAnswers) : Err × Bool :=
  if !o.pbufAlloc then (ERR_MEM, false) else (o.rawSendto, true)

/-- `lwip_utk_ipv4_configure` and `lwip_utk_ipv4_adopt_netif`: with an error, or with the
target. -/
def configure (result : Err) (target : Ip4) : Ping :=
  if result = ERR_OK then
    { s with pingTarget := target, configResult := ERR_OK, configured := true }
  else { s with configResult := result, pingTarget := target }

/-- The first poll of a session. -/
def pollStart (now : UW) (o : PingAnswers) : Ping :=
  match o.rawNew with
  | none => { s with pingPcb := none, pingResult := ERR_MEM, pingComplete := true }
  | some h =>
    -- raw_recv, raw_bind_netif and raw_bind
    let s := { s with pingPcb := some h, lwip := (s.lwip.new h).uses h 3 }
    if o.rawBind ≠ ERR_OK then
      { s with
        pingPcb := none
        lwip := s.lwip.release h
        pingResult := ERR_USE
        pingComplete := true }
    else
      { s with
        pingStarted := true
        pingStartedMs := now
        lastPingMs := now - UTK_PING_INTERVAL_MS }

/-- An attempt, or the end of the wait after the last one. -/
def pollAttempt (now : UW) (o : PingAnswers) : Ping :=
  if s.pingAttempts < UTK_PING_MAX_ATTEMPTS ∧ now - s.lastPingMs ≥ UTK_PING_INTERVAL_MS then
    let (result, sent) := sendPing o
    { s with
      pingSendResult := result
      pingAttempts := s.pingAttempts + 1
      lastPingMs := now
      lwip := match s.pingPcb with
        | some h => if sent then s.lwip.use h else s.lwip
        | none => s.lwip }
  else if s.pingAttempts ≥ UTK_PING_MAX_ATTEMPTS ∧
      now - s.lastPingMs ≥ UTK_PING_FINAL_WAIT_MS then
    { s with
      pingResult := ERR_TIMEOUT
      pingElapsedMs := now - s.pingStartedMs
      pingComplete := true }
  else s

/-- `lwip_utk_ipv4_poll` -/
def poll (netif : Netif) (now : UW) (o : PingAnswers) : Ping :=
  if !s.configured ∨ !netif.isUp ∨ !netif.isLinkUp then s
  else
    let s := match o.arpMac with
      | some mac => { s with arpMac := some mac }
      | none => s
    if s.pingComplete then s
    else if s.pingStarted then s.pollAttempt now o
    else
      let s := s.pollStart now o
      if s.pingComplete then s else s.pollAttempt now o

end Ping

inductive PingEvent
  | configure (result : Err) (target : Ip4)
  | poll (netif : Netif) (now : UW) (o : PingAnswers)
  | recv (p : Option Pbuf) (hdrLen : Option Nat) (source : Option Ip4) (now : UW)

namespace Ping

def step (s : Ping) : PingEvent → Option Ping
  | .configure result target => some (s.configure result target)
  | .poll netif now o => if s.lwip.isNew o.rawNew then some (s.poll netif now o) else none
  | .recv p hdrLen source now =>
    -- ping_recv belongs to a pcb that lwIP still has
    if s.pingPcb.isSome then some (s.pingRecv p hdrLen source now) else none

/-- At reset. -/
structure Init (s : Ping) : Prop where
  configResult : s.configResult = ERR_VAL
  pingResult : s.pingResult = ERR_TIMEOUT
  configured : s.configured = false
  pingStarted : s.pingStarted = false
  pingComplete : s.pingComplete = false
  pingPcb : s.pingPcb = none
  lwip : s.lwip = .empty

end Ping

end Net

def pingSys : Lts Net.Ping Net.PingEvent where
  init := Net.Ping.Init
  step := Net.Ping.step

end Mtk3Smp
