import Mtk3Smp.Net.Ping
import Mtk3Smp.Net.TcpBulk
import Mtk3Smp.Net.TcpEcho
import Mtk3Smp.Net.UdpEchoProps

/-!
# Verdicts and pcbs

A session that has ended keeps its verdict, where no callback comes that writes it without a
look at the complete flag: an echo reply, and an error of the receive or connect callback. The
pcb of a session is never passed to lwIP when lwIP has it no more.
-/

namespace Mtk3Smp

universe u v w

/-- In a run that does not restart it, what has ended keeps its verdict. -/
def VerdictFinal {σ : Type u} {ε : Type v} {V : Type w} (L : Lts σ ε) (cond restart : σ → ε → Prop)
    (complete : σ → Bool) (verdict : σ → V) : Prop :=
  ∀ s t, L.ReachableIf cond s → L.RunIf (fun s e => cond s e ∧ ¬restart s e) s t →
    complete s = true → complete t = true ∧ verdict t = verdict s

theorem VerdictFinal.of_step {σ : Type u} {ε : Type v} {V : Type w} {L : Lts σ ε}
    {cond restart : σ → ε → Prop} {complete : σ → Bool} {verdict : σ → V}
    (keep : ∀ s e t, cond s e → ¬restart s e → L.step s e = some t → complete s = true →
      complete t = true ∧ verdict t = verdict s) :
    VerdictFinal L cond restart complete verdict := by
  intro s t _ run hs
  refine run.invariant (fun t => complete t = true ∧ verdict t = verdict s) ?_ ⟨hs, rfl⟩
  rintro t e t' ⟨hc, hv⟩ ⟨hcond, hno⟩ hstep
  obtain ⟨hc', hv'⟩ := keep t e t' hcond hno hstep hc
  exact ⟨hc', hv'.trans hv⟩

namespace Net

/-! ## The ping session -/

namespace Ping

variable {s s' : Ping}

/-- No answer comes after the session has ended. -/
def InTime (s : Ping) : PingEvent → Prop
  | .recv (some p) (some hdrLen) (some source) _ =>
    s.pingComplete = true → s.isReply p hdrLen source = false
  | _ => True

def verdict (s : Ping) : Err × UW := (s.pingResult, s.pingElapsedMs)

theorem step_final {e : PingEvent} (hcond : s.InTime e) (hs : s.step e = some s')
    (hc : s.pingComplete = true) : s'.pingComplete = true ∧ s'.verdict = s.verdict := by
  cases e with
  | configure result target =>
    cases hs
    unfold configure
    split <;> exact ⟨hc, rfl⟩
  | poll netif now o =>
    obtain ⟨-, hs⟩ := Option.ite_none_right_eq_some.1 hs
    cases hs
    unfold poll
    dsimp only
    split
    · exact ⟨hc, rfl⟩
    · split <;> rw [if_pos hc] <;> exact ⟨hc, rfl⟩
  | recv p hdrLen source now =>
    obtain ⟨-, hs⟩ := Option.ite_none_right_eq_some.1 hs
    cases hs
    unfold pingRecv
    split
    · have hno := hcond hc
      rw [if_neg (by rw [hno]; exact Bool.false_ne_true)]
      exact ⟨hc, rfl⟩
    · exact ⟨hc, rfl⟩

structure PcbOk (s : Ping) : Prop where
  safe : s.lwip.Safe
  own : ∀ h, s.pingPcb = some h → s.lwip.live h = true

theorem PcbOk.pollStart (ok : s.PcbOk) (now : UW) (o : PingAnswers) :
    (s.pollStart now o).PcbOk := by
  unfold Ping.pollStart
  split
  · exact ⟨ok.safe, nofun⟩
  · rename_i h _
    have hlive : (s.lwip.new h).live h = true := Pcbs.live_new
    have hsafe : ((s.lwip.new h).uses h 3).Safe := ok.safe.new.uses hlive 3
    dsimp only
    split
    · exact ⟨hsafe.release hlive, nofun⟩
    · refine ⟨hsafe, fun h' he => ?_⟩
      obtain rfl : h = h' := Option.some.inj he
      exact hlive

theorem PcbOk.pollAttempt (ok : s.PcbOk) (now : UW) (o : PingAnswers) :
    (s.pollAttempt now o).PcbOk := by
  unfold Ping.pollAttempt
  dsimp only
  split
  · refine ⟨?_, fun h he => ?_⟩
    · dsimp only
      split
      · rename_i h he
        split
        · exact ok.safe.use (ok.own h he)
        · exact ok.safe
      · exact ok.safe
    · have hlive := ok.own h he
      dsimp only at he ⊢
      rw [he]
      dsimp only
      split
      · exact hlive
      · exact hlive
  · split
    · exact ⟨ok.safe, ok.own⟩
    · exact ok

theorem PcbOk.step {e : PingEvent} (ok : s.PcbOk) (hs : s.step e = some s') : s'.PcbOk := by
  cases e with
  | configure result target =>
    cases hs
    unfold configure
    split <;> exact ⟨ok.safe, ok.own⟩
  | poll netif now o =>
    obtain ⟨-, hs⟩ := Option.ite_none_right_eq_some.1 hs
    cases hs
    have main : ∀ s1 : Ping, s1.PcbOk → PcbOk
        (if s1.pingComplete then s1
        else if s1.pingStarted then s1.pollAttempt now o
        else if (s1.pollStart now o).pingComplete then s1.pollStart now o
        else (s1.pollStart now o).pollAttempt now o) := by
      intro s1 ok1
      split
      · exact ok1
      · split
        · exact ok1.pollAttempt now o
        · split
          · exact ok1.pollStart now o
          · exact (ok1.pollStart now o).pollAttempt now o
    unfold Ping.poll
    dsimp only
    split
    · exact ok
    · split
      · exact main _ ⟨ok.safe, ok.own⟩
      · exact main s ok
  | recv p hdrLen source now =>
    obtain ⟨-, hs⟩ := Option.ite_none_right_eq_some.1 hs
    cases hs
    unfold pingRecv
    split
    · split
      · exact ⟨ok.safe, ok.own⟩
      · exact ok
    · exact ok

theorem pcb_safe (h : pingSys.Reachable s) : s.lwip.Safe := by
  have ok := h.invariant PcbOk (fun s hi => ⟨?_, ?_⟩) fun _ _ _ ok _ hs => PcbOk.step ok hs
  · exact ok.safe
  · rw [hi.lwip]
    exact Pcbs.safe_empty
  · rw [hi.pingPcb]
    nofun

end Ping

/-! ## The UDP echo session -/

namespace Udp

variable {s s' : Udp} {c : Peer}

/-- The polls that start the session again. -/
def Restarts (s : Udp) : UdpEvent → Prop
  | .poll _ now _ => s.complete = true ∧ s.initResult = ERR_OK ∧
      now - s.completedMs ≥ UTK_UDP_REPEAT_MS
  | _ => False

def verdict (s : Udp) : Err × UW := (s.result, s.elapsedMs)

theorem step_final {e : UdpEvent} (hno : ¬s.Restarts e) (hs : s.step c e = some s')
    (hc : s.complete = true) : s'.complete = true ∧ s'.verdict = s.verdict := by
  cases e with
  | poll netif now o =>
    obtain ⟨-, hs⟩ := Option.ite_none_right_eq_some.1 hs
    cases hs
    have hstay : ¬(s.initResult = ERR_OK ∧ now - s.completedMs ≥ UTK_UDP_REPEAT_MS) :=
      fun h => hno ⟨hc, h⟩
    unfold poll
    rw [if_pos hc]
    unfold pollComplete
    dsimp only
    split <;> rw [if_neg hstay] <;> exact ⟨hc, rfl⟩
  | recv p address port now =>
    cases hs
    rcases s.recv_cases c p address port now with ⟨r, co, u, he⟩ | ⟨hopen, -, -⟩
    · rw [he]
      exact ⟨hc, rfl⟩
    · rw [hc] at hopen
      cases hopen

structure PcbOk (s : Udp) : Prop where
  safe : s.lwip.Safe
  own : ∀ h, s.udpPcb = some h → s.lwip.live h = true

theorem PcbOk.initSession (ok : s.PcbOk) (netif : Option Netif) (o : UdpAnswers) :
    (s.initSession c netif o).PcbOk := by
  unfold Udp.initSession
  dsimp only
  split
  · exact ⟨ok.safe, ok.own⟩
  · exact ⟨ok.safe, ok.own⟩
  · split
    · exact ⟨ok.safe, ok.own⟩
    · split
      · exact ⟨ok.safe, nofun⟩
      · rename_i h _
        have hlive : (s.lwip.new h).live h = true := Pcbs.live_new
        have hsafe : (((s.lwip.new h).use h).use h).Safe := (ok.safe.new.use hlive).use hlive
        have hown : ∀ h', some h = some h' → (s.lwip.new h).live h' = true := by
          intro h' he
          obtain rfl : h = h' := Option.some.inj he
          exact hlive
        split
        · split
          · exact ⟨(hsafe.use hlive).release hlive, nofun⟩
          · exact ⟨(hsafe.use hlive).use hlive, hown⟩
        · exact ⟨hsafe.release hlive, nofun⟩

theorem PcbOk.pollComplete (ok : s.PcbOk) (now : UW) : (s.pollComplete now).PcbOk := by
  unfold Udp.pollComplete
  dsimp only
  split
  · rename_i h he
    have hsafe := ok.safe.release (ok.own h he)
    split
    · exact ⟨hsafe, nofun⟩
    · exact ⟨hsafe, nofun⟩
  · split
    · exact ⟨ok.safe, ok.own⟩
    · exact ok

theorem PcbOk.pollSend {h : Nat} (ok : s.PcbOk) (hlive : s.lwip.live h = true) (now : UW)
    (o : UdpAnswers) : (s.pollSend h now o).PcbOk := by
  have hsafe : (if (sendPacket o).2 then s.lwip.use h else s.lwip).Safe := by
    split
    · exact ok.safe.use hlive
    · exact ok.safe
  have hown : ∀ h', s.udpPcb = some h' →
      (if (sendPacket o).2 then s.lwip.use h else s.lwip).live h' = true := by
    intro h' he
    split
    · exact ok.own h' he
    · exact ok.own h' he
  unfold Udp.pollSend
  dsimp only
  split <;> split <;> exact ⟨hsafe, hown⟩

theorem PcbOk.pollExchange {h : Nat} (ok : s.PcbOk) (hlive : s.lwip.live h = true) (now : UW)
    (o : UdpAnswers) : (s.pollExchange h now o).PcbOk := by
  have main : ∀ s1 : Udp, s1.PcbOk → s1.lwip.live h = true → PcbOk
      (if s1.elapsedMs ≥ UTK_UDP_SESSION_TIMEOUT_MS then s1.finish ERR_TIMEOUT now
      else if s1.awaitingReply then
        if now - s1.lastSendMs < UTK_UDP_REPLY_TIMEOUT_MS then s1
        else if s1.sequenceAttempts ≥ UTK_UDP_MAX_ATTEMPTS then s1.finish ERR_TIMEOUT now
        else { s1 with awaitingReply := false }.pollSend h now o
      else s1.pollSend h now o) := by
    intro s1 ok1 hlive1
    split
    · exact ⟨ok1.safe, ok1.own⟩
    · split
      · split
        · exact ok1
        · split
          · exact ⟨ok1.safe, ok1.own⟩
          · have ok2 : PcbOk { s1 with awaitingReply := false } := ⟨ok1.safe, ok1.own⟩
            exact ok2.pollSend hlive1 now o
      · exact ok1.pollSend hlive1 now o
  unfold Udp.pollExchange
  by_cases hstarted : s.started
  · simp only [if_pos hstarted]
    exact main { s with elapsedMs := now - s.startedMs } ⟨ok.safe, ok.own⟩ hlive
  · simp only [if_neg hstarted]
    exact main { s with started := true, startedMs := now, elapsedMs := now - now }
      ⟨ok.safe, ok.own⟩ hlive

theorem PcbOk.step {e : UdpEvent} (ok : s.PcbOk) (hs : s.step c e = some s') : s'.PcbOk := by
  cases e with
  | poll netif now o =>
    obtain ⟨-, hs⟩ := Option.ite_none_right_eq_some.1 hs
    cases hs
    unfold Udp.poll
    split
    · exact ok.pollComplete now
    · have hinit : PcbOk (if s.initialized then s else s.initSession c netif o) := by
        split
        · exact ok
        · exact ok.initSession netif o
      dsimp only
      generalize (if s.initialized then s else s.initSession c netif o) = s1 at hinit ⊢
      split
      · exact hinit
      · rename_i h he
        split
        · exact hinit
        · exact hinit.pollExchange (hinit.own h he) now o
  | recv p address port now =>
    cases hs
    rcases s.recv_cases c p address port now with ⟨r, co, u, he⟩ | ⟨-, -, he⟩
    · rw [he]
      exact ⟨ok.safe, ok.own⟩
    · rw [he]
      unfold takeReply
      dsimp only
      split <;> exact ⟨ok.safe, ok.own⟩

theorem pcb_safe (h : (udpSys c).Reachable s) : s.lwip.Safe := by
  have ok := h.invariant PcbOk (fun s hi => ⟨?_, ?_⟩) fun _ _ _ ok _ hs => PcbOk.step ok hs
  · exact ok.safe
  · rw [hi.lwip]
    exact Pcbs.safe_empty
  · rw [hi.udpPcb]
    nofun

end Udp

/-! ## A TCP connection -/

namespace Conn

variable {s : Conn} {c : TcpPeer}

structure PcbOk (s : Conn) : Prop where
  safe : s.lwip.Safe
  own : ∀ h, s.pcb = some h → s.lwip.live h = true
  attached : ∀ h, s.attached = some h → s.lwip.live h = true

theorem Init.pcbOk (h : s.Init) : s.PcbOk := by
  refine ⟨?_, ?_, ?_⟩
  · rw [h.lwip]
    exact Pcbs.safe_empty
  · rw [h.pcb]
    nofun
  · rw [h.attached]
    nofun

theorem PcbOk.freed (ok : s.PcbOk) (h : Nat) (err : Err) : (s.freed h err).PcbOk :=
  ⟨ok.safe.free, nofun, nofun⟩

theorem PcbOk.uses (ok : s.PcbOk) {h : Nat} (hlive : s.lwip.live h = true) (n : Nat) :
    PcbOk { s with lwip := s.lwip.uses h n } :=
  ⟨ok.safe.uses hlive n, ok.own, ok.attached⟩

theorem PcbOk.use (ok : s.PcbOk) {h : Nat} (hlive : s.lwip.live h = true) :
    PcbOk { s with lwip := s.lwip.use h } :=
  ⟨ok.safe.use hlive, ok.own, ok.attached⟩

theorem PcbOk.initSession (ok : s.PcbOk) (netif : Option Netif) (o : TcpAnswers) :
    (s.initSession c netif o).PcbOk := by
  unfold Conn.initSession
  dsimp only
  split
  · exact ⟨ok.safe, ok.own, ok.attached⟩
  · exact ⟨ok.safe, ok.own, ok.attached⟩
  · split
    · exact ⟨ok.safe, ok.own, ok.attached⟩
    · split
      · exact ⟨ok.safe, nofun, ok.attached⟩
      · rename_i h _
        have hlive : (s.lwip.new h).live h = true := Pcbs.live_new
        have hsafe : ((s.lwip.new h).uses h 6).Safe := ok.safe.new.uses hlive 6
        have hown : ∀ h', some h = some h' → (s.lwip.new h).live h' = true := by
          intro h' he
          obtain rfl : h = h' := Option.some.inj he
          exact hlive
        split
        · exact ⟨(hsafe.uses hlive 5).release hlive, nofun, nofun⟩
        · exact ⟨hsafe, hown, hown⟩

theorem PcbOk.releasePcb (ok : s.PcbOk) (o : TcpAnswers) : (s.releasePcb o).PcbOk := by
  unfold Conn.releasePcb
  split
  · exact ⟨ok.safe, ok.own, ok.attached⟩
  · rename_i h he
    have hlive := ok.own h he
    have hsafe := ok.safe.uses hlive 5
    dsimp only
    split
    · exact ⟨(hsafe.use hlive).release hlive, nofun, nofun⟩
    · exact ⟨hsafe.release hlive, nofun, nofun⟩

theorem PcbOk.shutdown (ok : s.PcbOk) {h : Nat} (hlive : s.lwip.live h = true) (now : UW)
    (o : TcpAnswers) : (s.shutdown h now o).1.PcbOk := by
  have hok := ok.use hlive
  unfold Conn.shutdown
  dsimp only
  split
  · exact ⟨hok.safe, hok.own, hok.attached⟩
  · split
    · exact ⟨hok.safe, hok.own, hok.attached⟩
    · exact hok

theorem PcbOk.pollFin (ok : s.PcbOk) (closeTimeout now : UW) (o : TcpAnswers) :
    (s.pollFin closeTimeout now o).1.PcbOk := by
  unfold Conn.pollFin
  dsimp only
  split
  · have ok1 : PcbOk { s with closeMs := now - s.closeStartedMs } :=
      ⟨ok.safe, ok.own, ok.attached⟩
    exact ok1.releasePcb o
  · split
    · exact ⟨ok.safe, ok.own, ok.attached⟩
    · exact ok

theorem PcbOk.of_mayCall (ok : s.PcbOk) {h : Nat} {cb : TcpCallback}
    (hm : s.mayCall h cb = true) : s.lwip.live h = true := by
  apply ok.attached
  unfold mayCall at hm
  split at hm
  · simpa using (Bool.and_eq_true_iff.1 hm).1
  · simpa using hm

def verdict (s : Conn) : Err × UW := (s.result, s.elapsedMs)

theorem releasePcb_verdict (s : Conn) (o : TcpAnswers) :
    (s.releasePcb o).complete = s.complete ∧ (s.releasePcb o).verdict = s.verdict := by
  unfold Conn.releasePcb
  split
  · exact ⟨rfl, rfl⟩
  · dsimp only
    split <;> exact ⟨rfl, rfl⟩

/-- No callback with an error comes after the session has ended, but for the error callback. -/
def InTime (s : Conn) : TcpCallback → Prop
  | .recv _ err => s.complete = true → err = ERR_OK
  | .connected err => s.complete = true → err = ERR_OK
  | _ => True

end Conn

/-! ## The record echo session -/

namespace TcpEcho

variable {s s' : TcpEcho} {c : TcpPeer}

def InTime (s : TcpEcho) : TcpEchoEvent → Prop
  | .callback _ _ cb => s.conn.InTime cb
  | _ => True

theorem step_final {e : TcpEchoEvent} (hcond : s.InTime e) (hs : s.step c e = some s')
    (hc : s.conn.complete = true) :
    s'.conn.complete = true ∧ s'.conn.verdict = s.conn.verdict := by
  cases e with
  | poll netif now o =>
    obtain ⟨-, hs⟩ := Option.ite_none_right_eq_some.1 hs
    cases hs
    unfold poll
    dsimp only
    rw [if_pos hc]
    split
    · obtain ⟨hcomplete, hverdict⟩ := s.conn.releasePcb_verdict o.toTcpAnswers
      exact ⟨hcomplete.trans hc, hverdict⟩
    · exact ⟨hc, rfl⟩
  | callback h now cb =>
    obtain ⟨-, hs⟩ := Option.ite_none_right_eq_some.1 hs
    cases hs
    cases cb with
    | recv p err =>
      have herr : err = ERR_OK := hcond hc
      show (s.tcpEchoRecv h p err now).conn.complete = true ∧
        (s.tcpEchoRecv h p err now).conn.verdict = s.conn.verdict
      unfold tcpEchoRecv
      rw [if_neg (not_not_intro herr)]
      split
      · exact ⟨hc, rfl⟩
      · rw [recvLoop_complete]
        · exact ⟨hc, rfl⟩
        · exact hc
    | sent len => exact ⟨hc, rfl⟩
    | connected err =>
      have herr : err = ERR_OK := hcond hc
      show (s.tcpEchoConnected err now).conn.complete = true ∧
        (s.tcpEchoConnected err now).conn.verdict = s.conn.verdict
      unfold tcpEchoConnected
      rw [if_neg (not_not_intro herr)]
      exact ⟨hc, rfl⟩
    | err err =>
      have hopen : ¬(!(s.conn.freed h err).complete) = true := by
        show ¬(!s.conn.complete) = true
        rw [hc]
        exact Bool.false_ne_true
      show (s.tcpEchoErr h err now).conn.complete = true ∧
        (s.tcpEchoErr h err now).conn.verdict = s.conn.verdict
      unfold tcpEchoErr
      dsimp only
      rw [if_neg hopen]
      exact ⟨hc, rfl⟩

theorem pcbOk_finish (ok : s.conn.PcbOk) (result : Err) (now : UW) :
    (s.finish result now).conn.PcbOk := ⟨ok.safe, ok.own, ok.attached⟩

theorem pcbOk_takeRecord (ok : s.conn.PcbOk) (now : UW) : (s.takeRecord now).conn.PcbOk := by
  unfold takeRecord
  dsimp only
  split
  · exact ⟨ok.safe, ok.own, ok.attached⟩
  · split
    · exact ⟨ok.safe, ok.own, ok.attached⟩
    · exact ok

theorem pcbOk_recvLoop (p : Pbuf) (now : UW) (fuel offset : Nat) (ok : s.conn.PcbOk) :
    (recvLoop p now fuel offset s).conn.PcbOk := by
  induction fuel generalizing offset s with
  | zero => exact ok
  | succ fuel ih =>
    rw [recvLoop]
    split
    · dsimp only
      split
      · exact ⟨ok.safe, ok.own, ok.attached⟩
      · split
        · exact ok
        · refine ih _ (pcbOk_takeRecord ?_ now)
          exact ok
    · exact ok

theorem pcbOk_callback {h : Nat} (ok : s.conn.PcbOk) (hlive : s.conn.lwip.live h = true)
    (now : UW) (cb : TcpCallback) : (s.callback h now cb).conn.PcbOk := by
  cases cb with
  | recv p err =>
    show (s.tcpEchoRecv h p err now).conn.PcbOk
    unfold tcpEchoRecv
    split
    · exact pcbOk_finish ok err now
    · split
      · exact ⟨ok.safe, ok.own, ok.attached⟩
      · exact pcbOk_recvLoop _ now _ 0 ⟨ok.safe.use hlive, ok.own, ok.attached⟩
  | sent len => exact ⟨ok.safe, ok.own, ok.attached⟩
  | connected err =>
    show (s.tcpEchoConnected err now).conn.PcbOk
    unfold tcpEchoConnected
    dsimp only
    split <;> exact ⟨ok.safe, ok.own, ok.attached⟩
  | err err =>
    have hfreed := ok.freed h err
    show (s.tcpEchoErr h err now).conn.PcbOk
    unfold tcpEchoErr
    dsimp only
    split
    · exact ⟨hfreed.safe, hfreed.own, hfreed.attached⟩
    · exact hfreed

theorem pcbOk_pollSend {h : Nat} (ok : s.conn.PcbOk) (hlive : s.conn.lwip.live h = true)
    (now : UW) (o : TcpEchoAnswers) : (s.pollSend h now o).conn.PcbOk := by
  have hsafe := ok.safe.uses hlive (sendRecord o).2
  unfold pollSend
  dsimp only
  split
  · exact ⟨hsafe, ok.own, ok.attached⟩
  · split
    · exact ⟨hsafe, ok.own, ok.attached⟩
    · exact ⟨hsafe, ok.own, ok.attached⟩

theorem pcbOk_pollConnected {h : Nat} (ok : s.conn.PcbOk) (hlive : s.conn.lwip.live h = true)
    (now : UW) (o : TcpEchoAnswers) : (s.pollConnected h now o).conn.PcbOk := by
  unfold pollConnected
  dsimp only
  split
  · have hfin := ok.pollFin UTK_TCP_CLOSE_TIMEOUT_MS now o.toTcpAnswers
    split
    · exact ⟨hfin.safe, hfin.own, hfin.attached⟩
    · exact hfin
  · split
    · have hshut := ok.shutdown hlive now o.toTcpAnswers
      split
      · exact ⟨hshut.safe, hshut.own, hshut.attached⟩
      · exact hshut
    · split
      · split
        · exact pcbOk_finish ok ERR_TIMEOUT now
        · exact ok
      · exact pcbOk_pollSend ok hlive now o

theorem pcbOk_pollTimed {h : Nat} (ok : s.conn.PcbOk) (hlive : s.conn.lwip.live h = true)
    (now : UW) (o : TcpEchoAnswers) : (s.pollTimed h now o).conn.PcbOk := by
  unfold pollTimed
  split
  · exact pcbOk_finish ok ERR_TIMEOUT now
  · split
    · split
      · exact ⟨ok.safe, ok.own, ok.attached⟩
      · exact ok
    · exact pcbOk_pollConnected ok hlive now o

theorem pcbOk_pollSession {h : Nat} (ok : s.conn.PcbOk) (hlive : s.conn.lwip.live h = true)
    (now : UW) (o : TcpEchoAnswers) : (s.pollSession h now o).conn.PcbOk := by
  unfold pollSession
  by_cases hstarted : s.conn.started
  · simp only [if_pos hstarted]
    refine pcbOk_pollTimed ?_ ?_ now o
    · exact ⟨ok.safe, ok.own, ok.attached⟩
    · exact hlive
  · simp only [if_neg hstarted]
    refine pcbOk_pollTimed ?_ ?_ now o
    · exact ⟨ok.safe, ok.own, ok.attached⟩
    · exact hlive

theorem pcbOk_pollOpen (ok : s.conn.PcbOk) (netif : Option Netif) (now : UW)
    (o : TcpEchoAnswers) : (s.pollOpen netif now o).conn.PcbOk := by
  unfold pollOpen
  split
  · exact ok
  · rename_i h he
    split
    · exact ok
    · exact pcbOk_pollSession ok (ok.own h he) now o

theorem pcbOk_step {e : TcpEchoEvent} (ok : s.conn.PcbOk) (hs : s.step c e = some s') :
    s'.conn.PcbOk := by
  cases e with
  | poll netif now o =>
    obtain ⟨-, hs⟩ := Option.ite_none_right_eq_some.1 hs
    cases hs
    unfold poll
    dsimp only
    split
    · split
      · exact ok.releasePcb o.toTcpAnswers
      · exact ok
    · split
      · refine pcbOk_pollOpen ?_ netif now o
        exact ok
      · refine pcbOk_pollOpen ?_ netif now o
        exact ok.initSession netif o.toTcpAnswers
  | callback h now cb =>
    obtain ⟨hm, hs⟩ := Option.ite_none_right_eq_some.1 hs
    cases hs
    exact pcbOk_callback ok (ok.of_mayCall hm) now cb

theorem pcb_safe (h : (tcpEchoSys c).Reachable s) : s.conn.lwip.Safe := by
  have ok : s.conn.PcbOk := h.invariant (fun s => s.conn.PcbOk)
    (fun s (hi : s.Init) => hi.conn.pcbOk) fun _ _ _ ok _ hs => pcbOk_step ok hs
  exact ok.safe

end TcpEcho

/-! ## The bulk session -/

namespace TcpBulk

variable {s s' : TcpBulk} {c : TcpPeer}

def InTime (s : TcpBulk) : TcpBulkEvent → Prop
  | .callback _ _ cb => s.conn.InTime cb
  | _ => True

theorem step_final {e : TcpBulkEvent} (hcond : s.InTime e) (hs : s.step c e = some s')
    (hc : s.conn.complete = true) :
    s'.conn.complete = true ∧ s'.conn.verdict = s.conn.verdict := by
  cases e with
  | poll netif now o =>
    obtain ⟨-, hs⟩ := Option.ite_none_right_eq_some.1 hs
    cases hs
    unfold poll
    rw [if_pos hc]
    split
    · obtain ⟨hcomplete, hverdict⟩ := s.conn.releasePcb_verdict o.toTcpAnswers
      exact ⟨hcomplete.trans hc, hverdict⟩
    · exact ⟨hc, rfl⟩
  | callback h now cb =>
    obtain ⟨-, hs⟩ := Option.ite_none_right_eq_some.1 hs
    cases hs
    cases cb with
    | recv p err =>
      have herr : err = ERR_OK := hcond hc
      show (s.bulkRecv h p err now).conn.complete = true ∧
        (s.bulkRecv h p err now).conn.verdict = s.conn.verdict
      unfold bulkRecv
      rw [if_neg (not_not_intro herr)]
      split
      · exact ⟨hc, rfl⟩
      · rename_i p
        dsimp only
        rw [if_neg]
        · rw [recvLoop_conn]
          exact ⟨hc, rfl⟩
        · rintro ⟨-, hopen⟩
          rw [recvLoop_conn] at hopen
          have hopen' : (!s.conn.complete) = true := hopen
          rw [hc] at hopen'
          cases hopen'
    | sent len => exact ⟨hc, rfl⟩
    | connected err =>
      have herr : err = ERR_OK := hcond hc
      show (s.bulkConnected err now).conn.complete = true ∧
        (s.bulkConnected err now).conn.verdict = s.conn.verdict
      unfold bulkConnected
      rw [if_neg (not_not_intro herr)]
      exact ⟨hc, rfl⟩
    | err err =>
      have hopen : ¬(!(s.conn.freed h err).complete) = true := by
        show ¬(!s.conn.complete) = true
        rw [hc]
        exact Bool.false_ne_true
      show (s.bulkErr h err now).conn.complete = true ∧
        (s.bulkErr h err now).conn.verdict = s.conn.verdict
      unfold bulkErr
      dsimp only
      rw [if_neg hopen]
      exact ⟨hc, rfl⟩

theorem pcbOk_finish (ok : s.conn.PcbOk) (result : Err) (now : UW) :
    (s.finish result now).conn.PcbOk := by
  rw [finish_conn]
  exact ⟨ok.safe, ok.own, ok.attached⟩

theorem pcbOk_callback {h : Nat} (ok : s.conn.PcbOk) (hlive : s.conn.lwip.live h = true)
    (now : UW) (cb : TcpCallback) : (s.callback h now cb).conn.PcbOk := by
  cases cb with
  | recv p err =>
    show (s.bulkRecv h p err now).conn.PcbOk
    unfold bulkRecv
    split
    · exact pcbOk_finish ok err now
    · split
      · exact ⟨ok.safe, ok.own, ok.attached⟩
      · rename_i p
        have hseg : (s.conn.segment h p).PcbOk := ⟨ok.safe.use hlive, ok.own, ok.attached⟩
        dsimp only
        split
        · refine pcbOk_finish ?_ ERR_VAL now
          rw [recvLoop_conn]
          exact hseg
        · rw [recvLoop_conn]
          exact hseg
  | sent len => exact ⟨ok.safe, ok.own, ok.attached⟩
  | connected err =>
    show (s.bulkConnected err now).conn.PcbOk
    unfold bulkConnected
    dsimp only
    split
    · refine pcbOk_finish ?_ err now
      exact ⟨ok.safe, ok.own, ok.attached⟩
    · exact ⟨ok.safe, ok.own, ok.attached⟩
  | err err =>
    have hfreed := ok.freed h err
    show (s.bulkErr h err now).conn.PcbOk
    unfold bulkErr
    dsimp only
    split
    · refine pcbOk_finish ?_ err now
      exact hfreed
    · exact hfreed

theorem pcbOk_pumpLoop {h : Nat} (writes : List (UH × Err)) (queued : Nat) (ok : s.conn.PcbOk)
    (hlive : s.conn.lwip.live h = true) :
    (pumpLoop h writes queued s).1.conn.PcbOk ∧
      (pumpLoop h writes queued s).1.conn.lwip.live h = true := by
  induction writes generalizing s queued with
  | nil =>
    rw [pumpLoop]
    split
    · exact ⟨ok.use hlive, hlive⟩
    · exact ⟨ok, hlive⟩
  | cons w rest ih =>
    obtain ⟨space, result⟩ := w
    rw [pumpLoop]
    dsimp only
    split
    · have hsafe := (ok.safe.use hlive).use hlive
      split
      · exact ⟨ok.use hlive, hlive⟩
      · split
        · exact ⟨⟨hsafe, ok.own, ok.attached⟩, hlive⟩
        · split
          · exact ⟨⟨hsafe, ok.own, ok.attached⟩, hlive⟩
          · refine ih _ ?_ ?_
            · exact ⟨hsafe, ok.own, ok.attached⟩
            · exact hlive
    · exact ⟨ok, hlive⟩

theorem pcbOk_pumpSend {h : Nat} (ok : s.conn.PcbOk) (hlive : s.conn.lwip.live h = true)
    (o : TcpBulkAnswers) : (s.pumpSend h o).conn.PcbOk := by
  obtain ⟨hok, hlive'⟩ := pcbOk_pumpLoop o.writes 0 ok hlive
  unfold pumpSend
  split
  · rename_i s1 heq
    rw [heq] at hok
    exact hok
  · rename_i s1 queued heq
    rw [heq] at hok hlive'
    split
    · have huse := hok.use hlive'
      exact ⟨huse.safe, huse.own, huse.attached⟩
    · exact hok

theorem pcbOk_pollConnected {h : Nat} (ok : s.conn.PcbOk) (hlive : s.conn.lwip.live h = true)
    (now : UW) (o : TcpBulkAnswers) : (s.pollConnected h now o).conn.PcbOk := by
  unfold pollConnected
  dsimp only
  split
  · have hfin := ok.pollFin UTK_BULK_CLOSE_TIMEOUT_MS now o.toTcpAnswers
    split
    · refine pcbOk_finish ?_ _ now
      exact hfin
    · exact hfin
  · split
    · have hshut := ok.shutdown hlive now o.toTcpAnswers
      split
      · refine pcbOk_finish ?_ _ now
        exact hshut
      · exact hshut
    · have hpump : Conn.PcbOk (if s.sendOffset.toNat < LWIP_UTK_TCPBULK_TOTAL_BYTES then
          s.pumpSend h o else s).conn := by
        split
        · exact pcbOk_pumpSend ok hlive o
        · exact ok
      generalize (if s.sendOffset.toNat < LWIP_UTK_TCPBULK_TOTAL_BYTES then
          s.pumpSend h o else s) = s1 at hpump ⊢
      split
      · exact pcbOk_finish hpump ERR_TIMEOUT now
      · exact hpump

theorem pcbOk_pollTimed {h : Nat} (ok : s.conn.PcbOk) (hlive : s.conn.lwip.live h = true)
    (now : UW) (o : TcpBulkAnswers) : (s.pollTimed h now o).conn.PcbOk := by
  unfold pollTimed
  split
  · exact pcbOk_finish ok ERR_TIMEOUT now
  · split
    · split
      · refine pcbOk_finish ?_ ERR_TIMEOUT now
        exact ⟨ok.safe, ok.own, ok.attached⟩
      · exact ok
    · exact pcbOk_pollConnected ok hlive now o

theorem pcbOk_pollSession {h : Nat} (ok : s.conn.PcbOk) (hlive : s.conn.lwip.live h = true)
    (now : UW) (o : TcpBulkAnswers) : (s.pollSession h now o).conn.PcbOk := by
  unfold pollSession
  by_cases hstarted : s.conn.started
  · simp only [if_pos hstarted]
    refine pcbOk_pollTimed ?_ ?_ now o
    · exact ⟨ok.safe, ok.own, ok.attached⟩
    · exact hlive
  · simp only [if_neg hstarted]
    refine pcbOk_pollTimed ?_ ?_ now o
    · exact ⟨ok.safe, ok.own, ok.attached⟩
    · exact hlive

theorem pcbOk_pollOpen (ok : s.conn.PcbOk) (netif : Option Netif) (now : UW)
    (o : TcpBulkAnswers) : (s.pollOpen netif now o).conn.PcbOk := by
  unfold pollOpen
  split
  · exact ok
  · rename_i h he
    split
    · exact ok
    · exact pcbOk_pollSession ok (ok.own h he) now o

theorem pcbOk_step {e : TcpBulkEvent} (ok : s.conn.PcbOk) (hs : s.step c e = some s') :
    s'.conn.PcbOk := by
  cases e with
  | poll netif now o =>
    obtain ⟨-, hs⟩ := Option.ite_none_right_eq_some.1 hs
    cases hs
    unfold poll
    dsimp only
    split
    · split
      · exact ok.releasePcb o.toTcpAnswers
      · exact ok
    · split
      · exact pcbOk_pollOpen ok netif now o
      · refine pcbOk_pollOpen ?_ netif now o
        exact ok.initSession netif o.toTcpAnswers
  | callback h now cb =>
    obtain ⟨hm, hs⟩ := Option.ite_none_right_eq_some.1 hs
    cases hs
    exact pcbOk_callback ok (ok.of_mayCall hm) now cb

theorem pcb_safe (h : (tcpBulkSys c).Reachable s) : s.conn.lwip.Safe := by
  have ok : s.conn.PcbOk := h.invariant (fun s => s.conn.PcbOk)
    (fun s (hi : s.Init) => hi.conn.pcbOk) fun _ _ _ ok _ hs => pcbOk_step ok hs
  exact ok.safe

end TcpBulk

/-! ## All sessions -/

theorem session_verdicts (u : Peer) (c : TcpPeer) :
    (VerdictFinal pingSys Ping.InTime (fun _ _ => False) Ping.pingComplete Ping.verdict ∧
      ∀ s, pingSys.Reachable s → s.lwip.Safe) ∧
    (VerdictFinal (udpSys u) (fun _ _ => True) Udp.Restarts Udp.complete Udp.verdict ∧
      ∀ s, (udpSys u).Reachable s → s.lwip.Safe) ∧
    (VerdictFinal (tcpEchoSys c) TcpEcho.InTime (fun _ _ => False) (fun s => s.conn.complete)
        (fun s => s.conn.verdict) ∧
      ∀ s, (tcpEchoSys c).Reachable s → s.conn.lwip.Safe) ∧
    (VerdictFinal (tcpBulkSys c) TcpBulk.InTime (fun _ _ => False) (fun s => s.conn.complete)
        (fun s => s.conn.verdict) ∧
      ∀ s, (tcpBulkSys c).Reachable s → s.conn.lwip.Safe) := by
  refine ⟨⟨?_, fun _ => Ping.pcb_safe⟩, ⟨?_, fun _ => Udp.pcb_safe⟩,
    ⟨?_, fun _ => TcpEcho.pcb_safe⟩, ⟨?_, fun _ => TcpBulk.pcb_safe⟩⟩
  · exact .of_step fun _ _ _ hcond _ hs hc => Ping.step_final hcond hs hc
  · exact .of_step fun _ _ _ _ hno hs hc => Udp.step_final hno hs hc
  · exact .of_step fun _ _ _ hcond _ hs hc => TcpEcho.step_final hcond hs hc
  · exact .of_step fun _ _ _ hcond _ hs hc => TcpBulk.step_final hcond hs hc

namespace Ping

def atReset : Ping where
  configResult := ERR_VAL
  configured := false
  arpMac := none
  pingStarted := false
  pingComplete := false
  pingSendResult := ERR_VAL
  pingResult := ERR_TIMEOUT
  pingAttempts := 0
  pingElapsedMs := 0
  pingTarget := 0
  pingPcb := none
  pingStartedMs := 0
  lastPingMs := 0
  lwip := .empty

theorem atReset_init : atReset.Init := ⟨rfl, rfl, rfl, rfl, rfl, rfl, rfl⟩

/-- An echo reply behind a header of 20 bytes. -/
def reply : Pbuf :=
  ⟨.replicate 20 0 ++ [0, 0, 0, 0, 0x4b, 0x55, 0, 1], by decide⟩

/-- Five requests, a second apart, and the end of the wait for the last reply. -/
def unanswered : List PingEvent :=
  .configure ERR_OK 9 :: [1000, 2000, 3000, 4000, 5000, 6000].map fun now =>
    .poll ⟨true, true, 5⟩ now ⟨none, if now = 1000 then some 1 else none, ERR_OK, true, ERR_OK⟩

end Ping

/-- The reply to the last request comes after the session has timed out. -/
theorem not_session_verdicts :
    ¬VerdictFinal pingSys (fun _ _ => True) (fun _ _ => False) Ping.pingComplete
      Ping.verdict := by
  intro h
  obtain ⟨s, hs, hp⟩ := @Lts.reachable_of_trace _ _ pingSys
    (fun s => s.pingComplete && s.pingResult == ERR_TIMEOUT && s.pingPcb.isSome &&
      s.isReply Ping.reply 20 9) Ping.atReset
    Ping.unanswered Ping.atReset_init (by decide +kernel)
  simp only [Bool.and_eq_true, beq_iff_eq] at hp
  obtain ⟨⟨⟨hcomplete, hresult⟩, hpcb⟩, hreply⟩ := hp
  obtain ⟨t, ht⟩ : ∃ t, t = s.pingRecv (some Ping.reply) (some 20) (some 9) 6500 := ⟨_, rfl⟩
  have hstep : pingSys.step s (.recv (some Ping.reply) (some 20) (some 9) 6500) = some t := by
    rw [ht]
    exact if_pos hpcb
  have hok : t.pingResult = ERR_OK := by
    rw [ht, Ping.pingRecv, if_pos hreply]
  obtain ⟨-, hsame⟩ := h s t hs (.tail (.refl s) ⟨trivial, id⟩ hstep) hcomplete
  have hresults : t.pingResult = s.pingResult := congrArg Prod.fst hsame
  rw [hok, hresult] at hresults
  cases hresults

end Net

end Mtk3Smp
