import Mtk3Smp.Net.UdpEcho

/-!
# The exchange of the UDP echo session

The numbers are matched in order, each by its own payload, and a number is sent at most three
times. The ring holds the last matched payloads of all sessions.
-/

namespace Mtk3Smp

namespace Net

variable {s s' : Udp} {c : Peer}

namespace Udp

/-- The replies taken since reset. -/
def taken (s : Udp) : List Matched := s.past ++ s.matched

end Udp

/-! ## The session -/

structure ExchangeOk (s : Udp) : Prop where
  counter : s.packetsMatched.toNat = s.sequence.toNat
  order : s.matched.map (fun m => m.seq.toNat) = List.range s.sequence.toNat
  each : ∀ m ∈ s.matched, m.received = makePayload m.seq ∧ m.awaited = true
  le : s.sequence.toNat ≤ LWIP_UTK_UDP_PACKET_COUNT
  running : s.complete = false → s.sequence.toNat < LWIP_UTK_UDP_PACKET_COUNT
  /-- a session that goes on and waits for nothing has a number that was not sent yet -/
  unsent : s.complete = false → s.awaitingReply = false → s.sequenceAttempts = 0
  sent : s.sends s.sequence.toNat = s.sequenceAttempts.toNat
  ahead : ∀ q, s.sequence.toNat < q → s.sends q = 0
  sends : ∀ q, s.sends q ≤ 3
  verdict : s.complete = true →
    (s.result = ERR_OK ↔ s.sequence.toNat = LWIP_UTK_UDP_PACKET_COUNT)

/-- The ring holds the last replies, each in the slot of its number. -/
structure RingOk (s : Udp) : Prop where
  count : s.writeSeq = BitVec.ofNat 32 s.taken.length
  ring : ∀ i m, s.taken[i]? = some m → s.taken.length ≤ i + LWIP_UTK_UDP_RING →
    s.ringPayload (i % LWIP_UTK_UDP_RING) = m.received ∧
      s.ringSeq (i % LWIP_UTK_UDP_RING) = m.seq.setWidth 32 ∧
      (s.ringLen (i % LWIP_UTK_UDP_RING)).toNat = m.received.length
  payload : ∀ m ∈ s.taken, m.received.length = LWIP_UTK_UDP_PAYLOAD_SIZE

theorem length_makePayload (value : UH) :
    (makePayload value).length = LWIP_UTK_UDP_PAYLOAD_SIZE := length_message (by decide)

/-- A session ends: in success where every number has been matched, else with an error. -/
theorem ExchangeOk.finish (ok : ExchangeOk s) {result : Err}
    (hr : result = ERR_OK ↔ s.sequence.toNat = LWIP_UTK_UDP_PACKET_COUNT) (now : UW) :
    ExchangeOk (s.finish result now) :=
  ⟨ok.counter, ok.order, ok.each, ok.le, nofun, nofun, ok.sent, ok.ahead, ok.sends, fun _ => hr⟩

theorem ExchangeOk.timeout (ok : ExchangeOk s) (hopen : s.complete = false) (now : UW) :
    ExchangeOk (s.finish ERR_TIMEOUT now) := by
  have hlt := ok.running hopen
  have hr : ERR_TIMEOUT ≠ ERR_OK := by decide
  exact ok.finish ⟨fun he => absurd he hr, fun he => absurd he (Nat.ne_of_lt hlt)⟩ now

theorem ExchangeOk.initFailed (ok : ExchangeOk s) (hopen : s.complete = false) {result : Err}
    (hr : result ≠ ERR_OK) : ExchangeOk (s.initFailed result) := by
  have hlt := ok.running hopen
  exact ⟨ok.counter, ok.order, ok.each, ok.le, nofun, nofun, ok.sent, ok.ahead, ok.sends,
    fun _ => ⟨fun he => absurd he hr, fun he => absurd he (Nat.ne_of_lt hlt)⟩⟩

/-- What the exchange does not look at. -/
theorem ExchangeOk.setup (ok : ExchangeOk s) (initResult : Err) (initialized : Bool)
    (target : Ip4) (pcb : Option Nat) (lwip : Pcbs) :
    ExchangeOk { s with
      initResult := initResult, initialized := initialized, udpTarget := target,
      udpPcb := pcb, lwip := lwip } :=
  ⟨ok.counter, ok.order, ok.each, ok.le, ok.running, ok.unsent, ok.sent, ok.ahead, ok.sends,
    ok.verdict⟩

theorem ExchangeOk.initSession (ok : ExchangeOk s) (hopen : s.complete = false)
    (netif : Option Netif) (o : UdpAnswers) : ExchangeOk (s.initSession c netif o) := by
  unfold Udp.initSession
  dsimp only
  split
  · exact (ok.setup s.initResult true s.udpTarget s.udpPcb s.lwip).initFailed hopen (by decide)
  · exact (ok.setup s.initResult true s.udpTarget s.udpPcb s.lwip).initFailed hopen (by decide)
  · rename_i target _
    split
    · exact (ok.setup s.initResult true target s.udpPcb s.lwip).initFailed hopen (by decide)
    · split
      · exact (ok.setup s.initResult true target none s.lwip).initFailed hopen (by decide)
      · rename_i h _
        by_cases hb : o.udpBind = ERR_OK
        · simp only [if_pos hb]
          split
          · rename_i hr
            exact (ok.setup s.initResult true target none _).initFailed hopen hr
          · exact ok.setup ERR_OK true target (some h) _
        · simp only [if_neg hb]
          exact if_pos hb ▸ (ok.setup s.initResult true target none _).initFailed hopen hb

theorem ExchangeOk.restart : ExchangeOk s.restartSession :=
  ⟨rfl, rfl, (fun _ hm => nomatch hm), Nat.zero_le _, fun _ => Nat.zero_lt_succ _, fun _ _ => rfl,
    rfl, fun _ _ => rfl, fun _ => Nat.zero_le 3, nofun⟩

theorem ExchangeOk.pollComplete (ok : ExchangeOk s) (now : UW) :
    ExchangeOk (s.pollComplete now) := by
  unfold Udp.pollComplete
  dsimp only
  split
  · split
    · exact ExchangeOk.restart
    · exact ⟨ok.counter, ok.order, ok.each, ok.le, ok.running, ok.unsent, ok.sent, ok.ahead,
        ok.sends, ok.verdict⟩
  · split
    · exact ExchangeOk.restart
    · exact ok

/-- One more attempt for the number, where there were at most two. -/
theorem ExchangeOk.pollSend (ok : ExchangeOk s)
    (hlt : s.sequenceAttempts.toNat < 3) (awaiting : Bool) (h : Nat) (now : UW)
    (o : UdpAnswers) :
    ExchangeOk ({ s with awaitingReply := awaiting }.pollSend h now o) := by
  have hnext : (s.sequenceAttempts + 1).toNat = s.sequenceAttempts.toNat + 1 := by
    rw [BitVec.toNat_add]
    have hone : (1 : UW).toNat = 1 := rfl
    omega
  have hsent : Function.update s.sends s.sequence.toNat (s.sends s.sequence.toNat + 1)
      s.sequence.toNat = (s.sequenceAttempts + 1).toNat := by
    rw [Function.update_self, ok.sent, hnext]
  have hahead : ∀ q, s.sequence.toNat < q →
      Function.update s.sends s.sequence.toNat (s.sends s.sequence.toNat + 1) q = 0 := by
    intro q hq
    rw [Function.update_of_ne (by omega)]
    exact ok.ahead q hq
  have hsends : ∀ q,
      Function.update s.sends s.sequence.toNat (s.sends s.sequence.toNat + 1) q ≤ 3 := by
    intro q
    by_cases hq : q = s.sequence.toNat
    · subst hq
      rw [Function.update_self, ok.sent]
      omega
    · rw [Function.update_of_ne hq]
      exact ok.sends q
  have hverdict : s.complete = true →
      (s.result = ERR_OK ↔ s.sequence.toNat = LWIP_UTK_UDP_PACKET_COUNT) := ok.verdict
  unfold Udp.pollSend
  dsimp only
  split <;> split <;>
    exact ⟨ok.counter, ok.order, ok.each, ok.le, ok.running, nofun, hsent, hahead, hsends,
      hverdict⟩

theorem ExchangeOk.pollExchange (ok : ExchangeOk s) (hopen : s.complete = false) (h : Nat)
    (now : UW) (o : UdpAnswers) : ExchangeOk (s.pollExchange h now o) := by
  -- the clock of the session is nothing that the exchange looks at
  have hclock : ∀ (b : Bool) (t e : UW),
      ExchangeOk { s with started := b, startedMs := t, elapsedMs := e } := fun _ _ _ =>
    ⟨ok.counter, ok.order, ok.each, ok.le, ok.running, ok.unsent, ok.sent, ok.ahead, ok.sends,
      ok.verdict⟩
  have hthree : UTK_UDP_MAX_ATTEMPTS.toNat = 3 := rfl
  have main : ∀ (b : Bool) (t : UW), ExchangeOk
      (let s := { s with started := b, startedMs := t, elapsedMs := now - t }
      if s.elapsedMs ≥ UTK_UDP_SESSION_TIMEOUT_MS then s.finish ERR_TIMEOUT now
      else if s.awaitingReply then
        if now - s.lastSendMs < UTK_UDP_REPLY_TIMEOUT_MS then s
        else if s.sequenceAttempts ≥ UTK_UDP_MAX_ATTEMPTS then s.finish ERR_TIMEOUT now
        else { s with awaitingReply := false }.pollSend h now o
      else s.pollSend h now o) := by
    intro b t
    dsimp only
    split
    · exact (hclock b t _).timeout hopen now
    · split
      · split
        · exact hclock b t _
        · split
          · exact (hclock b t _).timeout hopen now
          · rename_i hmax
            have hlt : s.sequenceAttempts.toNat < 3 := by
              rw [ge_iff_le, BitVec.le_def, hthree] at hmax
              omega
            exact (hclock b t _).pollSend hlt false h now o
      · rename_i hwait
        have hzero := ok.unsent hopen (Bool.eq_false_iff.2 hwait)
        refine (hclock b t _).pollSend ?_ s.awaitingReply h now o
        show s.sequenceAttempts.toNat < 3
        rw [hzero]
        decide
  unfold Udp.pollExchange
  by_cases hstarted : s.started
  · simp only [if_pos hstarted]
    exact main s.started s.startedMs
  · simp only [if_neg hstarted]
    exact main true now

theorem ExchangeOk.poll (ok : ExchangeOk s) (netif : Option Netif) (now : UW) (o : UdpAnswers) :
    ExchangeOk (s.poll c netif now o) := by
  unfold Udp.poll
  split
  · exact ok.pollComplete now
  · rename_i hopen
    have hopen' : s.complete = false := Bool.eq_false_iff.2 hopen
    have hinit : ExchangeOk (if s.initialized then s else s.initSession c netif o) := by
      split
      · exact ok
      · exact ok.initSession hopen' netif o
    dsimp only
    generalize (if s.initialized then s else s.initSession c netif o) = s1 at hinit ⊢
    split
    · exact hinit
    · rename_i h _
      split
      · exact hinit
      · rename_i hgo
        have hopen1 : s1.complete = false := by
          apply Bool.eq_false_iff.2
          exact fun he => hgo (Or.inl he)
        exact hinit.pollExchange hopen1 h now o

/-- A reply is taken for the number that is awaited. -/
theorem ExchangeOk.takeReply (ok : ExchangeOk s) (hopen : s.complete = false)
    (hwait : s.awaitingReply = true) (now : UW) :
    ExchangeOk (s.takeReply (makePayload s.sequence) now) := by
  have hlt := ok.running hopen
  have hseq : (s.sequence + 1).toNat = s.sequence.toNat + 1 := by
    rw [BitVec.toNat_add]
    have hone : (1 : UH).toNat = 1 := rfl
    simp only [LWIP_UTK_UDP_PACKET_COUNT] at hlt
    omega
  have hcounter : (s.packetsMatched + 1).toNat = (s.sequence + 1).toNat := by
    have hcount := ok.counter
    rw [hseq, BitVec.toNat_add]
    have hone : (1 : UW).toNat = 1 := rfl
    simp only [LWIP_UTK_UDP_PACKET_COUNT] at hlt
    omega
  have horder : (s.matched ++ [(⟨s.sequence, makePayload s.sequence, s.awaitingReply⟩ : Matched)]).map
      (fun m => m.seq.toNat) = List.range (s.sequence + 1).toNat := by
    rw [hseq, List.range_succ, List.map_append, ok.order]
    rfl
  have heach : ∀ m ∈ s.matched ++ [(⟨s.sequence, makePayload s.sequence, s.awaitingReply⟩ : Matched)],
      m.received = makePayload m.seq ∧ m.awaited = true := by
    intro m hm
    rcases List.mem_append.1 hm with hm | hm
    · exact ok.each m hm
    · rw [List.mem_singleton.1 hm]
      exact ⟨rfl, hwait⟩
  have hnew : s.sends (s.sequence + 1).toNat = 0 := ok.ahead _ (by omega)
  have hahead : ∀ q, (s.sequence + 1).toNat < q → s.sends q = 0 := by
    intro q hq
    exact ok.ahead q (by omega)
  unfold Udp.takeReply
  dsimp only
  split
  · rename_i hge
    have hall : (s.sequence + 1).toNat = LWIP_UTK_UDP_PACKET_COUNT := by omega
    exact ⟨hcounter, horder, heach, Nat.le_of_eq hall, nofun, nofun, hnew, hahead, ok.sends,
      fun _ => ⟨fun _ => hall, fun _ => rfl⟩⟩
  · rename_i hge
    have hmore : (s.sequence + 1).toNat < LWIP_UTK_UDP_PACKET_COUNT := Nat.lt_of_not_le hge
    refine ⟨hcounter, horder, heach, Nat.le_of_lt hmore, fun _ => hmore, fun _ _ => rfl, hnew,
      hahead, ok.sends, fun hc => ?_⟩
    rw [show s.complete = true from hc] at hopen
    cases hopen

/-- What a receive callback does: nothing to the exchange, or it takes the awaited reply. -/
theorem Udp.recv_cases (s : Udp) (c : Peer) (p : Option Pbuf) (address : Option Ip4) (port : UH)
    (now : UW) :
    (∃ received corrupt unexpected, s.udpEchoRecv c p address port now =
        { s with
          packetsReceived := received, corrupt := corrupt, unexpected := unexpected }) ∨
      (s.complete = false ∧ s.awaitingReply = true ∧
        s.udpEchoRecv c p address port now =
          { s with packetsReceived := s.packetsReceived + 1 }.takeReply
            (makePayload s.sequence) now) := by
  unfold Udp.udpEchoRecv
  split
  · exact Or.inl ⟨s.packetsReceived, s.corrupt, s.unexpected, rfl⟩
  · rename_i p
    split
    · exact Or.inl ⟨s.packetsReceived, s.corrupt, s.unexpected + 1, rfl⟩
    · rename_i hpass
      dsimp only
      split
      · exact Or.inl ⟨s.packetsReceived + 1, s.corrupt + 1, s.unexpected, rfl⟩
      · rename_i hgood
        refine Or.inr ⟨?_, ?_, ?_⟩
        · apply Bool.eq_false_iff.2
          exact fun he => hpass (Or.inr (Or.inr (Or.inr he)))
        · by_contra hne
          exact hpass (Or.inr (Or.inr (Or.inl (by simpa using hne))))
        · have hsame : p.copyPartial LWIP_UTK_UDP_PAYLOAD_SIZE 0 = makePayload s.sequence := by
            by_contra hne
            exact hgood (Or.inr (Or.inr hne))
          rw [hsame]

theorem ExchangeOk.recv (ok : ExchangeOk s) (p : Option Pbuf) (address : Option Ip4) (port : UH)
    (now : UW) : ExchangeOk (s.udpEchoRecv c p address port now) := by
  have hcount : ∀ r co u, ExchangeOk
      { s with packetsReceived := r, corrupt := co, unexpected := u } := fun _ _ _ =>
    ⟨ok.counter, ok.order, ok.each, ok.le, ok.running, ok.unsent, ok.sent, ok.ahead, ok.sends,
      ok.verdict⟩
  rcases s.recv_cases c p address port now with ⟨r, co, u, he⟩ | ⟨hopen, hwait, he⟩
  · rw [he]
    exact hcount r co u
  · rw [he]
    exact (hcount (s.packetsReceived + 1) s.corrupt s.unexpected).takeReply hopen hwait now

/-! ## The ring -/

/-- What the ring is about. -/
def Udp.recorded (s : Udp) :
    (Nat → List UB) × (Nat → UW) × (Nat → UH) × UW × List Matched :=
  (s.ringPayload, s.ringSeq, s.ringLen, s.writeSeq, s.taken)

theorem RingOk.of_recorded (ok : RingOk s) (h : s'.recorded = s.recorded) : RingOk s' := by
  obtain ⟨hp, hs, hl, hw, ht⟩ : s'.ringPayload = s.ringPayload ∧ s'.ringSeq = s.ringSeq ∧
      s'.ringLen = s.ringLen ∧ s'.writeSeq = s.writeSeq ∧ s'.taken = s.taken := by
    unfold Udp.recorded at h
    simpa only [Prod.mk.injEq] using h
  refine ⟨?_, ?_, ?_⟩
  · rw [hw, ht]
    exact ok.count
  · rw [hp, hs, hl, ht]
    exact ok.ring
  · rw [ht]
    exact ok.payload

theorem Udp.initSession_recorded (s : Udp) (netif : Option Netif) (o : UdpAnswers) :
    (s.initSession c netif o).recorded = s.recorded := by
  unfold Udp.initSession
  dsimp only
  split
  · rfl
  · rfl
  · split
    · rfl
    · split
      · rfl
      · split
        · split <;> rfl
        · rfl

theorem Udp.pollComplete_recorded (s : Udp) (now : UW) :
    (s.pollComplete now).recorded = s.recorded := by
  have hrestart : ∀ t : Udp, t.restartSession.recorded = t.recorded := by
    intro t
    unfold Udp.recorded Udp.taken Udp.restartSession
    rw [List.append_nil]
  unfold Udp.pollComplete
  dsimp only
  split <;> split
  · rw [hrestart]
    rfl
  · rfl
  · exact hrestart s
  · rfl

theorem Udp.pollSend_recorded (s : Udp) (h : Nat) (now : UW) (o : UdpAnswers) :
    (s.pollSend h now o).recorded = s.recorded := by
  unfold Udp.pollSend
  dsimp only
  split <;> split <;> rfl

theorem Udp.pollExchange_recorded (s : Udp) (h : Nat) (now : UW) (o : UdpAnswers) :
    (s.pollExchange h now o).recorded = s.recorded := by
  unfold Udp.pollExchange
  dsimp only
  split <;> split
  · rfl
  · split
    · split
      · rfl
      · split
        · rfl
        · rw [Udp.pollSend_recorded]
          rfl
    · rw [Udp.pollSend_recorded]
      rfl
  · rfl
  · split
    · split
      · rfl
      · split
        · rfl
        · rw [Udp.pollSend_recorded]
          rfl
    · rw [Udp.pollSend_recorded]
      rfl

theorem Udp.poll_recorded (s : Udp) (netif : Option Netif) (now : UW) (o : UdpAnswers) :
    (s.poll c netif now o).recorded = s.recorded := by
  unfold Udp.poll
  split
  · exact s.pollComplete_recorded now
  · have hinit : (if s.initialized then s else s.initSession c netif o).recorded =
        s.recorded := by
      split
      · rfl
      · exact s.initSession_recorded netif o
    dsimp only
    generalize (if s.initialized then s else s.initSession c netif o) = s1 at hinit ⊢
    split
    · exact hinit
    · split
      · exact hinit
      · rw [Udp.pollExchange_recorded]
        exact hinit

/-- The new reply goes to the slot of the oldest one. -/
theorem RingOk.takeReply (ok : RingOk s) {received : List UB}
    (hlen : received.length = LWIP_UTK_UDP_PAYLOAD_SIZE) (now : UW) :
    RingOk (s.takeReply received now) := by
  obtain ⟨n, hn⟩ : ∃ n, s.taken.length = n := ⟨_, rfl⟩
  have hslot : s.writeSeq.toNat % LWIP_UTK_UDP_RING = n % LWIP_UTK_UDP_RING := by
    rw [ok.count, hn, BitVec.toNat_ofNat]
    simp only [LWIP_UTK_UDP_RING]
    omega
  obtain ⟨m, hm⟩ : ∃ m : Matched, m = ⟨s.sequence, received, s.awaitingReply⟩ := ⟨_, rfl⟩
  have hrec : (s.takeReply received now).recorded =
      (Function.update s.ringPayload (n % LWIP_UTK_UDP_RING) received,
        Function.update s.ringSeq (n % LWIP_UTK_UDP_RING) (m.seq.setWidth 32),
        Function.update s.ringLen (n % LWIP_UTK_UDP_RING) (BitVec.ofNat 16 received.length),
        s.writeSeq + 1, s.taken ++ [m]) := by
    unfold Udp.recorded Udp.taken Udp.takeReply
    rw [← hslot, hm, List.append_assoc]
    dsimp only
    split <;> rfl
  obtain ⟨hp, hs, hl, hw, ht⟩ : (s.takeReply received now).ringPayload = _ ∧
      (s.takeReply received now).ringSeq = _ ∧ (s.takeReply received now).ringLen = _ ∧
      (s.takeReply received now).writeSeq = _ ∧ (s.takeReply received now).taken = _ := by
    unfold Udp.recorded at hrec
    simpa only [Prod.mk.injEq] using hrec
  refine ⟨?_, fun i x hx hlast => ?_, fun x hx => ?_⟩
  · rw [hw, ht, List.length_append, ok.count, BitVec.ofNat_add]
    rfl
  · rw [ht] at hx hlast
    rw [List.length_append, List.length_singleton, hn] at hlast
    rw [hp, hs, hl]
    by_cases hi : i < n
    · -- an earlier reply that is still among the last ones is in another slot
      have hne : i % LWIP_UTK_UDP_RING ≠ n % LWIP_UTK_UDP_RING := by
        simp only [LWIP_UTK_UDP_RING] at hlast ⊢
        omega
      rw [Function.update_of_ne hne, Function.update_of_ne hne, Function.update_of_ne hne]
      rw [List.getElem?_append_left (by omega)] at hx
      exact ok.ring i x hx (by omega)
    · have hlt := (List.getElem?_eq_some_iff.1 hx).1
      rw [List.length_append, List.length_singleton, hn] at hlt
      obtain rfl : i = n := by omega
      rw [List.getElem?_append_right (by omega), hn, Nat.sub_self] at hx
      obtain rfl : m = x := Option.some.inj hx
      rw [Function.update_self, Function.update_self, Function.update_self, hm]
      refine ⟨rfl, rfl, ?_⟩
      rw [hlen]
      rfl
  · rw [ht] at hx
    rcases List.mem_append.1 hx with hx | hx
    · exact ok.payload x hx
    · rw [List.mem_singleton.1 hx, hm]
      exact hlen

theorem RingOk.recv (ok : RingOk s) (p : Option Pbuf) (address : Option Ip4) (port : UH)
    (now : UW) : RingOk (s.udpEchoRecv c p address port now) := by
  rcases s.recv_cases c p address port now with ⟨r, co, u, he⟩ | ⟨-, -, he⟩
  · rw [he]
    exact ok.of_recorded rfl
  · rw [he]
    have hcount : RingOk { s with packetsReceived := s.packetsReceived + 1 } :=
      ok.of_recorded rfl
    exact hcount.takeReply (length_makePayload s.sequence) now

/-! ## Every run -/

theorem udp_invariant (h : (udpSys c).Reachable s) : ExchangeOk s ∧ RingOk s := by
  refine h.invariant (fun s => ExchangeOk s ∧ RingOk s) (fun s hi => ⟨?_, ?_⟩)
    fun s e t ok _ hs => ?_
  · refine ⟨?_, ?_, ?_, ?_, fun _ => ?_, fun _ _ => hi.sequenceAttempts, ?_, ?_, ?_, ?_⟩
    · rw [hi.packetsMatched, hi.sequence]
      rfl
    · rw [hi.matched, hi.sequence]
      rfl
    · rw [hi.matched]
      exact fun _ hm => nomatch hm
    · rw [hi.sequence]
      exact Nat.zero_le _
    · rw [hi.sequence]
      decide
    · rw [hi.sends, hi.sequenceAttempts]
      rfl
    · rw [hi.sends]
      exact fun _ _ => rfl
    · rw [hi.sends]
      exact fun _ => Nat.zero_le 3
    · rw [hi.complete]
      nofun
  · have htaken : s.taken = [] := by
      unfold Udp.taken
      rw [hi.past, hi.matched]
      rfl
    refine ⟨?_, fun i m hm => ?_, fun m hm => ?_⟩
    · rw [htaken, hi.writeSeq]
      rfl
    · rw [htaken] at hm
      cases hm
    · rw [htaken] at hm
      cases hm
  · obtain ⟨hex, hring⟩ := ok
    cases e with
    | poll netif now o =>
      obtain ⟨-, hs⟩ := Option.ite_none_right_eq_some.1 hs
      cases hs
      exact ⟨hex.poll netif now o, hring.of_recorded (s.poll_recorded netif now o)⟩
    | recv p address port now =>
      cases hs
      exact ⟨hex.recv p address port now, hring.recv p address port now⟩

/-- What the session promises. -/
structure UdpRight (s : Udp) : Prop where
  counter : s.packetsMatched.toNat = s.sequence.toNat
  /-- the numbers from 0 on, each one once -/
  order : s.matched.map (fun m => m.seq.toNat) = List.range s.sequence.toNat
  each : ∀ m ∈ s.matched, m.received = makePayload m.seq ∧ m.awaited = true
  sends : ∀ q, s.sends q ≤ UTK_UDP_MAX_ATTEMPTS.toNat
  verdict : s.complete = true →
    (s.result = ERR_OK ↔ s.matched.length = LWIP_UTK_UDP_PACKET_COUNT)
  count : s.writeSeq = BitVec.ofNat 32 s.taken.length
  ring : ∀ i m, s.taken[i]? = some m → s.taken.length ≤ i + LWIP_UTK_UDP_RING →
    s.ringPayload (i % LWIP_UTK_UDP_RING) = m.received ∧
      s.ringSeq (i % LWIP_UTK_UDP_RING) = m.seq.setWidth 32 ∧
      (s.ringLen (i % LWIP_UTK_UDP_RING)).toNat = m.received.length

theorem udp_echo_right (c : Peer) (s : Udp) (h : (udpSys c).Reachable s) : UdpRight s := by
  obtain ⟨hex, hring⟩ := udp_invariant h
  refine ⟨hex.counter, hex.order, hex.each, hex.sends, ?_, hring.count, hring.ring⟩
  have hlen := congrArg List.length hex.order
  rw [List.length_map, List.length_range] at hlen
  rw [hlen]
  exact hex.verdict

namespace Udp

def atReset : Udp where
  initResult := ERR_VAL
  initialized := false
  started := false
  complete := false
  closed := false
  sendResult := ERR_VAL
  result := ERR_TIMEOUT
  packetsSent := 0
  packetsReceived := 0
  packetsMatched := 0
  retries := 0
  sendErrors := 0
  corrupt := 0
  unexpected := 0
  elapsedMs := 0
  ringPayload := fun _ => []
  ringSeq := fun _ => 0
  ringLen := fun _ => 0
  writeSeq := 0
  sessionCount := 0
  udpPcb := none
  udpTarget := 0
  sequence := 0
  sequenceAttempts := 0
  awaitingReply := false
  startedMs := 0
  lastSendMs := 0
  completedMs := 0
  lwip := .empty
  sends := fun _ => 0
  matched := []
  past := []

theorem atReset_init : atReset.Init :=
  ⟨rfl, rfl, rfl, rfl, rfl, rfl, rfl, rfl, rfl, rfl, rfl, rfl, rfl, rfl⟩

end Udp

/-- The first packet is lost; the reply to the second one comes twice. -/
theorem udp_echo_right_retry : ∃ s, UdpRight s ∧ s.sends 0 = 2 ∧ s.packetsMatched = 1 ∧
    s.unexpected = 1 := by
  let reply : Option Pbuf := some ⟨makePayload 0, by rw [length_makePayload]; decide⟩
  let sent : UdpAnswers := ⟨some 1, ERR_OK, ERR_OK, true, ERR_OK, ERR_OK⟩
  let netif : Option Netif := some ⟨true, true, 5⟩
  obtain ⟨s, hs, hp⟩ := @Lts.reachable_of_trace _ _ (udpSys ⟨some 9, 7⟩)
    (fun s => s.sends 0 == 2 && s.packetsMatched == 1 && s.unexpected == 1) Udp.atReset
    [.poll netif 1000 sent, .poll netif 1100 ⟨none, ERR_OK, ERR_OK, true, ERR_OK, ERR_OK⟩,
      .poll netif 1250 ⟨none, ERR_OK, ERR_OK, true, ERR_OK, ERR_OK⟩,
      .recv reply (some 9) 7 1260, .recv reply (some 9) 7 1261]
    Udp.atReset_init (by decide +kernel)
  simp only [Bool.and_eq_true, beq_iff_eq] at hp
  obtain ⟨⟨hsends, hmatched⟩, hunexpected⟩ := hp
  exact ⟨s, udp_echo_right ⟨some 9, 7⟩ s hs, hsends, hmatched, hunexpected⟩

end Net

end Mtk3Smp
