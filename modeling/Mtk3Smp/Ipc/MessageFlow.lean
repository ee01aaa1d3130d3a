import Mtk3Smp.Ipc.MessageRing
import Mtk3Smp.Lib.Ledger

/-!
# The flow of messages through a message buffer

What is accepted is what has been delivered followed by what is stored. `Flow` says so of a
state in which the calls `pend` and `pendR` have not returned; each step of a critical section
moves one call or one message on.
-/

namespace Mtk3Smp

/-- The messages accepted so far are those delivered and those still stored, in order; every
call returns at most once, and E_OK exactly if its message was accepted or delivered. -/
structure MbfOk (s : MbfSys) : Prop where
  stream : s.accepted.map Prod.snd = s.delivered.map Prod.snd ++ s.cb.contents
  sent_once : (s.sent.map Prod.fst).Nodup
  accepted_sent : ∀ p ∈ s.accepted, p ∈ s.sent
  accepted_once : (s.accepted.map Prod.fst).Nodup
  snd_once : (s.sndRet.map Prod.fst).Nodup
  snd_ok : ∀ n, (n, ER.E_OK) ∈ s.sndRet ↔ n ∈ s.accepted.map Prod.fst
  delivered_once : (s.delivered.map Prod.fst).Nodup
  rcv_once : (s.rcvRet.map Prod.fst).Nodup
  rcv_ok : ∀ n, (n, ER.E_OK) ∈ s.rcvRet ↔ n ∈ s.delivered.map Prod.fst
  /-- a waiting sender's call has not returned -/
  snd_waits : ∀ x ∈ s.sendQueue, (x.call, x.msg) ∈ s.sent ∧ ∀ e, (x.call, e) ∉ s.sndRet
  rcv_waits : ∀ x ∈ s.recvQueue, ∀ e, (x.call, e) ∉ s.rcvRet
  frbufsz : s.cb.frbufsz = (s.cb.bufsz : Int) - (spans s.cb.contents : Nat)
  recv : s.recvQueue ≠ [] → s.cb.contents = [] ∧ s.sendQueue = []
  blocked : ∀ x rest, s.sendQueue = x :: rest → knlMbfFree s.cb x.msg.length = false

/-- The calls `pend` and `pendR` have not returned, and `stored` lies in the ring. -/
structure Flow (s : MbfSys) (pend : List (Nat × Msg)) (pendR : List Nat) (stored : List Msg) :
    Prop where
  ring : Ring s.cb stored
  stream : s.accepted.map Prod.snd = s.delivered.map Prod.snd ++ stored
  snd : Ledger s.calls (pend.map Prod.fst) s.sndRet
  rcv : Ledger s.calls pendR s.rcvRet
  accepted : s.accepted.map Prod.fst = (s.sndRet.filter (·.2 == .E_OK)).map Prod.fst
  delivered : s.delivered.map Prod.fst = (s.rcvRet.filter (·.2 == .E_OK)).map Prod.fst
  sent : ∀ p, p ∈ s.accepted ∨ p ∈ pend → p ∈ s.sent
  sent_once : (s.sent.map Prod.fst).Nodup
  sent_lt : ∀ p ∈ s.sent, p.1 < s.calls

namespace Flow

variable {s : MbfSys} {pend pend' : List (Nat × Msg)} {pendR : List Nat} {stored : List Msg}
  {n r : Nat} {msg : Msg}

theorem perm (h : Flow s pend pendR stored) (hp : pend.Perm pend') : Flow s pend' pendR stored :=
  { h with
    snd := h.snd.perm (hp.map _)
    sent := fun p hs => h.sent p (hs.imp_right hp.mem_iff.2) }

/-- The queues, the priorities and `mbfid` are not part of the flow. -/
theorem requeue (h : Flow s pend pendR stored) (sq : List Sender) (rq : List Receiver)
    (priority : Tid → Nat) (ex : Bool) :
    Flow { s with sendQueue := sq, recvQueue := rq, priority := priority, exists_ := ex }
      pend pendR stored :=
  { h with }

/-- The call of a terminated task never returns. -/
theorem dropSnd (h : Flow s pend pendR stored) (hs : pend'.Sublist pend) :
    Flow s pend' pendR stored :=
  { h with
    snd := h.snd.sublist (hs.map _)
    sent := fun p hp => h.sent p (hp.imp_right fun hm => hs.subset hm) }

theorem dropRcv {pendR' : List Nat} (h : Flow s pend pendR stored) (hs : pendR'.Sublist pendR) :
    Flow s pend pendR' stored :=
  { h with rcv := h.rcv.sublist hs }

/-- tk_snd_mbf is called. -/
theorem startSnd (h : Flow s pend pendR stored) (msg : Msg) :
    Flow { s with calls := s.calls + 1, sent := s.sent ++ [(s.calls, msg)] }
      ((s.calls, msg) :: pend) pendR stored := by
  refine { h with
    snd := h.snd.start
    rcv := h.rcv.mono (Nat.le_succ _)
    sent := ?_, sent_once := ?_, sent_lt := ?_ }
  · intro p hp
    rw [List.mem_cons] at hp
    rw [List.mem_append, List.mem_singleton]
    rcases hp with hp | rfl | hp
    · exact .inl (h.sent p (.inl hp))
    · exact .inr rfl
    · exact .inl (h.sent p (.inr hp))
  · rw [List.map_append, List.nodup_append]
    refine ⟨h.sent_once, by simp, ?_⟩
    intro i hi j hj
    obtain ⟨p, hp, rfl⟩ := List.mem_map.1 hi
    obtain rfl : j = s.calls := by simpa using hj
    exact Nat.ne_of_lt (h.sent_lt p hp)
  · intro p hp
    rw [List.mem_append, List.mem_singleton] at hp
    rcases hp with hp | rfl
    · exact Nat.lt_succ_of_lt (h.sent_lt p hp)
    · exact Nat.lt_succ_self _

/-- tk_rcv_mbf is called. -/
theorem startRcv (h : Flow s pend pendR stored) :
    Flow { s with calls := s.calls + 1 } pend (s.calls :: pendR) stored :=
  { h with
    snd := h.snd.mono (Nat.le_succ _)
    rcv := h.rcv.start
    sent_lt := fun p hp => Nat.lt_succ_of_lt (h.sent_lt p hp) }

theorem sndNg (h : Flow s ((n, msg) :: pend) pendR stored) {e : ER} (he : e ≠ .E_OK) :
    Flow (s.sndNg n e) pend pendR stored := by
  refine { h with snd := h.snd.close e, accepted := ?_, sent := ?_ }
  · have hf : [(n, e)].filter (fun x => x.2 == .E_OK) = [] := by simp [he]
    show _ = ((s.sndRet ++ [(n, e)]).filter _).map _
    rw [List.filter_append, hf, List.append_nil]
    exact h.accepted
  · exact fun p hp => h.sent p (hp.imp_right fun hm => List.mem_cons_of_mem _ hm)

theorem rcvNg (h : Flow s pend (r :: pendR) stored) {e : ER} (he : e ≠ .E_OK) :
    Flow (s.rcvNg r e) pend pendR stored := by
  refine { h with rcv := h.rcv.close e, delivered := ?_ }
  have hf : [(r, e)].filter (fun x => x.2 == .E_OK) = [] := by simp [he]
  show _ = ((s.rcvRet ++ [(r, e)]).filter _).map _
  rw [List.filter_append, hf, List.append_nil]
  exact h.delivered

/-- A message goes into the ring and its sender returns. -/
theorem store (h : Flow s ((n, msg) :: pend) pendR stored) (hlen : msg.length < 2 ^ 31)
    (hfree : knlMbfFree s.cb msg.length = true) :
    Flow ({ s with cb := knlMsgToMbf s.cb msg }.sndOk n msg) pend pendR (stored ++ [msg]) := by
  refine { h with
    ring := h.ring.push ((h.ring.free_iff hlen).1 hfree)
    snd := h.snd.close .E_OK
    stream := ?_, accepted := ?_, sent := ?_ }
  · show (s.accepted ++ [(n, msg)]).map Prod.snd = _
    rw [List.map_append, h.stream, List.append_assoc]
    rfl
  · show (s.accepted ++ [(n, msg)]).map Prod.fst = ((s.sndRet ++ [(n, ER.E_OK)]).filter _).map _
    rw [List.map_append, List.filter_append, List.map_append, h.accepted]
    rfl
  · intro p hp
    have hp' : (p ∈ s.accepted ++ [(n, msg)]) ∨ p ∈ pend := hp
    rw [List.mem_append, List.mem_singleton] at hp'
    rcases hp' with (hp' | rfl) | hp'
    · exact h.sent p (.inl hp')
    · exact h.sent _ (.inr List.mem_cons_self)
    · exact h.sent p (.inr (List.mem_cons_of_mem _ hp'))

/-- The first message leaves the ring and its receiver returns. -/
theorem take (h : Flow s pend (r :: pendR) (msg :: stored)) :
    Flow ({ s with cb := (knlMbfToMsg s.cb).2 }.rcvOk r (knlMbfToMsg s.cb).1) pend pendR stored := by
  obtain ⟨hmsg, hring⟩ := h.ring.pop
  refine { h with ring := hring, rcv := h.rcv.close .E_OK, stream := ?_, delivered := ?_ }
  · show s.accepted.map Prod.snd = (s.delivered ++ [(r, (knlMbfToMsg s.cb).1)]).map Prod.snd ++ _
    rw [List.map_append, List.append_assoc, hmsg]
    exact h.stream
  · show (s.delivered ++ [(r, _)]).map Prod.fst = ((s.rcvRet ++ [(r, ER.E_OK)]).filter _).map _
    rw [List.map_append, List.filter_append, List.map_append, h.delivered]
    rfl

/-- A message is handed over with the ring empty, and both calls return. -/
theorem hand (h : Flow s ((n, msg) :: pend) (r :: pendR) []) :
    Flow ((s.rcvOk r msg).sndOk n msg) pend pendR [] := by
  refine { h with
    snd := h.snd.close .E_OK
    rcv := h.rcv.close .E_OK
    stream := ?_, accepted := ?_, delivered := ?_, sent := ?_ }
  · show (s.accepted ++ [(n, msg)]).map Prod.snd = (s.delivered ++ [(r, msg)]).map Prod.snd ++ []
    have := h.stream
    rw [List.append_nil] at this
    simp [this]
  · show (s.accepted ++ [(n, msg)]).map Prod.fst = ((s.sndRet ++ [(n, ER.E_OK)]).filter _).map _
    rw [List.map_append, List.filter_append, List.map_append, h.accepted]
    rfl
  · show (s.delivered ++ [(r, msg)]).map Prod.fst = ((s.rcvRet ++ [(r, ER.E_OK)]).filter _).map _
    rw [List.map_append, List.filter_append, List.map_append, h.delivered]
    rfl
  · intro p hp
    have hp' : (p ∈ s.accepted ++ [(n, msg)]) ∨ p ∈ pend := hp
    rw [List.mem_append, List.mem_singleton] at hp'
    rcases hp' with (hp' | rfl) | hp'
    · exact h.sent p (.inl hp')
    · exact h.sent _ (.inr List.mem_cons_self)
    · exact h.sent p (.inr (List.mem_cons_of_mem _ hp'))

end Flow

/-! ## The invariant -/

def Sender.pair (x : Sender) : Nat × Msg := (x.call, x.msg)

def MbfSys.Blocked (s : MbfSys) : Prop :=
  ∀ x rest, s.sendQueue = x :: rest → knlMbfFree s.cb x.msg.length = false

structure MbfInv (s : MbfSys) : Prop where
  flow : ∃ stored, Flow s (s.sendQueue.map Sender.pair) (s.recvQueue.map (·.call)) stored
  small : ∀ x ∈ s.sendQueue, x.msg.length < 2 ^ 31
  maxmsz : s.cb.maxmsz < 2 ^ 31
  recv : s.recvQueue ≠ [] → knlMbfEmpty s.cb = true ∧ s.sendQueue = []
  blocked : s.Blocked

section

variable {s : MbfSys} {stored : List Msg}

theorem knlMsgToMbf_maxmsz (m : Mbfcb) (msg : Msg) : (knlMsgToMbf m msg).maxmsz = m.maxmsz := by
  unfold knlMsgToMbf
  dsimp only
  split <;> split <;> rfl

theorem knlMsgToMbf_bufsz (m : Mbfcb) (msg : Msg) : (knlMsgToMbf m msg).bufsz = m.bufsz := by
  unfold knlMsgToMbf
  dsimp only
  split <;> split <;> rfl

theorem knlMbfToMsg_maxmsz (m : Mbfcb) : (knlMbfToMsg m).2.maxmsz = m.maxmsz := by
  unfold knlMbfToMsg
  dsimp only
  split <;> split <;> rfl

/-- The loop of `knl_mbf_wakeup` ends at a sender whose message does not fit. -/
theorem wakeupLoop_inv (q : List Sender) (h : Flow s (q.map Sender.pair) [] stored)
    (hrecv : s.recvQueue = []) (small : ∀ x ∈ q, x.msg.length < 2 ^ 31)
    (hmax : s.cb.maxmsz < 2 ^ 31) : MbfInv (MbfSys.wakeupLoop q s) := by
  induction q generalizing s stored with
  | nil =>
    refine ⟨⟨stored, ?_⟩, by simp [MbfSys.wakeupLoop], hmax, ?_, ?_⟩
    · have := h.requeue [] s.recvQueue s.priority s.exists_
      simpa [MbfSys.wakeupLoop, hrecv] using this
    · exact fun hne => absurd hrecv hne
    · exact fun x rest hq => by simp [MbfSys.wakeupLoop] at hq
  | cons top rest ih =>
    unfold MbfSys.wakeupLoop
    split
    · rename_i hfull
      refine ⟨⟨stored, ?_⟩, small, hmax, fun hne => absurd hrecv hne, ?_⟩
      · have := h.requeue (top :: rest) s.recvQueue s.priority s.exists_
        simpa [hrecv] using this
      · rintro x rest' hq
        obtain ⟨rfl, rfl⟩ := List.cons.inj hq
        simpa using hfull
    · rename_i hfree
      have hlen := small top List.mem_cons_self
      refine ih (h.store hlen (by simpa using hfree)) hrecv ?_ ?_
      · exact fun x hx => small x (List.mem_cons_of_mem _ hx)
      · exact (knlMsgToMbf_maxmsz s.cb top.msg).trans_lt hmax

theorem knlMbfWakeup_inv (h : Flow s (s.sendQueue.map Sender.pair) [] stored)
    (hrecv : s.recvQueue = []) (small : ∀ x ∈ s.sendQueue, x.msg.length < 2 ^ 31)
    (hmax : s.cb.maxmsz < 2 ^ 31) : MbfInv s.knlMbfWakeup :=
  wakeupLoop_inv s.sendQueue h hrecv small hmax

/-- Storing a message makes room for nobody. -/
theorem blocked_store (r : Ring s.cb stored) {msg : Msg}
    (hfree : HEADERSZ + msg.length ≤ s.cb.bufsz - spans stored) {n : Nat} (hn : n < 2 ^ 31)
    (h : knlMbfFree s.cb n = false) : knlMbfFree (knlMsgToMbf s.cb msg) n = false := by
  rw [← Bool.not_eq_true] at h ⊢
  rw [r.free_iff hn] at h
  rw [(r.push hfree).free_iff hn, spans_append, knlMsgToMbf_bufsz]
  omega

end

end Mtk3Smp
