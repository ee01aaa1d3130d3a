import Mtk3Smp.Net.Segments

/-!
# What a good verdict means

A TCP session ends with `ERR_OK` only after it has shut its side down, and it does so only when
every byte it waited for has come, in order.
-/

namespace Mtk3Smp

namespace Net

theorem range_mono {m n : Nat} (h : m ≤ n) : List.range m <+: List.range n := by
  obtain ⟨k, rfl⟩ := Nat.le.dest h
  rw [List.range_add]
  exact List.prefix_append _ _

/-! ## The connection -/

namespace Conn

variable {s s' : Conn} {expected : List UB}

/-- The stream received up to the shutdown starts with the expected bytes. -/
def Shut (expected : List UB) (s : Conn) : Prop :=
  ∃ st, s.atShutdown = some st ∧ expected <+: st

structure Honest (expected : List UB) (s : Conn) : Prop where
  shut : s.finSent = true → s.Shut expected
  ok : s.complete = true → s.result = ERR_OK → s.Shut expected

/-- What the verdict and the stream are about. -/
def account (s : Conn) : List UB × Bool × Err × Bool × Option (List UB) :=
  (s.received, s.complete, s.result, s.finSent, s.atShutdown)

theorem Honest.of_account (ok : s.Honest expected) (h : s'.account = s.account) :
    s'.Honest expected := by
  obtain ⟨-, hc, hr, hf, ha⟩ : s'.received = s.received ∧ s'.complete = s.complete ∧
      s'.result = s.result ∧ s'.finSent = s.finSent ∧ s'.atShutdown = s.atShutdown := by
    unfold account at h
    simpa only [Prod.mk.injEq] using h
  refine ⟨fun hfin => ?_, fun hcomplete hresult => ?_⟩
  · unfold Shut
    rw [ha]
    exact ok.shut (hf ▸ hfin)
  · unfold Shut
    rw [ha]
    exact ok.ok (hc ▸ hcomplete) (hr ▸ hresult)

theorem Honest.finish (ok : s.Honest expected) {result : Err}
    (hr : result = ERR_OK → s.finSent = true) (now : UW) :
    (s.finish result now).Honest expected :=
  ⟨ok.shut, fun _ hok => ok.shut (hr hok)⟩

theorem Honest.initFailed (ok : s.Honest expected) {result : Err} (hr : result ≠ ERR_OK) :
    (s.initFailed result).Honest expected :=
  ⟨ok.shut, fun _ hok => absurd hok hr⟩

theorem Honest.initSession {c : TcpPeer} (ok : s.Honest expected) (netif : Option Netif)
    (o : TcpAnswers) : (s.initSession c netif o).Honest expected ∧
      (s.initSession c netif o).received = s.received ∧
      ((s.initSession c netif o).complete = false → s.complete = false) := by
  have harg : ERR_ARG ≠ ERR_OK := by decide
  have hmem : ERR_MEM ≠ ERR_OK := by decide
  unfold Conn.initSession
  dsimp only
  split
  · exact ⟨⟨ok.shut, fun _ hok => absurd hok harg⟩, rfl, nofun⟩
  · exact ⟨⟨ok.shut, fun _ hok => absurd hok harg⟩, rfl, nofun⟩
  · split
    · exact ⟨⟨ok.shut, fun _ hok => absurd hok harg⟩, rfl, nofun⟩
    · split
      · exact ⟨⟨ok.shut, fun _ hok => absurd hok hmem⟩, rfl, nofun⟩
      · split
        · rename_i hr
          exact ⟨⟨ok.shut, fun _ hok => absurd hok hr⟩, rfl, nofun⟩
        · exact ⟨⟨ok.shut, ok.ok⟩, rfl, id⟩

theorem releasePcb_account (s : Conn) (o : TcpAnswers) :
    (s.releasePcb o).account = s.account := by
  unfold Conn.releasePcb
  split
  · rfl
  · dsimp only
    split <;> rfl

theorem pollFin_account (s : Conn) (closeTimeout now : UW) (o : TcpAnswers) :
    (s.pollFin closeTimeout now o).1.account = s.account := by
  unfold Conn.pollFin
  dsimp only
  split
  · rw [releasePcb_account]
    rfl
  · split <;> rfl

theorem Honest.shutdown (ok : s.Honest expected) (hexp : expected <+: s.received) (h : Nat)
    (now : UW) (o : TcpAnswers) : (s.shutdown h now o).1.Honest expected ∧
      (s.shutdown h now o).1.received = s.received ∧
      (s.shutdown h now o).1.complete = s.complete ∧
      ((s.shutdown h now o).2 = true → o.tcpShutdown ≠ ERR_OK) := by
  unfold Conn.shutdown
  dsimp only
  split
  · exact ⟨⟨fun _ => ⟨s.received, rfl, hexp⟩, fun _ _ => ⟨s.received, rfl, hexp⟩⟩, rfl, rfl,
      nofun⟩
  · rename_i hr
    split
    · exact ⟨⟨ok.shut, ok.ok⟩, rfl, rfl, fun _ => hr⟩
    · exact ⟨⟨ok.shut, ok.ok⟩, rfl, rfl, nofun⟩

theorem Init.honest (h : s.Init) : s.Honest expected := by
  refine ⟨fun hf => ?_, fun hc => ?_⟩
  · rw [h.finSent] at hf
    cases hf
  · rw [h.complete] at hc
    cases hc

end Conn

/-! ## The record echo session -/

/-- The first `n` records. -/
def records (n : Nat) : List UB :=
  (List.range n).flatMap fun i => makeRecord (BitVec.ofNat 16 i)

theorem records_succ (n : Nat) :
    records (n + 1) = records n ++ makeRecord (BitVec.ofNat 16 n) := by
  unfold records
  rw [List.range_succ, List.flatMap_append, List.flatMap_singleton]

theorem records_mono {m n : Nat} (h : m ≤ n) : records m <+: records n := by
  obtain ⟨k, hk⟩ := range_mono h
  unfold records
  rw [← hk, List.flatMap_append]
  exact List.prefix_append _ _

namespace EchoCore

variable {k : EchoCore} {received : List UB}

/-- The session has matched the records of the stream so far, and holds the rest. -/
structure Ok (k : EchoCore) (received : List UB) : Prop where
  fill : k.rxFill < LWIP_UTK_TCP_RECORD_SIZE
  count : k.recordsMatched.toNat = k.record.toNat
  le : k.record.toNat ≤ LWIP_UTK_TCP_RECORD_COUNT
  waiting : k.complete = false → k.awaitingEcho = true →
    k.record.toNat < LWIP_UTK_TCP_RECORD_COUNT
  stream : k.complete = false →
    received = records k.record.toNat ++ Cyclic.slice k.rxBuffer 0 k.rxFill

theorem Ok.fail (ok : k.Ok received) (more : List UB) : k.fail.Ok (received ++ more) :=
  ⟨ok.fill, ok.count, ok.le, nofun, nofun⟩

theorem Ok.take (ok : k.Ok received) (x : UB) : (k.take x).Ok (received ++ [x]) := by
  unfold EchoCore.take
  by_cases hc : k.complete = true
  · rw [if_pos hc]
    refine ⟨ok.fill, ok.count, ok.le, ok.waiting, fun hopen => ?_⟩
    rw [hc] at hopen
    cases hopen
  · have hopen : k.complete = false := Bool.eq_false_iff.2 hc
    have hfill := ok.fill
    have hstream := ok.stream hopen
    have hslice : Cyclic.slice (Function.update k.rxBuffer k.rxFill x) 0 (k.rxFill + 1) =
        Cyclic.slice k.rxBuffer 0 k.rxFill ++ [x] := by
      have hput : Function.update k.rxBuffer k.rxFill x = Cyclic.put k.rxBuffer k.rxFill [x] := by
        have hone := Cyclic.put_concat k.rxBuffer k.rxFill [] x
        rw [Cyclic.put_nil] at hone
        exact hone.symm
      rw [hput, Cyclic.slice_add, Cyclic.slice_put_before _ _ (by omega), Nat.zero_add]
      congr 1
      exact Cyclic.slice_put k.rxBuffer k.rxFill [x]
    have hall : received ++ [x] = records k.record.toNat ++
        Cyclic.slice (Function.update k.rxBuffer k.rxFill x) 0 (k.rxFill + 1) := by
      rw [hslice, hstream, List.append_assoc]
    rw [if_neg hc]
    dsimp only
    by_cases hmore : k.rxFill + 1 < LWIP_UTK_TCP_RECORD_SIZE
    · rw [if_pos hmore]
      exact ⟨hmore, ok.count, ok.le, ok.waiting, fun _ => hall⟩
    · have hfull : k.rxFill + 1 = LWIP_UTK_TCP_RECORD_SIZE := by omega
      rw [if_neg hmore]
      unfold close
      dsimp only
      split
      · exact ⟨Nat.zero_lt_succ _, ok.count, ok.le, nofun, nofun⟩
      · rename_i hawait
        split
        · exact ⟨Nat.zero_lt_succ _, ok.count, ok.le, nofun, nofun⟩
        · rename_i hsame
          have hlt := ok.waiting hopen (by simpa using hawait)
          have hnext : (k.record + 1).toNat = k.record.toNat + 1 := by
            rw [BitVec.toNat_add]
            have hone : (1 : UH).toNat = 1 := rfl
            simp only [LWIP_UTK_TCP_RECORD_COUNT] at hlt
            omega
          refine ⟨Nat.zero_lt_succ _, ?_, ?_, nofun, fun _ => ?_⟩
          · have hcount := ok.count
            show (k.recordsMatched + 1).toNat = (k.record + 1).toNat
            rw [hnext, BitVec.toNat_add]
            have hone : (1 : UW).toNat = 1 := rfl
            simp only [LWIP_UTK_TCP_RECORD_COUNT] at hlt
            omega
          · show (k.record + 1).toNat ≤ LWIP_UTK_TCP_RECORD_COUNT
            omega
          · show received ++ [x] = records (k.record + 1).toNat ++ []
            rw [hnext, records_succ, BitVec.ofNat_toNat, BitVec.setWidth_eq,
              List.append_nil, hall, hfull]
            congr 1
            exact not_not.1 hsame

theorem Ok.foldl (ok : k.Ok received) (xs : List UB) :
    (xs.foldl EchoCore.take k).Ok (received ++ xs) := by
  induction xs generalizing k received with
  | nil =>
    rw [List.append_nil]
    exact ok
  | cons x xs ih =>
    have hnext := ih (ok.take x)
    rw [List.append_assoc] at hnext
    exact hnext

/-- Whatever ends the session, or leaves it as it is. -/
theorem Ok.setVerdict (ok : k.Ok received) {complete : Bool} (result : Err)
    (hc : complete = false → k.complete = false) :
    Ok { k with complete := complete, result := result } received :=
  ⟨ok.fill, ok.count, ok.le, fun h => ok.waiting (hc h), fun h => ok.stream (hc h)⟩

end EchoCore

namespace TcpEcho

variable {s s' : TcpEcho} {c : TcpPeer}

def expected : List UB := records LWIP_UTK_TCP_RECORD_COUNT

def Ok (s : TcpEcho) : Prop := s.core.Ok s.conn.received ∧ s.conn.Honest expected

theorem Ok.finish (ok : s.Ok) {result : Err} (hr : result = ERR_OK → s.conn.finSent = true)
    (now : UW) : (s.finish result now).Ok := by
  obtain ⟨hcore, hhonest⟩ := ok
  exact ⟨⟨hcore.fill, hcore.count, hcore.le, nofun, nofun⟩, hhonest.finish hr now⟩

theorem Ok.fail (ok : s.Ok) {result : Err} (hr : result ≠ ERR_OK) (now : UW) :
    (s.finish result now).Ok := ok.finish (fun he => absurd he hr) now

theorem Ok.setConn (ok : s.Ok) {conn : Conn} (hreceived : conn.received = s.conn.received)
    (hc : conn.complete = false → s.conn.complete = false) (hhonest : conn.Honest expected) :
    ({ s with conn := conn } : TcpEcho).Ok := by
  refine ⟨?_, hhonest⟩
  have hcore := ok.1.setVerdict conn.result hc
  rw [← hreceived] at hcore
  exact hcore

theorem Ok.ofAccount (ok : s.Ok) {conn : Conn} (h : conn.account = s.conn.account) :
    ({ s with conn := conn } : TcpEcho).Ok := by
  have hreceived : conn.received = s.conn.received := congrArg Prod.fst h
  have hc : conn.complete = s.conn.complete := congrArg (fun a => a.2.1) h
  exact ok.setConn hreceived (fun he => hc ▸ he) (ok.2.of_account h)

theorem recvLoop_honest (p : Pbuf) (now : UW) (fuel offset : Nat)
    (hh : s.conn.Honest expected) : (recvLoop p now fuel offset s).conn.Honest expected ∧
      (recvLoop p now fuel offset s).conn.received = s.conn.received := by
  have hval : ERR_VAL ≠ ERR_OK := by decide
  have hbuf : ERR_BUF ≠ ERR_OK := by decide
  induction fuel generalizing offset s with
  | zero => exact ⟨hh, rfl⟩
  | succ fuel ih =>
    have hrecord : ∀ s1 : TcpEcho, s1.conn = s.conn →
        (s1.takeRecord now).conn.Honest expected ∧
          (s1.takeRecord now).conn.received = s.conn.received := by
      intro s1 h1
      have hh1 : s1.conn.Honest expected := h1 ▸ hh
      have hr1 : s1.conn.received = s.conn.received := congrArg Conn.received h1
      unfold takeRecord
      dsimp only
      split
      · exact ⟨hh1.finish (fun he => absurd he hval) now, hr1⟩
      · split
        · exact ⟨hh1.finish (fun he => absurd he hval) now, hr1⟩
        · exact ⟨hh1, hr1⟩
    rw [recvLoop]
    split
    · dsimp only
      split
      · exact ⟨hh.finish (fun he => absurd he hbuf) now, rfl⟩
      · split
        · exact ⟨hh, rfl⟩
        · obtain ⟨hh1, hr1⟩ := hrecord { s with
            rxBuffer := Cyclic.put s.rxBuffer s.rxFill
              (p.copyPartial (min (LWIP_UTK_TCP_RECORD_SIZE - s.rxFill) (p.totLen - offset))
                offset)
            rxFill := s.rxFill +
              min (LWIP_UTK_TCP_RECORD_SIZE - s.rxFill) (p.totLen - offset) } rfl
          obtain ⟨hh2, hr2⟩ := ih (offset +
            min (LWIP_UTK_TCP_RECORD_SIZE - s.rxFill) (p.totLen - offset)) hh1
          exact ⟨hh2, hr2.trans hr1⟩
    · exact ⟨hh, rfl⟩

theorem Ok.segment (ok : s.Ok) (h : Nat) (p : Pbuf) (now : UW) :
    (s.tcpEchoRecv h (some p) ERR_OK now).Ok := by
  obtain ⟨hcore, hhonest⟩ := ok
  have hseg : (s.segment h p).conn.Honest expected := ⟨hhonest.shut, hhonest.ok⟩
  obtain ⟨hh, hr⟩ := recvLoop_honest p now p.totLen 0 hseg
  refine ⟨?_, hh⟩
  have hnext := hcore.foldl p.payload
  rw [← (tcpEchoRecv_core h p now hcore.fill).1] at hnext
  have hall : (s.tcpEchoRecv h (some p) ERR_OK now).conn.received =
      s.conn.received ++ p.payload := hr
  rw [hall]
  exact hnext

theorem Ok.callback (ok : s.Ok) {h : Nat} {cb : TcpCallback} (hm : s.conn.mayCall h cb = true)
    (now : UW) : (s.callback h now cb).Ok := by
  cases cb with
  | recv p err =>
    show (s.tcpEchoRecv h p err now).Ok
    by_cases herr : err = ERR_OK
    · subst herr
      cases p with
      | none => exact ok.ofAccount rfl
      | some p => exact ok.segment h p now
    · unfold tcpEchoRecv
      rw [if_pos herr]
      exact ok.fail herr now
  | sent len => exact ok.ofAccount rfl
  | connected err =>
    have hset : ({ s with conn := { s.conn with connectResult := err } } : TcpEcho).Ok :=
      ok.ofAccount rfl
    show (s.tcpEchoConnected err now).Ok
    unfold tcpEchoConnected
    dsimp only
    split
    · rename_i herr
      exact hset.fail herr now
    · exact ok.ofAccount rfl
  | err err =>
    have herr : err ≠ ERR_OK := by
      unfold Conn.mayCall at hm
      exact bne_iff_ne.1 (Bool.and_eq_true_iff.1 hm).2
    have hfreed : ({ s with conn := s.conn.freed h err } : TcpEcho).Ok := ok.ofAccount rfl
    show (s.tcpEchoErr h err now).Ok
    unfold tcpEchoErr
    dsimp only
    split
    · exact hfreed.fail herr now
    · exact hfreed

theorem Ok.pollSend (ok : s.Ok)
    (hmore : s.recordsMatched.toNat < LWIP_UTK_TCP_RECORD_COUNT) (h : Nat) (now : UW)
    (o : TcpEchoAnswers) : (s.pollSend h now o).Ok := by
  obtain ⟨hcore, hhonest⟩ := ok
  have hcount := hcore.count
  have hset : ∀ conn : Conn, conn.account = s.conn.account →
      ({ s with conn := conn } : TcpEcho).Ok := fun _ => Ok.ofAccount ⟨hcore, hhonest⟩
  unfold TcpEcho.pollSend
  dsimp only
  split
  · refine ⟨⟨hcore.fill, hcore.count, hcore.le, fun _ _ => ?_, hcore.stream⟩,
      hhonest.of_account rfl⟩
    show s.record.toNat < LWIP_UTK_TCP_RECORD_COUNT
    have hcount' : s.recordsMatched.toNat = s.record.toNat := hcount
    omega
  · split
    · rename_i hr _
      exact Ok.fail (s := { s with
        sendErrors := s.sendErrors + 1
        conn := { s.conn with
          sendResult := (sendRecord o).1, lwip := s.conn.lwip.uses h (sendRecord o).2 } })
        (hset _ rfl) hr now
    · exact hset _ rfl

theorem Ok.pollConnected (ok : s.Ok) (hopen : s.conn.complete = false) (h : Nat) (now : UW)
    (o : TcpEchoAnswers) : (s.pollConnected h now o).Ok := by
  have htimeout : ERR_TIMEOUT ≠ ERR_OK := by decide
  unfold TcpEcho.pollConnected
  dsimp only
  split
  · rename_i hfin
    have hacc := s.conn.pollFin_account UTK_TCP_CLOSE_TIMEOUT_MS now o.toTcpAnswers
    have hset := ok.ofAccount hacc
    have hfin' : (s.conn.pollFin UTK_TCP_CLOSE_TIMEOUT_MS now o.toTcpAnswers).1.finSent =
        true := (congrArg (fun a => a.2.2.2.1) hacc).trans hfin
    split
    · exact hset.finish (fun _ => hfin') now
    · exact hset
  · split
    · rename_i hall
      -- every record has been matched, so the stream starts with all of them
      have hexp : expected <+: s.conn.received := by
        have hcount : s.recordsMatched.toNat = s.record.toNat := ok.1.count
        have hstream : s.conn.received = records s.record.toNat ++ _ := ok.1.stream hopen
        rw [hstream]
        exact (records_mono (by omega)).trans (List.prefix_append _ _)
      obtain ⟨hh, hrec, hcomp, hfailed⟩ := ok.2.shutdown hexp h now o.toTcpAnswers
      have hset : ({ s with conn := (s.conn.shutdown h now o.toTcpAnswers).1 } : TcpEcho).Ok :=
        ok.setConn hrec (fun he => hcomp ▸ he) hh
      split
      · rename_i hf
        exact hset.fail (hfailed hf) now
      · exact hset
    · rename_i hmore
      split
      · split
        · exact ok.fail htimeout now
        · exact ok
      · exact ok.pollSend (by omega) h now o

theorem Ok.pollTimed (ok : s.Ok) (hopen : s.conn.complete = false) (h : Nat) (now : UW)
    (o : TcpEchoAnswers) : (s.pollTimed h now o).Ok := by
  have htimeout : ERR_TIMEOUT ≠ ERR_OK := by decide
  unfold TcpEcho.pollTimed
  split
  · exact ok.fail htimeout now
  · split
    · split
      · have hset : ({ s with
            conn := { s.conn with connectResult := ERR_TIMEOUT } } : TcpEcho).Ok :=
          ok.ofAccount rfl
        exact hset.fail htimeout now
      · exact ok
    · exact ok.pollConnected hopen h now o

theorem Ok.pollSession (ok : s.Ok) (hopen : s.conn.complete = false) (h : Nat) (now : UW)
    (o : TcpEchoAnswers) : (s.pollSession h now o).Ok := by
  unfold TcpEcho.pollSession
  by_cases hstarted : s.conn.started
  · simp only [if_pos hstarted]
    refine Ok.pollTimed ?_ ?_ h now o
    · exact ok.ofAccount rfl
    · exact hopen
  · simp only [if_neg hstarted]
    refine Ok.pollTimed ?_ ?_ h now o
    · exact ok.ofAccount rfl
    · exact hopen

theorem Ok.pollOpen (ok : s.Ok) (netif : Option Netif) (now : UW) (o : TcpEchoAnswers) :
    (s.pollOpen netif now o).Ok := by
  unfold TcpEcho.pollOpen
  split
  · exact ok
  · rename_i h _
    split
    · exact ok
    · rename_i hgo
      have hopen : s.conn.complete = false := Bool.eq_false_iff.2 fun he => hgo (Or.inl he)
      exact ok.pollSession hopen h now o

theorem Ok.poll (ok : s.Ok) (netif : Option Netif) (now : UW) (o : TcpEchoAnswers) :
    (s.poll c netif now o).Ok := by
  have hcall : ({ s with pollCalls := s.pollCalls + 1 } : TcpEcho).Ok := ok
  unfold TcpEcho.poll
  dsimp only
  split
  · split
    · exact hcall.ofAccount (s.conn.releasePcb_account o.toTcpAnswers)
    · exact ok
  · split
    · exact hcall.pollOpen netif now o
    · obtain ⟨hh, hrec, hcomp⟩ := ok.2.initSession (c := c) netif o.toTcpAnswers
      exact (hcall.setConn hrec hcomp hh).pollOpen netif now o

theorem reachable_ok (h : (tcpEchoSys c).Reachable s) : s.Ok := by
  refine h.invariant Ok (fun s hi => ⟨?_, ?_⟩) fun s e t ok _ hs => ?_
  · have hrecv : s.conn.received = [] := hi.conn.received
    refine ⟨?_, ?_, ?_, fun _ hw => ?_, fun _ => ?_⟩
    · show s.rxFill < LWIP_UTK_TCP_RECORD_SIZE
      rw [hi.rxFill]
      decide
    · show s.recordsMatched.toNat = s.record.toNat
      rw [hi.recordsMatched, hi.record]
      rfl
    · show s.record.toNat ≤ LWIP_UTK_TCP_RECORD_COUNT
      rw [hi.record]
      decide
    · have hw' : s.awaitingEcho = true := hw
      rw [hi.awaitingEcho] at hw'
      cases hw'
    · show s.conn.received = records s.record.toNat ++ Cyclic.slice s.rxBuffer 0 s.rxFill
      rw [hrecv, hi.record, hi.rxFill]
      rfl
  · exact hi.conn.honest
  · cases e with
    | poll netif now o =>
      obtain ⟨-, hs⟩ := Option.ite_none_right_eq_some.1 hs
      cases hs
      exact ok.poll netif now o
    | callback h now cb =>
      obtain ⟨hm, hs⟩ := Option.ite_none_right_eq_some.1 hs
      cases hs
      exact ok.callback hm now

end TcpEcho

/-! ## The bulk session -/

/-- The first `n` bytes of the stream. -/
def bulkStream (n : Nat) : List UB := (List.range n).map fun i => streamByte (BitVec.ofNat 32 i)

theorem bulkStream_succ (n : Nat) :
    bulkStream (n + 1) = bulkStream n ++ [streamByte (BitVec.ofNat 32 n)] := by
  unfold bulkStream
  rw [List.range_succ, List.map_append]
  rfl

theorem bulkStream_mono {m n : Nat} (h : m ≤ n) : bulkStream m <+: bulkStream n :=
  (range_mono h).map _

theorem BulkCore.eq_bulkStream {xs : List UB} (h : wrong xs 0 = 0) :
    xs = bulkStream xs.length := by
  induction xs using List.reverseRecOn with
  | nil => rfl
  | append_singleton xs x ih =>
    rw [wrong_append, Nat.add_eq_zero_iff] at h
    obtain ⟨hxs, hx⟩ := h
    have hzero := BitVec.zero_add (BitVec.ofNat 32 xs.length)
    have hx' : wrong [x] (BitVec.ofNat 32 xs.length) = 0 := by
      rw [← hzero]
      exact hx
    have hsame : x = streamByte (BitVec.ofNat 32 xs.length) := by
      by_contra hne
      rw [wrong, if_pos hne] at hx'
      omega
    rw [List.length_append, List.length_singleton, bulkStream_succ, ← ih hxs, ← hsame]

namespace TcpBulk

variable {s s' : TcpBulk} {c : TcpPeer}

def expected : List UB := bulkStream LWIP_UTK_TCPBULK_TOTAL_BYTES

structure Ok (s : TcpBulk) : Prop where
  noticed : s.Noticed
  offset : s.recvOffset = BitVec.ofNat 32 s.conn.received.length
  /-- what a session that goes on has received is what it expects -/
  clean : s.conn.complete = false → BulkCore.wrong s.conn.received 0 = 0
  honest : s.conn.Honest expected

/-- A change of the connection, and of what the stream is not about. -/
theorem Ok.setConn (ok : s.Ok) (hmis : s'.mismatches = s.mismatches)
    (hoff : s'.recvOffset = s.recvOffset) (hreceived : s'.conn.received = s.conn.received)
    (hc : s'.conn.complete = false → s.conn.complete = false)
    (hhonest : s'.conn.Honest expected) : s'.Ok := by
  refine ⟨fun he => ?_, ?_, fun he => ?_, hhonest⟩
  · rw [hmis]
    exact ok.noticed (hc he)
  · rw [hoff, hreceived]
    exact ok.offset
  · rw [hreceived]
    exact ok.clean (hc he)

theorem Ok.ofAccount (ok : s.Ok) (hmis : s'.mismatches = s.mismatches)
    (hoff : s'.recvOffset = s.recvOffset) (h : s'.conn.account = s.conn.account) : s'.Ok := by
  have hreceived : s'.conn.received = s.conn.received := congrArg Prod.fst h
  have hc : s'.conn.complete = s.conn.complete := congrArg (fun a => a.2.1) h
  exact ok.setConn hmis hoff hreceived (fun he => hc ▸ he) (ok.honest.of_account h)

theorem finish_rest (s : TcpBulk) (result : Err) (now : UW) :
    (s.finish result now).mismatches = s.mismatches ∧
      (s.finish result now).recvOffset = s.recvOffset := by
  unfold TcpBulk.finish
  dsimp only
  split <;> exact ⟨rfl, rfl⟩

theorem Ok.finish (ok : s.Ok) {result : Err} (hr : result = ERR_OK → s.conn.finSent = true)
    (now : UW) : (s.finish result now).Ok := by
  obtain ⟨hmis, hoff⟩ := s.finish_rest result now
  have hconn := finish_conn (s := s) result now
  refine ok.setConn hmis hoff ?_ ?_ ?_
  · rw [hconn]
    rfl
  · rw [hconn]
    nofun
  · rw [hconn]
    exact ok.honest.finish hr now

theorem Ok.fail (ok : s.Ok) {result : Err} (hr : result ≠ ERR_OK) (now : UW) :
    (s.finish result now).Ok := ok.finish (fun he => absurd he hr) now

theorem Ok.segment (ok : s.Ok) (h : Nat) (p : Pbuf) (now : UW) :
    (s.bulkRecv h (some p) ERR_OK now).Ok := by
  have hval : ERR_VAL ≠ ERR_OK := by decide
  have hrec := bulkRecv_receives h p now ok.noticed
  have hloop : (recvLoop p now p.totLen 0 (s.segment h p now)).conn = s.conn.segment h p :=
    recvLoop_conn p now p.totLen 0
  have hseg : (s.conn.segment h p).Honest expected := ⟨ok.honest.shut, ok.honest.ok⟩
  have hconn : (s.bulkRecv h (some p) ERR_OK now).conn.received = s.conn.received ++ p.payload ∧
      (s.bulkRecv h (some p) ERR_OK now).conn.Honest expected := by
    unfold TcpBulk.bulkRecv
    rw [if_neg (not_not_intro rfl)]
    dsimp only
    split
    · rw [finish_conn, hloop]
      exact ⟨rfl, hseg.finish (fun he => absurd he hval) now⟩
    · rw [hloop]
      exact ⟨rfl, hseg⟩
  have hoff : (s.bulkRecv h (some p) ERR_OK now).recvOffset =
      s.recvOffset + BitVec.ofNat 32 p.payload.length := by
    have ho := (BulkCore.foldl_take (k := s.core) p.payload).1
    rw [← hrec.core] at ho
    exact ho
  refine ⟨hrec.noticed, ?_, fun hopen => ?_, hconn.2⟩
  · rw [hoff, hconn.1, ok.offset, List.length_append, BitVec.ofNat_add]
  · have hcomplete := hrec.complete
    rw [hopen] at hcomplete
    obtain ⟨hc, hw⟩ := Bool.or_eq_false_iff.1 hcomplete.symm
    have hwrong : BulkCore.wrong p.payload s.recvOffset = 0 := by simpa using hw
    have hzero := BitVec.zero_add (BitVec.ofNat 32 s.conn.received.length)
    have hrest : BulkCore.wrong p.payload (0 + BitVec.ofNat 32 s.conn.received.length) = 0 := by
      rw [ok.offset, ← hzero] at hwrong
      exact hwrong
    rw [hconn.1, BulkCore.wrong_append, ok.clean hc, hrest]

theorem Ok.callback (ok : s.Ok) {h : Nat} {cb : TcpCallback} (hm : s.conn.mayCall h cb = true)
    (now : UW) : (s.callback h now cb).Ok := by
  cases cb with
  | recv p err =>
    show (s.bulkRecv h p err now).Ok
    by_cases herr : err = ERR_OK
    · subst herr
      cases p with
      | none => exact ok.ofAccount rfl rfl rfl
      | some p => exact ok.segment h p now
    · unfold bulkRecv
      rw [if_pos herr]
      exact ok.fail herr now
  | sent len => exact ok.ofAccount rfl rfl rfl
  | connected err =>
    have hset : ({ s with conn := { s.conn with connectResult := err } } : TcpBulk).Ok :=
      ok.ofAccount rfl rfl rfl
    show (s.bulkConnected err now).Ok
    unfold bulkConnected
    dsimp only
    split
    · rename_i herr
      exact hset.fail herr now
    · exact ok.ofAccount rfl rfl rfl
  | err err =>
    have herr : err ≠ ERR_OK := by
      unfold Conn.mayCall at hm
      exact bne_iff_ne.1 (Bool.and_eq_true_iff.1 hm).2
    have hfreed : ({ s with conn := s.conn.freed h err } : TcpBulk).Ok := ok.ofAccount rfl rfl rfl
    show (s.bulkErr h err now).Ok
    unfold bulkErr
    dsimp only
    split
    · exact hfreed.fail herr now
    · exact hfreed

/-- Sending does not touch the verdict or what has been received. -/
theorem pumpLoop_account (h : Nat) (writes : List (UH × Err)) (queued : Nat) (s : TcpBulk) :
    (pumpLoop h writes queued s).1.mismatches = s.mismatches ∧
      (pumpLoop h writes queued s).1.recvOffset = s.recvOffset ∧
      (pumpLoop h writes queued s).1.conn.account = s.conn.account := by
  induction writes generalizing s queued with
  | nil =>
    rw [pumpLoop]
    split <;> exact ⟨rfl, rfl, rfl⟩
  | cons w rest ih =>
    obtain ⟨space, result⟩ := w
    rw [pumpLoop]
    dsimp only
    split
    · split
      · exact ⟨rfl, rfl, rfl⟩
      · split
        · exact ⟨rfl, rfl, rfl⟩
        · split
          · exact ⟨rfl, rfl, rfl⟩
          · exact ih _ _
    · exact ⟨rfl, rfl, rfl⟩

theorem Ok.pumpSend (ok : s.Ok) (h : Nat) (o : TcpBulkAnswers) : (s.pumpSend h o).Ok := by
  obtain ⟨hmis, hoff, hacc⟩ := pumpLoop_account h o.writes 0 s
  unfold TcpBulk.pumpSend
  split
  · rename_i s1 heq
    rw [heq] at hmis hoff hacc
    exact ok.ofAccount hmis hoff hacc
  · rename_i s1 queued heq
    rw [heq] at hmis hoff hacc
    split
    · exact ok.ofAccount hmis hoff hacc
    · exact ok.ofAccount hmis hoff hacc

theorem Ok.pollConnected (ok : s.Ok) (hopen : s.conn.complete = false) (h : Nat) (now : UW)
    (o : TcpBulkAnswers) : (s.pollConnected h now o).Ok := by
  have htimeout : ERR_TIMEOUT ≠ ERR_OK := by decide
  unfold TcpBulk.pollConnected
  dsimp only
  split
  · rename_i hfin
    have hacc := s.conn.pollFin_account UTK_BULK_CLOSE_TIMEOUT_MS now o.toTcpAnswers
    have hset : ({ s with
        conn := (s.conn.pollFin UTK_BULK_CLOSE_TIMEOUT_MS now o.toTcpAnswers).1 } : TcpBulk).Ok :=
      ok.ofAccount rfl rfl hacc
    have hfin' : (s.conn.pollFin UTK_BULK_CLOSE_TIMEOUT_MS now o.toTcpAnswers).1.finSent =
        true := (congrArg (fun a => a.2.2.2.1) hacc).trans hfin
    split
    · exact hset.finish (fun _ => hfin') now
    · exact hset
  · split
    · rename_i hall
      -- the whole stream has been received, without a wrong byte
      have hexp : expected <+: s.conn.received := by
        have hoff := congrArg BitVec.toNat ok.offset
        rw [BitVec.toNat_ofNat] at hoff
        have hle := Nat.mod_le s.conn.received.length (2 ^ 32)
        rw [BulkCore.eq_bulkStream (ok.clean hopen)]
        exact bulkStream_mono (by omega)
      obtain ⟨hh, hrec, hcomp, hfailed⟩ := ok.honest.shutdown hexp h now o.toTcpAnswers
      have hset : ({ s with conn := (s.conn.shutdown h now o.toTcpAnswers).1 } : TcpBulk).Ok :=
        ok.setConn rfl rfl hrec (fun he => hcomp ▸ he) hh
      split
      · rename_i hf
        exact hset.fail (hfailed hf) now
      · exact hset
    · have hpump : Ok (if s.sendOffset.toNat < LWIP_UTK_TCPBULK_TOTAL_BYTES then
          s.pumpSend h o else s) := by
        split
        · exact ok.pumpSend h o
        · exact ok
      generalize (if s.sendOffset.toNat < LWIP_UTK_TCPBULK_TOTAL_BYTES then
          s.pumpSend h o else s) = s1 at hpump ⊢
      split
      · exact hpump.fail htimeout now
      · exact hpump

theorem Ok.pollTimed (ok : s.Ok) (hopen : s.conn.complete = false) (h : Nat) (now : UW)
    (o : TcpBulkAnswers) : (s.pollTimed h now o).Ok := by
  have htimeout : ERR_TIMEOUT ≠ ERR_OK := by decide
  unfold TcpBulk.pollTimed
  split
  · exact ok.fail htimeout now
  · split
    · split
      · have hset : ({ s with
            conn := { s.conn with connectResult := ERR_TIMEOUT } } : TcpBulk).Ok :=
          ok.ofAccount rfl rfl rfl
        exact hset.fail htimeout now
      · exact ok
    · exact ok.pollConnected hopen h now o

theorem Ok.pollSession (ok : s.Ok) (hopen : s.conn.complete = false) (h : Nat) (now : UW)
    (o : TcpBulkAnswers) : (s.pollSession h now o).Ok := by
  unfold TcpBulk.pollSession
  by_cases hstarted : s.conn.started
  · simp only [if_pos hstarted]
    refine Ok.pollTimed ?_ ?_ h now o
    · exact ok.ofAccount rfl rfl rfl
    · exact hopen
  · simp only [if_neg hstarted]
    refine Ok.pollTimed ?_ ?_ h now o
    · exact ok.ofAccount rfl rfl rfl
    · exact hopen

theorem Ok.pollOpen (ok : s.Ok) (netif : Option Netif) (now : UW) (o : TcpBulkAnswers) :
    (s.pollOpen netif now o).Ok := by
  unfold TcpBulk.pollOpen
  split
  · exact ok
  · rename_i h _
    split
    · exact ok
    · rename_i hgo
      have hopen : s.conn.complete = false := Bool.eq_false_iff.2 fun he => hgo (Or.inl he)
      exact ok.pollSession hopen h now o

theorem Ok.poll (ok : s.Ok) (netif : Option Netif) (now : UW) (o : TcpBulkAnswers) :
    (s.poll c netif now o).Ok := by
  unfold TcpBulk.poll
  dsimp only
  split
  · split
    · exact ok.ofAccount rfl rfl (s.conn.releasePcb_account o.toTcpAnswers)
    · exact ok
  · split
    · exact ok.pollOpen netif now o
    · obtain ⟨hh, hrec, hcomp⟩ := ok.honest.initSession (c := c) netif o.toTcpAnswers
      refine Ok.pollOpen ?_ netif now o
      exact ok.setConn rfl rfl hrec hcomp hh

theorem reachable_ok (h : (tcpBulkSys c).Reachable s) : s.Ok := by
  refine h.invariant Ok (fun s hi => ?_) fun s e t ok _ hs => ?_
  · have hrecv : s.conn.received = [] := hi.conn.received
    refine ⟨fun _ => hi.mismatches, ?_, fun _ => ?_, hi.conn.honest⟩
    · rw [hi.recvOffset, hrecv]
      rfl
    · rw [hrecv]
      rfl
  · cases e with
    | poll netif now o =>
      obtain ⟨-, hs⟩ := Option.ite_none_right_eq_some.1 hs
      cases hs
      exact ok.poll netif now o
    | callback h now cb =>
      obtain ⟨hm, hs⟩ := Option.ite_none_right_eq_some.1 hs
      cases hs
      exact ok.callback hm now

end TcpBulk

/-! ## Both sessions -/

/-- From any state of a run, two ways of cutting a stream lead to the same records and verdict,
and to the same mismatch; and `ERR_OK` says that the stream was as expected. -/
theorem segmentation_independent (c : TcpPeer) :
    (∀ s : TcpEcho, (tcpEchoSys c).Reachable s → ∀ h segs segs', stream segs = stream segs' →
      (s.deliver h segs).recordsMatched = (s.deliver h segs').recordsMatched ∧
        (s.deliver h segs).conn.complete = (s.deliver h segs').conn.complete ∧
        (s.deliver h segs).conn.result = (s.deliver h segs').conn.result) ∧
    (∀ s : TcpBulk, (tcpBulkSys c).Reachable s → ∀ h segs segs', stream segs = stream segs' →
      (s.deliver h segs).firstMismatch = (s.deliver h segs').firstMismatch ∧
        (s.deliver h segs).conn.complete = (s.deliver h segs').conn.complete ∧
        (s.deliver h segs).conn.result = (s.deliver h segs').conn.result) ∧
    (∀ s : TcpEcho, (tcpEchoSys c).Reachable s → s.conn.complete = true →
      s.conn.result = ERR_OK → s.conn.Shut TcpEcho.expected) ∧
    ∀ s : TcpBulk, (tcpBulkSys c).Reachable s → s.conn.complete = true →
      s.conn.result = ERR_OK → s.conn.Shut TcpBulk.expected := by
  refine ⟨fun s hs h segs segs' hsame => ?_, fun s hs h segs segs' hsame => ?_,
    fun s hs => (TcpEcho.reachable_ok hs).2.ok, fun s hs => (TcpBulk.reachable_ok hs).honest.ok⟩
  · have hfill := (TcpEcho.reachable_ok hs).1.fill
    have hcore : (s.deliver h segs).core = (s.deliver h segs').core := by
      rw [TcpEcho.deliver_core h segs hfill, TcpEcho.deliver_core h segs' hfill, hsame]
    exact ⟨congrArg EchoCore.recordsMatched hcore, congrArg EchoCore.complete hcore,
      congrArg EchoCore.result hcore⟩
  · have hn := (TcpBulk.reachable_ok hs).noticed
    have first := TcpBulk.deliver_receives h segs hn
    have second := TcpBulk.deliver_receives h segs' hn
    rw [← hsame] at second
    have hcore : (s.deliver h segs).core = (s.deliver h segs').core :=
      first.core.trans second.core.symm
    exact ⟨congrArg BulkCore.firstMismatch hcore, first.complete.trans second.complete.symm,
      first.result.trans second.result.symm⟩

def Conn.atReset : Conn where
  initResult := ERR_VAL
  connectResult := ERR_VAL
  sendResult := ERR_VAL
  closeResult := ERR_VAL
  result := ERR_TIMEOUT
  fatalError := ERR_OK
  initialized := false
  started := false
  connected := false
  complete := false
  finSent := false
  peerFin := false
  closed := false
  aborted := false
  bytesSent := 0
  bytesAcked := 0
  bytesReceived := 0
  segmentsReceived := 0
  connectMs := 0
  closeMs := 0
  elapsedMs := 0
  pcb := none
  target := 0
  startedMs := 0
  connectStartedMs := 0
  closeStartedMs := 0
  lwip := .empty
  attached := none
  received := []
  atShutdown := none

def TcpEcho.atReset : TcpEcho where
  conn := .atReset
  recordsSent := 0
  recordsMatched := 0
  shortSegments := 0
  corrupt := 0
  sendErrors := 0
  pollCalls := 0
  guardBlocked := 0
  startDelayMs := 0
  record := 0
  awaitingEcho := false
  rxFill := 0
  rxBuffer := fun _ => 0
  lastSendMs := 0

theorem TcpEcho.atReset_init : TcpEcho.atReset.Init :=
  ⟨⟨rfl, rfl, rfl, rfl, rfl, rfl, rfl, rfl, rfl, rfl⟩, rfl, rfl, rfl, rfl⟩

theorem length_makeRecord (value : UH) : (makeRecord value).length = LWIP_UTK_TCP_RECORD_SIZE :=
  length_message (by decide)

/-- The echo of the first record, in one segment and cut inside. -/
theorem segmentation_independent_cut : ∃ s : TcpEcho, (tcpEchoSys (some 9)).Reachable s ∧
    ∃ whole first second : Pbuf, whole.payload = first.payload ++ second.payload ∧
      first.payload.length = 13 ∧ (s.deliver 1 [(whole, 30)]).recordsMatched = 1 ∧
      (s.deliver 1 [(first, 30), (second, 31)]).recordsMatched = 1 := by
  let o : TcpEchoAnswers := ⟨⟨some 1, 0, ERR_OK, ERR_OK, ERR_OK⟩, ERR_OK, ERR_OK⟩
  let o' : TcpEchoAnswers := ⟨⟨none, 0, ERR_OK, ERR_OK, ERR_OK⟩, ERR_OK, ERR_OK⟩
  let netif : Option Netif := some ⟨true, true, 5⟩
  let whole : Pbuf := ⟨makeRecord 0, by rw [length_makeRecord]; decide⟩
  let first : Pbuf :=
    ⟨(makeRecord 0).take 13, by rw [List.length_take, length_makeRecord]; decide⟩
  let second : Pbuf :=
    ⟨(makeRecord 0).drop 13, by rw [List.length_drop, length_makeRecord]; decide⟩
  obtain ⟨s, hs, hp⟩ := @Lts.reachable_of_trace _ _ (tcpEchoSys (some 9))
    (fun s => (s.deliver 1 [(whole, 30)]).recordsMatched == 1) TcpEcho.atReset
    [.poll netif 10 o, .callback 1 20 (.connected ERR_OK), .poll netif 25 o']
    TcpEcho.atReset_init (by decide +kernel)
  have hone : (s.deliver 1 [(whole, 30)]).recordsMatched = 1 := by simpa using hp
  have hcut : whole.payload = first.payload ++ second.payload :=
    (List.take_append_drop 13 (makeRecord 0)).symm
  have hstream : stream [(whole, (30 : UW))] = stream [(first, 30), (second, 31)] := by
    simpa [stream] using hcut
  refine ⟨s, hs, whole, first, second, hcut, ?_, hone, ?_⟩
  · show ((makeRecord 0).take 13).length = 13
    rw [List.length_take, length_makeRecord]
    rfl
  · rw [← ((segmentation_independent (some 9)).1 s hs 1 _ _ hstream).1]
    exact hone

end Net

end Mtk3Smp
