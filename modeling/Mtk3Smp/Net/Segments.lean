import Mtk3Smp.Net.TcpBulk
import Mtk3Smp.Net.TcpEcho

/-!
# Segments do not matter

The receive callbacks of both TCP sessions do what they would do if every byte came alone.
What they make of a stream does not depend on how it is cut, and a session ends well only if
the stream received up to the shutdown starts with what was expected.
-/

namespace Mtk3Smp

namespace Net

/-- The payloads of the segments, one after the other. -/
def stream (segs : List (Pbuf × UW)) : List UB := segs.flatMap fun seg => seg.1.payload

/-! ## Records, byte after byte -/

/-- What the record echo session makes of the bytes it receives. -/
structure EchoCore where
  recordsMatched : UW
  record : UH
  awaitingEcho : Bool
  rxFill : Nat
  rxBuffer : Nat → UB
  corrupt : UW
  complete : Bool
  result : Err

namespace EchoCore

/-- The end of a session that has received something wrong. -/
def fail (k : EchoCore) : EchoCore :=
  { k with
    corrupt := k.corrupt + 1, complete := true, result := ERR_VAL, awaitingEcho := false }

/-- A full buffer. -/
def close (k : EchoCore) : EchoCore :=
  let k := { k with rxFill := 0 }
  if !k.awaitingEcho then k.fail
  else if Cyclic.slice k.rxBuffer 0 LWIP_UTK_TCP_RECORD_SIZE ≠ makeRecord k.record then k.fail
  else
    { k with
      recordsMatched := k.recordsMatched + 1, record := k.record + 1, awaitingEcho := false }

/-- One byte. -/
def take (k : EchoCore) (x : UB) : EchoCore :=
  if k.complete then k
  else
    let k := { k with
      rxBuffer := Function.update k.rxBuffer k.rxFill x, rxFill := k.rxFill + 1 }
    if k.rxFill < LWIP_UTK_TCP_RECORD_SIZE then k else k.close

variable {k : EchoCore}

theorem foldl_complete (hc : k.complete = true) (xs : List UB) : xs.foldl take k = k := by
  induction xs with
  | nil => rfl
  | cons x xs ih =>
    rw [List.foldl_cons, take, if_pos hc]
    exact ih

/-- Bytes that do not fill the buffer. -/
theorem foldl_fill (hopen : k.complete = false) (xs : List UB)
    (hlt : k.rxFill + xs.length < LWIP_UTK_TCP_RECORD_SIZE) :
    xs.foldl take k =
      { k with
        rxBuffer := Cyclic.put k.rxBuffer k.rxFill xs, rxFill := k.rxFill + xs.length } := by
  induction xs using List.reverseRecOn with
  | nil =>
    rw [List.foldl_nil, Cyclic.put_nil]
    rfl
  | append_singleton xs x ih =>
    rw [List.length_append, List.length_singleton] at hlt
    rw [List.foldl_append, ih (by omega), List.foldl_cons, List.foldl_nil, take,
      if_neg (by rw [hopen]; exact Bool.false_ne_true)]
    dsimp only
    rw [if_pos (by omega), ← Cyclic.put_concat, List.length_append, List.length_singleton,
      Nat.add_assoc]

/-- Bytes that fill the buffer. -/
theorem foldl_full (hopen : k.complete = false) (xs : List UB) (hne : xs ≠ [])
    (heq : k.rxFill + xs.length = LWIP_UTK_TCP_RECORD_SIZE) :
    xs.foldl take k =
      close { k with
        rxBuffer := Cyclic.put k.rxBuffer k.rxFill xs, rxFill := LWIP_UTK_TCP_RECORD_SIZE } := by
  obtain ⟨ys, x, rfl⟩ : ∃ ys x, xs = ys ++ [x] :=
    ⟨xs.dropLast, xs.getLast hne, (List.dropLast_append_getLast hne).symm⟩
  rw [List.length_append, List.length_singleton] at heq
  rw [List.foldl_append, foldl_fill hopen ys (by omega), List.foldl_cons, List.foldl_nil, take,
    if_neg (by rw [hopen]; exact Bool.false_ne_true)]
  dsimp only
  rw [if_neg (by omega), ← Cyclic.put_concat]
  congr 2

end EchoCore

namespace TcpEcho

def core (s : TcpEcho) : EchoCore where
  recordsMatched := s.recordsMatched
  record := s.record
  awaitingEcho := s.awaitingEcho
  rxFill := s.rxFill
  rxBuffer := s.rxBuffer
  corrupt := s.corrupt
  complete := s.conn.complete
  result := s.conn.result

variable {s : TcpEcho}

theorem takeRecord_core (s : TcpEcho) (now : UW) : (s.takeRecord now).core = s.core.close := by
  unfold takeRecord EchoCore.close
  dsimp only
  by_cases hawait : (!s.awaitingEcho) = true
  · rw [if_pos hawait]
    exact (if_pos hawait).symm
  · rw [if_neg hawait]
    refine Eq.trans ?_ (if_neg hawait).symm
    by_cases hdiff : s.rxRecord ≠ makeRecord s.record
    · exact (congrArg core (if_pos hdiff)).trans (if_pos hdiff).symm
    · exact (congrArg core (if_neg hdiff)).trans (if_neg hdiff).symm

/-- The loop is a walk through the bytes. -/
theorem recvLoop_core (p : Pbuf) (now : UW) (fuel offset : Nat)
    (hfill : s.rxFill < LWIP_UTK_TCP_RECORD_SIZE) (hfuel : p.totLen ≤ offset + fuel) :
    (recvLoop p now fuel offset s).core = (p.payload.drop offset).foldl EchoCore.take s.core ∧
      (recvLoop p now fuel offset s).rxFill < LWIP_UTK_TCP_RECORD_SIZE := by
  induction fuel generalizing offset s with
  | zero =>
    rw [recvLoop, List.drop_eq_nil_of_le (by unfold Pbuf.totLen at hfuel; omega)]
    exact ⟨rfl, hfill⟩
  | succ fuel ih =>
    rw [recvLoop]
    by_cases hgo : offset < p.totLen ∧ (!s.conn.complete) = true
    · obtain ⟨hlt, hopen⟩ := hgo
      have hopen' : s.conn.complete = false := by simpa using hopen
      obtain ⟨chunk, hchunk⟩ :
          ∃ n, n = min (LWIP_UTK_TCP_RECORD_SIZE - s.rxFill) (p.totLen - offset) := ⟨_, rfl⟩
      have hlen : (p.copyPartial chunk offset).length = chunk :=
        Pbuf.length_copyPartial (by omega)
      rw [if_pos ⟨hlt, hopen⟩]
      dsimp only
      rw [← hchunk, if_neg (not_not_intro hlen), p.copyPartial_append chunk offset,
        List.foldl_append]
      by_cases hmore : s.rxFill + chunk < LWIP_UTK_TCP_RECORD_SIZE
      · -- the segment ends inside the record
        have hrest : p.payload.drop (offset + chunk) = [] :=
          List.drop_eq_nil_of_le (by unfold Pbuf.totLen at hlt hchunk; omega)
        rw [if_pos hmore, hrest, List.foldl_nil, EchoCore.foldl_fill hopen' _ (by
          rw [hlen]
          exact hmore), hlen]
        exact ⟨rfl, hmore⟩
      · have hfull : s.rxFill + chunk = LWIP_UTK_TCP_RECORD_SIZE := by omega
        have hne : p.copyPartial chunk offset ≠ [] := by
          intro hnil
          rw [hnil, List.length_nil] at hlen
          omega
        rw [if_neg hmore, EchoCore.foldl_full hopen' _ hne (by rw [hlen]; exact hfull)]
        have hnext := ih (offset + chunk)
          (s := { s with
            rxBuffer := Cyclic.put s.rxBuffer s.rxFill (p.copyPartial chunk offset)
            rxFill := s.rxFill + chunk }.takeRecord now) ?_ (by omega)
        · rw [takeRecord_core, hfull] at hnext
          rw [hfull]
          exact hnext
        · unfold takeRecord
          dsimp only
          split
          · exact Nat.zero_lt_succ _
          · split <;> exact Nat.zero_lt_succ _
    · rw [if_neg hgo]
      refine ⟨?_, hfill⟩
      by_cases hlt : offset < p.totLen
      · have hc : s.core.complete = true := by
          by_contra hne
          refine hgo ⟨hlt, ?_⟩
          have hf : s.conn.complete = false := Bool.eq_false_iff.2 hne
          rw [hf]
          rfl
        rw [EchoCore.foldl_complete hc]
      · rw [List.drop_eq_nil_of_le (by unfold Pbuf.totLen at hlt; omega)]
        rfl

/-- Segments in a row, with no poll in between. -/
def deliver (h : Nat) (segs : List (Pbuf × UW)) (s : TcpEcho) : TcpEcho :=
  segs.foldl (fun s seg => s.tcpEchoRecv h (some seg.1) ERR_OK seg.2) s

theorem tcpEchoRecv_core (h : Nat) (p : Pbuf) (now : UW)
    (hfill : s.rxFill < LWIP_UTK_TCP_RECORD_SIZE) :
    (s.tcpEchoRecv h (some p) ERR_OK now).core = p.payload.foldl EchoCore.take s.core ∧
      (s.tcpEchoRecv h (some p) ERR_OK now).rxFill < LWIP_UTK_TCP_RECORD_SIZE :=
  recvLoop_core (s := s.segment h p) p now p.totLen 0 hfill (by omega)

theorem deliver_core (h : Nat) (segs : List (Pbuf × UW))
    (hfill : s.rxFill < LWIP_UTK_TCP_RECORD_SIZE) :
    (s.deliver h segs).core = (stream segs).foldl EchoCore.take s.core := by
  induction segs generalizing s with
  | nil => rfl
  | cons seg segs ih =>
    obtain ⟨hcore, hfill'⟩ := tcpEchoRecv_core h seg.1 seg.2 hfill
    have hstream : stream (seg :: segs) = seg.1.payload ++ stream segs := rfl
    rw [hstream, List.foldl_append, ← hcore]
    exact ih hfill'

end TcpEcho

/-! ## The stream of the bulk session, byte after byte -/

/-- What the bulk session makes of the bytes it receives. -/
structure BulkCore where
  mismatches : UW
  firstMismatch : UW
  recvOffset : UW

namespace BulkCore

def take (k : BulkCore) (x : UB) : BulkCore :=
  if x ≠ streamByte k.recvOffset then
    { mismatches := k.mismatches + 1
      firstMismatch := if k.mismatches = 0 then k.recvOffset else k.firstMismatch
      recvOffset := k.recvOffset + 1 }
  else { k with recvOffset := k.recvOffset + 1 }

/-- The number of bytes that differ from those of the stream. -/
def wrong : List UB → UW → Nat
  | [], _ => 0
  | x :: rest, offset => (if x ≠ streamByte offset then 1 else 0) + wrong rest (offset + 1)

variable {k : BulkCore}

theorem offset_succ (offset : UW) (n : Nat) :
    offset + 1 + BitVec.ofNat 32 n = offset + BitVec.ofNat 32 (n + 1) := by
  rw [BitVec.ofNat_add, BitVec.add_assoc]
  congr 1
  exact BitVec.add_comm 1 _

theorem wrong_le (xs : List UB) (offset : UW) : wrong xs offset ≤ xs.length := by
  induction xs generalizing offset with
  | nil => exact Nat.le_refl 0
  | cons x xs ih =>
    have hrest := ih (offset + 1)
    rw [wrong, List.length_cons]
    split <;> omega

theorem wrong_append (xs ys : List UB) (offset : UW) :
    wrong (xs ++ ys) offset = wrong xs offset + wrong ys (offset + BitVec.ofNat 32 xs.length) := by
  induction xs generalizing offset with
  | nil => simp [wrong]
  | cons x xs ih =>
    rw [List.cons_append, wrong, wrong, ih, offset_succ, List.length_cons, Nat.add_assoc]

theorem foldl_take (xs : List UB) :
    (xs.foldl take k).recvOffset = k.recvOffset + BitVec.ofNat 32 xs.length ∧
      (xs.foldl take k).mismatches = k.mismatches + BitVec.ofNat 32 (wrong xs k.recvOffset) := by
  induction xs generalizing k with
  | nil =>
    refine ⟨?_, ?_⟩
    · exact (BitVec.add_zero _).symm
    · exact (BitVec.add_zero _).symm
  | cons x xs ih =>
    obtain ⟨hoff, hmis⟩ := ih (k := k.take x)
    rw [List.foldl_cons, hoff, hmis, wrong, List.length_cons]
    have hnext : (k.take x).recvOffset = k.recvOffset + 1 := by
      unfold take
      split <;> rfl
    rw [hnext]
    refine ⟨offset_succ _ _, ?_⟩
    unfold take
    split
    · rw [BitVec.ofNat_add, ← BitVec.add_assoc]
      rfl
    · rw [Nat.zero_add]

end BulkCore

namespace TcpBulk

def core (s : TcpBulk) : BulkCore where
  mismatches := s.mismatches
  firstMismatch := s.firstMismatch
  recvOffset := s.recvOffset

variable {s : TcpBulk}

/-- The comparison of a chunk. -/
theorem foldl_compareBytes (bytes : List UB) (offset : UW) (s : TcpBulk) :
    bytes.foldl BulkCore.take ⟨s.mismatches, s.firstMismatch, offset⟩ =
      ⟨(compareBytes bytes offset s).mismatches, (compareBytes bytes offset s).firstMismatch,
        offset + BitVec.ofNat 32 bytes.length⟩ := by
  induction bytes generalizing offset s with
  | nil =>
    rw [List.foldl_nil, compareBytes, List.length_nil]
    congr 1
    exact (BitVec.add_zero _).symm
  | cons x rest ih =>
    rw [List.foldl_cons, compareBytes, List.length_cons, ← BulkCore.offset_succ, ← ih]
    congr 1
    unfold BulkCore.take
    dsimp only
    split <;> rfl

/-- The loop is a walk through the bytes. -/
theorem recvLoop_core (p : Pbuf) (now : UW) (fuel offset : Nat)
    (hfuel : p.totLen ≤ offset + fuel) :
    (recvLoop p now fuel offset s).core =
      (p.payload.drop offset).foldl BulkCore.take s.core := by
  induction fuel generalizing offset s with
  | zero =>
    rw [recvLoop, List.drop_eq_nil_of_le (by unfold Pbuf.totLen at hfuel; omega)]
    rfl
  | succ fuel ih =>
    rw [recvLoop]
    by_cases hlt : offset < p.totLen
    · obtain ⟨chunk, hchunk⟩ : ∃ n, n = min UTK_BULK_CHUNK (p.totLen - offset) := ⟨_, rfl⟩
      have hlen : (p.copyPartial chunk offset).length = chunk :=
        Pbuf.length_copyPartial (by omega)
      have hoff := (compareBytes_rest (s := s) (p.copyPartial chunk offset) s.recvOffset).2
      rw [if_pos hlt]
      dsimp only
      rw [← hchunk, if_neg (not_not_intro hlen),
        ih (offset + chunk) (by simp only [UTK_BULK_CHUNK] at hchunk; omega),
        p.copyPartial_append chunk offset, List.foldl_append]
      congr 1
      show BulkCore.mk _ _ _ = List.foldl BulkCore.take
        ⟨s.mismatches, s.firstMismatch, s.recvOffset⟩ (p.copyPartial chunk offset)
      rw [foldl_compareBytes, hoff, hlen]
    · rw [if_neg hlt, List.drop_eq_nil_of_le (by unfold Pbuf.totLen at hlt; omega)]
      rfl

/-- Segments in a row, with no poll in between. -/
def deliver (h : Nat) (segs : List (Pbuf × UW)) (s : TcpBulk) : TcpBulk :=
  segs.foldl (fun s seg => s.bulkRecv h (some seg.1) ERR_OK seg.2) s

/-- A mismatch has ended the session. -/
def Noticed (s : TcpBulk) : Prop := s.conn.complete = false → s.mismatches = 0

/-- What a stream makes of a session: a wrong byte ends it. -/
structure Receives (s s' : TcpBulk) (xs : List UB) : Prop where
  core : s'.core = xs.foldl BulkCore.take s.core
  complete : s'.conn.complete = (s.conn.complete || BulkCore.wrong xs s.recvOffset != 0)
  result : s'.conn.result = if s.conn.complete = false ∧ BulkCore.wrong xs s.recvOffset ≠ 0
    then ERR_VAL else s.conn.result
  noticed : s'.Noticed

theorem bulkRecv_receives (h : Nat) (p : Pbuf) (now : UW) (hn : s.Noticed) :
    Receives s (s.bulkRecv h (some p) ERR_OK now) p.payload := by
  obtain ⟨s1, hs1⟩ : ∃ s1, s1 = recvLoop p now p.totLen 0 (s.segment h p now) := ⟨_, rfl⟩
  obtain ⟨n, hwrong⟩ : ∃ n, n = BulkCore.wrong p.payload s.recvOffset := ⟨_, rfl⟩
  have hcore : s1.core = p.payload.foldl BulkCore.take s.core := by
    rw [hs1, recvLoop_core p now p.totLen 0 (by omega), List.drop_zero]
    rfl
  have hconn : s1.conn = s.conn.segment h p := by
    rw [hs1, recvLoop_conn]
    rfl
  have hmis : s1.mismatches = s.mismatches + BitVec.ofNat 32 n := by
    have hm := (BulkCore.foldl_take (k := s.core) p.payload).2
    rw [← hcore] at hm
    rw [hwrong]
    exact hm
  have hbound : n < 2 ^ 32 := by
    have hle := BulkCore.wrong_le p.payload s.recvOffset
    have hfits := p.fits
    omega
  have heq : s.bulkRecv h (some p) ERR_OK now =
      if s1.mismatches ≠ 0 ∧ (!s1.conn.complete) = true then s1.finish ERR_VAL now else s1 := by
    rw [hs1]
    rfl
  have hc1 : s1.conn.complete = s.conn.complete := by
    rw [hconn]
    rfl
  have hr1 : s1.conn.result = s.conn.result := by
    rw [hconn]
    rfl
  by_cases hc : s.conn.complete = true
  · have hstay : ¬(s1.mismatches ≠ 0 ∧ (!s1.conn.complete) = true) := by
      rw [hc1, hc]
      exact fun h => Bool.false_ne_true h.2
    rw [heq, if_neg hstay]
    refine ⟨hcore, ?_, ?_, fun hopen => ?_⟩
    · rw [hc1, hc, Bool.true_or]
    · rw [hr1, if_neg]
      rw [hc]
      exact fun h => Bool.false_ne_true h.1.symm
    · rw [hc1, hc] at hopen
      cases hopen
  · have hopen : s.conn.complete = false := Bool.eq_false_iff.2 hc
    have hzero0 := BitVec.zero_add (BitVec.ofNat 32 n)
    rw [hn hopen] at hmis
    replace hmis := hmis.trans hzero0
    by_cases hclean : n = 0
    · have hzero : s1.mismatches = 0 := by
        rw [hmis, hclean]
        rfl
      have hstay : ¬(s1.mismatches ≠ 0 ∧ (!s1.conn.complete) = true) := fun h => h.1 hzero
      rw [heq, if_neg hstay]
      refine ⟨hcore, ?_, ?_, fun _ => hzero⟩
      · rw [hc1, hopen, ← hwrong, hclean]
        rfl
      · rw [hr1, ← hwrong, if_neg]
        exact fun h => h.2 hclean
    · have hbad : s1.mismatches ≠ 0 ∧ (!s1.conn.complete) = true := by
        refine ⟨fun hz => hclean ?_, ?_⟩
        · have htoNat := congrArg BitVec.toNat hz
          rw [hmis, BitVec.toNat_ofNat, Nat.mod_eq_of_lt hbound] at htoNat
          exact htoNat
        · rw [hc1, hopen]
          rfl
      rw [heq, if_pos hbad]
      have hfin := finish_conn (s := s1) ERR_VAL now
      refine ⟨?_, ?_, ?_, fun h => ?_⟩
      · rw [← hcore]
        unfold core finish
        dsimp only
        split <;> rfl
      · rw [hfin, ← hwrong, hopen, Bool.false_or]
        exact (bne_iff_ne.2 hclean).symm
      · rw [hfin, ← hwrong, if_pos ⟨hopen, hclean⟩]
        rfl
      · rw [hfin] at h
        cases h

theorem Receives.trans {s1 s2 : TcpBulk} {xs ys : List UB} (first : Receives s s1 xs)
    (second : Receives s1 s2 ys) : Receives s s2 (xs ++ ys) := by
  have hoff : s1.recvOffset = s.recvOffset + BitVec.ofNat 32 xs.length := by
    have ho := (BulkCore.foldl_take (k := s.core) xs).1
    rw [← first.core] at ho
    exact ho
  obtain ⟨m, hm⟩ : ∃ m, m = BulkCore.wrong xs s.recvOffset := ⟨_, rfl⟩
  obtain ⟨n, hn⟩ : ∃ n, n = BulkCore.wrong ys s1.recvOffset := ⟨_, rfl⟩
  have hsum : BulkCore.wrong (xs ++ ys) s.recvOffset = m + n := by
    rw [BulkCore.wrong_append, ← hoff, hm, hn]
  have hc1 := first.complete
  have hr1 := first.result
  have hc2 := second.complete
  have hr2 := second.result
  rw [← hm] at hc1 hr1
  rw [← hn] at hc2 hr2
  refine ⟨?_, ?_, ?_, second.noticed⟩
  · rw [second.core, first.core, List.foldl_append]
  · rw [hsum, hc2, hc1]
    cases s.conn.complete with
    | true => simp
    | false =>
      by_cases hm0 : m = 0
      · simp [hm0]
      · have hm1 : (m != 0) = true := bne_iff_ne.2 hm0
        have hmn : (m + n != 0) = true := bne_iff_ne.2 (by omega)
        rw [hm1, hmn]
        rfl
  · rw [hsum, hr2, hc1, hr1]
    cases s.conn.complete with
    | true => simp
    | false =>
      by_cases hm0 : m = 0
      · simp [hm0]
      · simp [hm0]

theorem deliver_receives (h : Nat) (segs : List (Pbuf × UW)) (hn : s.Noticed) :
    Receives s (s.deliver h segs) (stream segs) := by
  induction segs generalizing s with
  | nil =>
    refine ⟨rfl, ?_, ?_, hn⟩
    · exact (Bool.or_false _).symm
    · rw [if_neg]
      · rfl
      · exact fun h => h.2 rfl
  | cons seg segs ih =>
    have first := bulkRecv_receives h seg.1 seg.2 hn
    exact first.trans (ih first.noticed)

end TcpBulk

end Net

end Mtk3Smp
