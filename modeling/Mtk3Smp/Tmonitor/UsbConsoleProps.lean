import Mtk3Smp.Tmonitor.UsbConsole

/-!
# What the USB console delivers

The bytes handed to the CDC layer, those in the hands of the service task and those in the
ring are the accepted bytes in the order of the calls. A call that meets a full ring finds it
full for the rest of its bytes, since it holds the lock, so what it gets accepted is the start
of its bytes.
-/

namespace Mtk3Smp

namespace UsbConsole

/-! ## The ring -/

theorem toNat_and_mask (x : UW) : (x &&& USB_TX_MASK).toNat = x.toNat % USB_TX_SIZE := by
  rw [BitVec.toNat_and]
  exact Nat.and_two_pow_sub_one_eq_mod x.toNat 12

namespace Ring

variable {r : Ring} {x : UB}

/-- The indices are inside the buffer. -/
structure Bounded (r : Ring) : Prop where
  head : r.txHead.toNat < USB_TX_SIZE
  tail : r.txTail.toNat < USB_TX_SIZE

theorem toNat_next (i : UW) :
    ((i + 1) &&& USB_TX_MASK).toNat = (i.toNat + 1) % USB_TX_SIZE := by
  rw [toNat_and_mask, BitVec.toNat_add]
  have hone : (1 : UW).toNat = 1 := rfl
  rw [hone]
  simp only [USB_TX_SIZE]
  omega

theorem Bounded.toNat_pending (h : r.Bounded) :
    r.pending.toNat = (r.txHead.toNat + USB_TX_SIZE - r.txTail.toNat) % USB_TX_SIZE := by
  have hhead := h.head
  have htail := h.tail
  unfold pending
  rw [toNat_and_mask, BitVec.toNat_sub]
  simp only [USB_TX_SIZE] at hhead htail ⊢
  omega

theorem Bounded.pending_lt (h : r.Bounded) : r.pending.toNat < USB_TX_SIZE := by
  rw [h.toNat_pending]
  exact Nat.mod_lt _ (by decide)

theorem Bounded.tail_add_pending (h : r.Bounded) :
    (r.txTail.toNat + r.pending.toNat) % USB_TX_SIZE = r.txHead.toNat := by
  have hhead := h.head
  have htail := h.tail
  rw [h.toNat_pending]
  simp only [USB_TX_SIZE] at hhead htail ⊢
  omega

theorem isFull_iff :
    r.isFull ↔ (r.txHead.toNat + 1) % USB_TX_SIZE = r.txTail.toNat := by
  unfold isFull
  rw [← toNat_next, BitVec.toNat_inj]

theorem Bounded.empty (h : r.Bounded) (he : r.txTail = r.txHead) : r.queued = [] := by
  have hzero : r.pending.toNat = 0 := by
    have htail := h.tail
    rw [h.toNat_pending, ← he]
    simp only [USB_TX_SIZE] at htail ⊢
    omega
  rw [queued, hzero, Cyclic.read_zero]

/-- A byte goes to the end of the ring. -/
theorem Bounded.append (h : r.Bounded) (hroom : ¬r.isFull) :
    (r.append x).Bounded ∧ (r.append x).queued = r.queued ++ [x] := by
  have hhead := h.head
  have htail := h.tail
  have hnext := toNat_next r.txHead
  have hb : (r.append x).Bounded := by
    refine ⟨?_, htail⟩
    show ((r.txHead + 1) &&& USB_TX_MASK).toNat < USB_TX_SIZE
    rw [hnext]
    exact Nat.mod_lt _ (by decide)
  have hcount : (r.append x).pending.toNat = r.pending.toNat + 1 := by
    have hne : (r.txHead.toNat + 1) % USB_TX_SIZE ≠ r.txTail.toNat := fun he =>
      hroom (isFull_iff.2 he)
    have hap : (r.append x).txHead.toNat = (r.txHead.toNat + 1) % USB_TX_SIZE := hnext
    have hat : (r.append x).txTail = r.txTail := rfl
    rw [hb.toNat_pending, h.toNat_pending, hap, hat]
    simp only [USB_TX_SIZE] at hhead htail hne ⊢
    omega
  refine ⟨hb, ?_⟩
  rw [queued, hcount]
  show Cyclic.read USB_TX_SIZE (Function.update r.txBuffer r.txHead.toNat x) r.txTail.toNat
    (r.pending.toNat + 1) = _
  rw [Cyclic.read_concat htail h.pending_lt, h.tail_add_pending, Function.update_self]
  conv_lhs => rw [← h.tail_add_pending]
  rw [Cyclic.read_update htail h.pending_lt]
  rfl

/-- The oldest byte leaves the ring. -/
theorem Bounded.advance (h : r.Bounded) (hne : r.txTail ≠ r.txHead) :
    r.advance.Bounded ∧ r.queued = r.first :: r.advance.queued := by
  have hhead := h.head
  have htail := h.tail
  have hnext := toNat_next r.txTail
  have hb : r.advance.Bounded := by
    refine ⟨hhead, ?_⟩
    show ((r.txTail + 1) &&& USB_TX_MASK).toNat < USB_TX_SIZE
    rw [hnext]
    exact Nat.mod_lt _ (by decide)
  have hcount : r.pending.toNat = r.advance.pending.toNat + 1 := by
    have hne' : r.txTail.toNat ≠ r.txHead.toNat := fun he => hne (BitVec.toNat_inj.1 he)
    have hat : r.advance.txTail.toNat = (r.txTail.toNat + 1) % USB_TX_SIZE := hnext
    have hah : r.advance.txHead = r.txHead := rfl
    rw [hb.toNat_pending, h.toNat_pending, hat, hah]
    simp only [USB_TX_SIZE] at hhead htail ⊢
    omega
  refine ⟨hb, ?_⟩
  have hlt := h.pending_lt
  rw [queued, hcount, Cyclic.read_cons htail (by omega), ← hnext]
  rfl

end Ring

/-! ## The calls -/

/-- The start of the bytes has been accepted, and the rest dropped. -/
def Split (bytes accepted : List UB) (dropped : Nat) : Prop :=
  accepted <+: bytes ∧ accepted.length + dropped = bytes.length

theorem Split.accept {bytes accepted : List UB} (h : Split bytes accepted 0) (x : UB) :
    Split (bytes ++ [x]) (accepted ++ [x]) 0 := by
  obtain ⟨hbytes, hlen⟩ := h
  obtain rfl := hbytes.eq_of_length hlen
  exact ⟨List.prefix_rfl, rfl⟩

theorem Split.drop {bytes accepted : List UB} {n : Nat} (h : Split bytes accepted n) (x : UB) :
    Split (bytes ++ [x]) accepted (n + 1) := by
  obtain ⟨hbytes, hlen⟩ := h
  refine ⟨hbytes.trans (List.prefix_append bytes [x]), ?_⟩
  rw [List.length_append, List.length_singleton]
  omega

namespace Put

/-- The bytes that the call has come to. -/
def seen (p : Put) : List UB := (List.range p.pos).map p.buf

structure Ok (p : Put) (r : Ring) : Prop where
  /-- the loop counts down from the size of the call -/
  total : p.pos + p.size.toNat = p.total.toNat
  split : Split p.seen p.accepted p.dropped
  full : 0 < p.dropped → r.isFull

theorem seen_next (p : Put) (m : Int) (accepted : List UB) (n : Nat) :
    seen ⟨p.buf, p.pos + 1, m, p.total, accepted, n⟩ = p.seen ++ [p.buf p.pos] := by
  unfold seen
  rw [List.range_succ, List.map_append]
  rfl

variable {p : Put} {r : Ring}

theorem Ok.dropNext (h : p.Ok r) (hsize : 0 < p.size) (hfull : r.isFull) :
    Ok { p with pos := p.pos + 1, size := p.size - 1, dropped := p.dropped + 1 } r := by
  refine ⟨?_, ?_, fun _ => hfull⟩
  · have htotal := h.total
    show p.pos + 1 + (p.size - 1).toNat = p.total.toNat
    omega
  · rw [seen_next]
    exact h.split.drop _

theorem Ok.acceptNext {r' : Ring} (h : p.Ok r) (hsize : 0 < p.size) (hroom : ¬r.isFull) :
    Ok { p with
      pos := p.pos + 1, size := p.size - 1, accepted := p.accepted ++ [p.buf p.pos] } r' := by
  have hnone : p.dropped = 0 := by
    by_contra hne
    exact hroom (h.full (Nat.pos_of_ne_zero hne))
  refine ⟨?_, ?_, fun hlt => ?_⟩
  · have htotal := h.total
    show p.pos + 1 + (p.size - 1).toNat = p.total.toNat
    omega
  · have hsplit := h.split
    rw [hnone] at hsplit
    rw [seen_next]
    show Split _ _ p.dropped
    rw [hnone]
    exact hsplit.accept _
  · have hlt' : 0 < p.dropped := hlt
    omega

end Put

/-! ## The console -/

variable {s s' : Usb}

/-- What the service task may still hand over. -/
def Usb.ServiceOk (s : Usb) : Prop :=
  match s.service with
  | .outside => s.handed ≤ s.report
  | .test available => s.handed + available = s.report
  | .fill available chunk =>
    s.handed + available = s.report ∧ chunk.length ≤ available ∧ chunk.length ≤ USB_TX_CHUNK
  | .write available chunk i =>
    s.handed + available = s.report + i ∧ i ≤ chunk.length ∧ chunk.length ≤ available ∧
      chunk.length ≤ USB_TX_CHUNK

structure UsbOk (s : Usb) : Prop where
  ring : s.ring.Bounded
  kept : s.delivered ++ s.inHand ++ s.ring.queued = s.accepted
  calls : ∀ c ∈ s.calls, Split c.bytes c.accepted c.dropped
  put : ∀ p, s.put = some p → p.Ok s.ring
  /-- the lock has one holder -/
  alone : ∀ p, s.put = some p → ∀ available chunk, s.service ≠ .fill available chunk
  counted : s.tmUsbDropped = BitVec.ofNat 32 s.droppedBytes
  service : s.ServiceOk

theorem UsbOk.init (h : s.Init) : UsbOk s := by
  have hring : s.ring.Bounded := by
    refine ⟨?_, ?_⟩
    · rw [h.head]
      decide
    · rw [h.tail]
      decide
  refine ⟨hring, ?_, ?_, ?_, ?_, ?_, ?_⟩
  · have hhand : s.inHand = [] := by
      unfold Usb.inHand
      rw [h.service]
    have hacc : s.accepted = [] := by
      unfold Usb.accepted
      rw [h.calls, h.put]
      rfl
    rw [h.delivered, hhand, hring.empty (h.tail.trans h.head.symm), hacc]
    rfl
  · rw [h.calls]
    exact fun c hc => nomatch hc
  · rw [h.put]
    exact fun p hp => nomatch hp
  · rw [h.put]
    exact fun p hp => nomatch hp
  · unfold Usb.droppedBytes
    rw [h.dropped, h.calls, h.put]
    rfl
  · unfold Usb.ServiceOk
    rw [h.service, h.handed, h.report]

theorem Usb.not_isLocked (h : s.isLocked = false) :
    s.put = none ∧ ∀ available chunk, s.service ≠ .fill available chunk := by
  unfold Usb.isLocked at h
  split at h
  · cases h
  · rename_i hput hfill
    exact ⟨hput, fun a ch he => hfill a ch he⟩
  · cases h

/-- A call gets the lock. -/
theorem UsbOk.putStart (ok : UsbOk s) (hfree : s.isLocked = false) (buf : Nat → UB) (size : Int) :
    UsbOk { s with put := some ⟨buf, 0, size, size, [], 0⟩ } := by
  obtain ⟨hput, hfill⟩ := Usb.not_isLocked hfree
  refine ⟨ok.ring, ?_, ok.calls, fun p hp => ?_, fun _ _ => hfill, ?_, ok.service⟩
  · have hkept := ok.kept
    unfold Usb.accepted at hkept ⊢
    rw [hput] at hkept
    exact hkept
  · obtain rfl := Option.some.inj hp
    refine ⟨?_, ⟨List.prefix_rfl, rfl⟩, fun hlt => absurd hlt (Nat.lt_irrefl 0)⟩
    show 0 + size.toNat = size.toNat
    omega
  · have hcounted := ok.counted
    unfold Usb.droppedBytes at hcounted ⊢
    rw [hput] at hcounted
    exact hcounted

theorem UsbOk.putNext (ok : UsbOk s) {p : Put} (hp : s.put = some p) : UsbOk (s.putNext p) := by
  have hput := ok.put p hp
  have hkept := ok.kept
  have hcounted := ok.counted
  unfold Usb.accepted at hkept
  unfold Usb.droppedBytes at hcounted
  rw [hp] at hkept hcounted
  unfold Usb.putNext
  split
  · rename_i hsize
    split
    · rename_i hfull
      refine ⟨ok.ring, ?_, ok.calls, fun q hq => ?_, fun _ _ => ok.alone p hp, ?_, ok.service⟩
      · exact hkept
      · obtain rfl := Option.some.inj hq
        exact hput.dropNext hsize hfull
      · show s.tmUsbDropped + 1 = BitVec.ofNat 32 ((s.calls.map Done.dropped).sum + (p.dropped + 1))
        show _ = BitVec.ofNat 32 ((s.calls.map Done.dropped).sum + p.dropped + 1)
        rw [BitVec.ofNat_add, hcounted]
        rfl
    · rename_i hroom
      obtain ⟨hring, hqueued⟩ := ok.ring.append (x := p.buf p.pos) hroom
      refine ⟨hring, ?_, ok.calls, fun q hq => ?_, fun _ _ => ok.alone p hp, hcounted,
        ok.service⟩
      · show s.delivered ++ s.inHand ++ (s.ring.append (p.buf p.pos)).queued =
          s.calls.flatMap Done.accepted ++ (p.accepted ++ [p.buf p.pos])
        rw [hqueued, ← List.append_assoc, hkept, ← List.append_assoc]
        rfl
      · obtain rfl := Option.some.inj hq
        exact hput.acceptNext hsize hroom
  · rename_i hsize
    have hbytes : (List.range p.total.toNat).map p.buf = p.seen := by
      have htotal := hput.total
      unfold Put.seen
      rw [← htotal, show p.size.toNat = 0 by omega, Nat.add_zero]
    refine ⟨ok.ring, ?_, fun c hc => ?_, (fun q hq => nomatch hq),
      (fun q hq => nomatch hq), ?_, ok.service⟩
    · show s.delivered ++ s.inHand ++ s.ring.queued =
        (s.calls ++ [_]).flatMap Done.accepted ++ []
      rw [List.flatMap_append, List.append_nil, hkept]
      simp
    · rcases List.mem_append.1 hc with hc | hc
      · exact ok.calls c hc
      · obtain rfl := List.mem_singleton.1 hc
        show Split ((List.range p.total.toNat).map p.buf) p.accepted p.dropped
        rw [hbytes]
        exact hput.split
    · show s.tmUsbDropped = BitVec.ofNat 32 (((s.calls ++ [_]).map Done.dropped).sum + 0)
      rw [hcounted]
      simp

theorem UsbOk.serviceNext (ok : UsbOk s) (hs : s.serviceNext = some s') : UsbOk s' := by
  have hkept := ok.kept
  have hserv := ok.service
  unfold Usb.inHand at hkept
  unfold Usb.ServiceOk at hserv
  unfold Usb.serviceNext at hs
  split at hs
  · cases hs
  · rename_i available hc
    rw [hc] at hkept hserv
    dsimp only at hkept hserv
    split at hs
    · rename_i hpos
      split at hs
      · cases hs
      · rename_i hfree
        cases hs
        obtain ⟨hput, -⟩ := Usb.not_isLocked (Bool.eq_false_iff.2 hfree)
        refine ⟨ok.ring, hkept, ok.calls, ok.put, fun p hp => ?_, ok.counted,
          ⟨hserv, Nat.zero_le _, Nat.zero_le _⟩⟩
        rw [hput] at hp
        cases hp
    · rename_i hpos
      cases hs
      have hzero : available = 0 := by omega
      rw [hzero] at hserv
      exact ⟨ok.ring, hkept, ok.calls, ok.put, fun _ _ _ _ => nofun, ok.counted,
        Nat.le_of_eq hserv⟩
  · rename_i available chunk hc
    rw [hc] at hkept hserv
    dsimp only at hkept hserv
    obtain ⟨hreport, hroom, hchunk⟩ := hserv
    have hput : ∀ p, s.put ≠ some p := fun p hp => ok.alone p hp available chunk hc
    split at hs
    · rename_i hmore
      obtain ⟨hlt, hlta, hne⟩ := hmore
      cases hs
      obtain ⟨hring, hqueued⟩ := ok.ring.advance hne
      have hlen : (chunk ++ [s.ring.first]).length = chunk.length + 1 := by simp
      refine ⟨hring, ?_, ok.calls, fun p hp => absurd hp (hput p), fun p hp => absurd hp (hput p),
        ok.counted, ⟨hreport, by omega, by omega⟩⟩
      show s.delivered ++ (chunk ++ [s.ring.first]) ++ s.ring.advance.queued = s.accepted
      rw [← hkept, hqueued]
      simp
    · split at hs
      · rename_i hnil
        cases hs
        have hch : chunk = [] := List.length_eq_zero_iff.1 hnil
        rw [hch] at hkept
        refine ⟨ok.ring, hkept, ok.calls, ok.put, fun _ _ _ _ => nofun, ok.counted, ?_⟩
        show s.handed ≤ s.report
        omega
      · cases hs
        exact ⟨ok.ring, hkept, ok.calls, ok.put, fun _ _ _ _ => nofun, ok.counted,
          ⟨hreport, Nat.zero_le _, hroom, hchunk⟩⟩
  · rename_i available chunk i hc
    rw [hc] at hkept hserv
    dsimp only at hkept hserv
    obtain ⟨hreport, hi, hroom, hchunk⟩ := hserv
    split at hs
    · rename_i x hx
      cases hs
      obtain ⟨hlt, hx⟩ := List.getElem?_eq_some_iff.1 hx
      have hhanded : s.handed + 1 + available = s.report + (i + 1) := by omega
      refine ⟨ok.ring, ?_, ok.calls, ok.put, fun _ _ _ _ => nofun, ok.counted,
        ⟨hhanded, hlt, hroom, hchunk⟩⟩
      show s.delivered ++ [x] ++ chunk.drop (i + 1) ++ s.ring.queued = s.accepted
      rw [← hkept, List.append_assoc s.delivered, List.singleton_append, ← hx,
        ← List.drop_eq_getElem_cons hlt]
    · rename_i hx
      cases hs
      have hge : chunk.length ≤ i := List.getElem?_eq_none_iff.1 hx
      refine ⟨ok.ring, ?_, ok.calls, ok.put, fun _ _ _ _ => nofun, ok.counted, ?_⟩
      · show s.delivered ++ [] ++ s.ring.queued = s.accepted
        rw [← hkept, List.drop_eq_nil_of_le hge]
      · show s.handed + (available - chunk.length) = s.report
        omega

theorem UsbOk.step (ok : UsbOk s) {e : Event} (hs : s.step e = some s') : UsbOk s' := by
  cases e with
  | put buf size =>
    obtain ⟨hfree, hs⟩ := Option.ite_none_left_eq_some.1 hs
    cases hs
    exact ok.putStart (Bool.eq_false_iff.2 hfree) buf size
  | putNext =>
    obtain ⟨p, hp, rfl⟩ := Option.map_eq_some_iff.1 hs
    exact ok.putNext hp
  | drain available =>
    unfold Usb.step at hs
    dsimp only at hs
    split at hs
    · rename_i hc
      cases hs
      have hkept := ok.kept
      unfold Usb.inHand at hkept
      rw [hc] at hkept
      exact ⟨ok.ring, hkept, ok.calls, ok.put, fun _ _ _ _ => nofun, ok.counted,
        Nat.zero_add available⟩
    · cases hs
  | serviceNext => exact ok.serviceNext hs

/-- What the console promises. -/
structure UsbRight (s : Usb) : Prop where
  /-- delivered, and still to be delivered: the accepted bytes, call after call -/
  conserved : s.delivered ++ s.inHand ++ s.ring.queued =
    s.calls.flatMap Done.accepted ++ s.put.elim [] Put.accepted
  calls : ∀ c ∈ s.calls, Split c.bytes c.accepted c.dropped
  put : ∀ p, s.put = some p → Split p.seen p.accepted p.dropped
  counted : s.tmUsbDropped = BitVec.ofNat 32 s.droppedBytes
  /-- nothing is beyond what the CDC layer has reported, nor beyond `chunk` -/
  handed : s.handed ≤ s.report
  chunk : s.inHand.length ≤ USB_TX_CHUNK

theorem Usb.ServiceOk.bounds (h : s.ServiceOk) :
    s.handed ≤ s.report ∧ s.inHand.length ≤ USB_TX_CHUNK := by
  unfold ServiceOk at h
  unfold inHand
  split at h
  · rename_i hc
    rw [hc]
    exact ⟨h, Nat.zero_le _⟩
  · rename_i hc
    rw [hc]
    exact ⟨by omega, Nat.zero_le _⟩
  · rename_i hc
    rw [hc]
    obtain ⟨hreport, -, hchunk⟩ := h
    exact ⟨by omega, hchunk⟩
  · rename_i available chunk i hc
    rw [hc]
    obtain ⟨hreport, hi, hroom, hchunk⟩ := h
    refine ⟨by omega, ?_⟩
    show (chunk.drop i).length ≤ USB_TX_CHUNK
    rw [List.length_drop]
    omega

theorem usb_console_right (s : Usb) (h : usbConsole.Reachable s) : UsbRight s := by
  have ok := h.invariant UsbOk (fun _ hi => UsbOk.init hi) fun _ _ _ ok _ hs => ok.step hs
  obtain ⟨hhanded, hchunk⟩ := ok.service.bounds
  exact ⟨ok.kept, ok.calls, fun p hp => (ok.put p hp).split, ok.counted, hhanded, hchunk⟩

/-- Before the first output. -/
def quiet : Usb where
  ring := ⟨fun _ => 0, 0, 0⟩
  tmUsbDropped := 0
  put := none
  service := .outside
  delivered := []
  calls := []
  report := 0
  handed := 0

theorem quiet_init : quiet.Init := ⟨rfl, rfl, rfl, rfl, rfl, rfl, rfl, rfl, rfl⟩

/-- Three bytes for a layer that has room for two; a second call comes in between. -/
theorem usb_console_right_short : ∃ s, UsbRight s ∧ s.delivered = [7, 8] ∧
    s.ring.queued = [9, 5] := by
  obtain ⟨s, hs, hp⟩ := @Lts.reachable_of_trace _ _ usbConsole
    (fun s => s.delivered == [7, 8] && s.ring.queued == [9, 5]) quiet
    ([.put (fun i => BitVec.ofNat 8 (7 + i)) 3] ++ .replicate 4 .putNext ++ [.drain 2] ++
      .replicate 4 .serviceNext ++ [.put (fun _ => 5) 1] ++ .replicate 2 .putNext ++
      .replicate 4 .serviceNext)
    quiet_init (by decide +kernel)
  simp only [Bool.and_eq_true, beq_iff_eq] at hp
  obtain ⟨hdelivered, hqueued⟩ := hp
  exact ⟨s, usb_console_right s hs, hdelivered, hqueued⟩

end UsbConsole

end Mtk3Smp
