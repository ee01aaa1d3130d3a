import Mtk3Smp.Ipc.MessageBuffer
import Mathlib.Algebra.BigOperators.Group.List.Basic

/-!
# The ring of a message buffer

`Ring m msgs`: the messages `msgs` lie one after the other in the ring of `m`, from `head`
round to `tail`. `knl_msg_to_mbf` appends one and `knl_mbf_to_msg` takes the first.
-/

namespace Mtk3Smp

open Cyclic

@[simp] theorem length_headerBytes (n : Nat) : (headerBytes n).length = 4 := rfl

theorem headerValue_headerBytes {n : Nat} (h : n < 2 ^ 32) : headerValue (headerBytes n) = n := by
  simp only [headerBytes, headerValue, UInt8.toNat_ofNat']
  omega

theorem le_roundsz (n : Nat) : n ≤ ROUNDSZ n := by
  unfold ROUNDSZ
  omega

theorem roundsz_lt (n : Nat) : ROUNDSZ n < n + 4 := by
  unfold ROUNDSZ
  omega

theorem dvd_roundsz (n : Nat) : 4 ∣ ROUNDSZ n := ⟨(n + 3) / 4, by unfold ROUNDSZ; omega⟩

theorem roundsz_sub {n d : Nat} (h : 4 ∣ d) (hle : d ≤ n) : ROUNDSZ (n - d) = ROUNDSZ n - d := by
  unfold ROUNDSZ
  omega

theorem dvd_msgSpan (msg : Msg) : 4 ∣ msgSpan msg :=
  Nat.dvd_add (Nat.dvd_refl 4) (dvd_roundsz _)

@[simp] theorem spans_nil : spans [] = 0 := rfl

@[simp] theorem spans_cons (msg : Msg) (msgs : List Msg) :
    spans (msg :: msgs) = msgSpan msg + spans msgs := by simp [spans]

@[simp] theorem spans_append (xs ys : List Msg) : spans (xs ++ ys) = spans xs + spans ys := by
  simp [spans]

theorem dvd_spans (msgs : List Msg) : 4 ∣ spans msgs := by
  induction msgs with
  | nil => exact ⟨0, rfl⟩
  | cons msg rest ih =>
    rw [spans_cons]
    exact Nat.dvd_add (dvd_msgSpan msg) ih

theorem length_le_spans (msgs : List Msg) : msgs.length ≤ spans msgs := by
  induction msgs with
  | nil => exact Nat.le_refl _
  | cons msg rest ih =>
    have : 1 ≤ msgSpan msg := by unfold msgSpan HEADERSZ; omega
    simp only [List.length_cons, spans_cons]
    omega

/-- The messages `msgs` lie in the buffer from `o` cells after `base` on, going round. -/
def StoredAt (size : Nat) (buf : Nat → UInt8) (base : Nat) : Nat → List Msg → Prop
  | _, [] => True
  | o, msg :: rest =>
    read size buf ((base + o) % size) 4 = headerBytes msg.length ∧
      read size buf ((base + (o + 4)) % size) msg.length = msg ∧
      StoredAt size buf base (o + msgSpan msg) rest

structure Ring (m : Mbfcb) (msgs : List Msg) : Prop where
  dvd : 4 ∣ m.bufsz
  lt : m.bufsz < 2 ^ 31
  free : m.frbufsz = (m.bufsz : Int) - (spans msgs : Nat)
  fits : spans msgs ≤ m.bufsz
  head_dvd : 4 ∣ m.head
  head_lt : 0 < m.bufsz → m.head < m.bufsz
  tail : m.tail = (m.head + spans msgs) % m.bufsz
  stored : StoredAt m.bufsz m.buffer m.head 0 msgs

section

variable {size base o : Nat} {buf buf' : Nat → UInt8} {msgs : List Msg} {m : Mbfcb} {msg : Msg}

/-- Bytes written behind the messages do not change them. -/
theorem StoredAt.write_behind {xs : List UInt8} {p : Nat} (hsize : 0 < size)
    (h : StoredAt size buf base o msgs) (hle : o + spans msgs ≤ p) (hfit : p + xs.length ≤ size) :
    StoredAt size (write size buf ((base + p) % size) xs) base o msgs := by
  induction msgs generalizing o with
  | nil => trivial
  | cons msg rest ih =>
    obtain ⟨hhead, hbody, hrest⟩ := h
    have hspan : msgSpan msg = 4 + ROUNDSZ msg.length := rfl
    have hround := le_roundsz msg.length
    rw [spans_cons] at hle
    refine ⟨?_, ?_, ih hrest (by omega)⟩
    · rw [read_write_before hsize (by omega) hfit]
      exact hhead
    · rw [read_write_before hsize (by omega) hfit]
      exact hbody

/-- A message written at the end joins the others. -/
theorem StoredAt.append (h : StoredAt size buf base o msgs)
    (hhead : read size buf ((base + (o + spans msgs)) % size) 4 = headerBytes msg.length)
    (hbody : read size buf ((base + (o + spans msgs + 4)) % size) msg.length = msg) :
    StoredAt size buf base o (msgs ++ [msg]) := by
  induction msgs generalizing o with
  | nil => exact ⟨hhead, hbody, trivial⟩
  | cons x rest ih =>
    obtain ⟨hx, hxs, hrest⟩ := h
    have hsum : o + spans (x :: rest) = o + msgSpan x + spans rest := by
      rw [spans_cons, Nat.add_assoc]
    rw [hsum] at hhead hbody
    exact ⟨hx, hxs, ih hrest hhead hbody⟩

/-- The distances counted from a later cell. -/
theorem StoredAt.rebase {d : Nat} (h : StoredAt size buf base (d + o) msgs) :
    StoredAt size buf ((base + d) % size) o msgs := by
  induction msgs generalizing o with
  | nil => trivial
  | cons x rest ih =>
    obtain ⟨hx, hxs, hrest⟩ := h
    refine ⟨?_, ?_, ih (by rw [← Nat.add_assoc]; exact hrest)⟩
    · rw [Nat.mod_add_mod, Nat.add_assoc]
      exact hx
    · rw [Nat.mod_add_mod, Nat.add_assoc, ← Nat.add_assoc d]
      exact hxs

/-! ## Positions of the writer and the reader -/

/-- `if ( pos >= bufsz ) pos = 0` after an advance by an amount that fits. -/
theorem wrap_eq {pos : Nat} (h : pos ≤ size) :
    (if size ≤ pos then 0 else pos) = pos % size := by
  split
  · have : pos = size := by omega
    rw [this, Nat.mod_self]
  · rw [Nat.mod_eq_of_lt (by omega)]

theorem dvd_mod_of_dvd {x : Nat} (h : 4 ∣ x) (hs : 4 ∣ size) : 4 ∣ x % size :=
  (Nat.dvd_mod_iff hs).2 h

/-- The header is never split: positions and the size are multiples of 4. -/
theorem put_header {pos n : Nat} (hpos : pos < size) (h4 : 4 ∣ pos) (hs : 4 ∣ size) :
    put buf pos (headerBytes n) = write size buf pos (headerBytes n) := by
  unfold write
  rw [if_neg]
  rw [length_headerBytes]
  omega

theorem slice_header {pos : Nat} (hpos : pos < size) (h4 : 4 ∣ pos) (hs : 4 ∣ size) :
    slice buf pos 4 = Cyclic.read size buf pos 4 := by
  unfold Cyclic.read
  rw [if_neg]
  omega

/-- The code's test of the free area, without the conversions to UW. -/
theorem Ring.free_iff (r : Ring m msgs) {n : Nat} (hn : n < 2 ^ 31) :
    knlMbfFree m n = true ↔ HEADERSZ + n ≤ m.bufsz - spans msgs := by
  have h1 := r.free
  have h2 := r.fits
  have h3 := r.lt
  have h4 : (HEADERSZ + n) % 2 ^ 32 = HEADERSZ + n := Nat.mod_eq_of_lt (by unfold HEADERSZ; omega)
  have h5 : (m.frbufsz % 2 ^ 32).toNat = m.bufsz - spans msgs := by omega
  unfold knlMbfFree
  rw [h4, h5]
  exact decide_eq_true_iff

theorem Ring.empty_iff (r : Ring m msgs) : knlMbfEmpty m = true ↔ msgs = [] := by
  have h1 := r.free
  have h2 := r.fits
  have h3 := length_le_spans msgs
  unfold knlMbfEmpty
  rw [beq_iff_eq]
  constructor
  · intro h
    rw [← List.length_eq_zero_iff]
    omega
  · rintro rfl
    rw [h1]
    simp

/-- A message that passes the test fits with its padding, since all sizes are multiples of 4. -/
theorem Ring.span_le (r : Ring m msgs) (h : HEADERSZ + msg.length ≤ m.bufsz - spans msgs) :
    spans msgs + msgSpan msg ≤ m.bufsz := by
  have h1 := r.dvd
  have h2 := dvd_spans msgs
  have h3 := r.fits
  have h4 : msgSpan msg = HEADERSZ + ROUNDSZ msg.length := rfl
  unfold HEADERSZ ROUNDSZ at *
  omega

/-- `knl_msg_to_mbf` without its case distinctions. -/
theorem knlMsgToMbf_eq (hsize : 4 ∣ m.bufsz) (htail : m.tail < m.bufsz) (h4 : 4 ∣ m.tail)
    (hlen : msgSpan msg ≤ m.bufsz) :
    knlMsgToMbf m msg =
      { m with
        frbufsz := m.frbufsz - (msgSpan msg : Nat)
        buffer := write m.bufsz (write m.bufsz m.buffer m.tail (headerBytes msg.length))
          ((m.tail + 4) % m.bufsz) msg
        tail := (m.tail + msgSpan msg) % m.bufsz } := by
  have hspan : msgSpan msg = 4 + ROUNDSZ msg.length := rfl
  have hpos : m.tail + 4 ≤ m.bufsz := by omega
  have hw : (if m.bufsz ≤ m.tail + HEADERSZ then 0 else m.tail + HEADERSZ) =
      (m.tail + 4) % m.bufsz := wrap_eq hpos
  have hfr : HEADERSZ + ROUNDSZ msg.length = msgSpan msg := rfl
  have hround := le_roundsz msg.length
  have hp4 : 4 ∣ (m.tail + 4) % m.bufsz := dvd_mod_of_dvd (by omega) hsize
  have hplt : (m.tail + 4) % m.bufsz < m.bufsz := Nat.mod_lt _ (by omega)
  have hnext : (m.tail + msgSpan msg) % m.bufsz =
      ((m.tail + 4) % m.bufsz + ROUNDSZ msg.length) % m.bufsz := by
    rw [Nat.mod_add_mod, hspan, Nat.add_assoc]
  rw [hnext]
  unfold knlMsgToMbf
  simp only [hw, put_header htail h4 hsize, hfr]
  generalize (m.tail + 4) % m.bufsz = pos at *
  by_cases wraps : m.bufsz - pos < msg.length
  · rw [if_pos wraps]
    have hsub : ROUNDSZ (msg.drop (m.bufsz - pos)).length = ROUNDSZ msg.length - (m.bufsz - pos) := by
      rw [List.length_drop]
      exact roundsz_sub (by omega) (by omega)
    rw [hsub, wrap_eq (by omega), mod_of_lt_double (x := pos + ROUNDSZ msg.length) (by omega) (by omega)]
    have hmod : (0 + (ROUNDSZ msg.length - (m.bufsz - pos))) % m.bufsz =
        pos + ROUNDSZ msg.length - m.bufsz := by
      rw [Nat.mod_eq_of_lt (by omega)]
      omega
    rw [hmod]
    conv_rhs => rw [write, if_pos wraps]
  · rw [if_neg wraps]
    have hle : pos + ROUNDSZ msg.length ≤ m.bufsz := by
      unfold ROUNDSZ
      omega
    rw [wrap_eq hle]
    conv_rhs => rw [write, if_neg wraps]

/-- `knl_mbf_to_msg` without its case distinctions. -/
theorem knlMbfToMsg_eq (hsize : 4 ∣ m.bufsz) (hhead : m.head < m.bufsz) (h4 : 4 ∣ m.head)
    (hread : read m.bufsz m.buffer m.head 4 = headerBytes msg.length)
    (hlen : msgSpan msg ≤ m.bufsz) (hlt : msg.length < 2 ^ 32) :
    knlMbfToMsg m =
      (read m.bufsz m.buffer ((m.head + 4) % m.bufsz) msg.length,
        { m with
          frbufsz := m.frbufsz + (msgSpan msg : Nat)
          head := (m.head + msgSpan msg) % m.bufsz }) := by
  have hspan : msgSpan msg = 4 + ROUNDSZ msg.length := rfl
  have hpos : m.head + 4 ≤ m.bufsz := by omega
  have hw : (if m.bufsz ≤ m.head + HEADERSZ then 0 else m.head + HEADERSZ) =
      (m.head + 4) % m.bufsz := wrap_eq hpos
  have hfr : HEADERSZ + ROUNDSZ msg.length = msgSpan msg := rfl
  have hround := le_roundsz msg.length
  have hp4 : 4 ∣ (m.head + 4) % m.bufsz := dvd_mod_of_dvd (by omega) hsize
  have hplt : (m.head + 4) % m.bufsz < m.bufsz := Nat.mod_lt _ (by omega)
  have hnext : (m.head + msgSpan msg) % m.bufsz =
      ((m.head + 4) % m.bufsz + ROUNDSZ msg.length) % m.bufsz := by
    rw [Nat.mod_add_mod, hspan, Nat.add_assoc]
  rw [hnext]
  unfold knlMbfToMsg
  simp only [hw, slice_header hhead h4 hsize, hread, headerValue_headerBytes hlt, hfr]
  generalize (m.head + 4) % m.bufsz = pos at *
  by_cases wraps : m.bufsz - pos < msg.length
  · rw [if_pos wraps, roundsz_sub (by omega) (by omega), wrap_eq (by omega),
      mod_of_lt_double (x := pos + ROUNDSZ msg.length) (by omega) (by omega)]
    have hmod : (0 + (ROUNDSZ msg.length - (m.bufsz - pos))) % m.bufsz =
        pos + ROUNDSZ msg.length - m.bufsz := by
      rw [Nat.mod_eq_of_lt (by omega)]
      omega
    rw [hmod]
    conv_rhs => rw [Cyclic.read, if_pos wraps]
  · rw [if_neg wraps]
    have hle : pos + ROUNDSZ msg.length ≤ m.bufsz := by
      unfold ROUNDSZ
      omega
    rw [wrap_eq hle]
    conv_rhs => rw [Cyclic.read, if_neg wraps]

theorem Ring.push (r : Ring m msgs) (h : HEADERSZ + msg.length ≤ m.bufsz - spans msgs) :
    Ring (knlMsgToMbf m msg) (msgs ++ [msg]) := by
  have hspan : msgSpan msg = 4 + ROUNDSZ msg.length := rfl
  have hround := le_roundsz msg.length
  have hfit := r.span_le h
  have hsize : 0 < m.bufsz := by omega
  have htail : m.tail < m.bufsz := by
    rw [r.tail]
    exact Nat.mod_lt _ hsize
  have h4 : 4 ∣ m.tail := by
    rw [r.tail]
    exact dvd_mod_of_dvd (Nat.dvd_add r.head_dvd (dvd_spans _)) r.dvd
  rw [knlMsgToMbf_eq r.dvd htail h4 (by omega)]
  have hbody : (m.tail + 4) % m.bufsz = (m.head + (spans msgs + 4)) % m.bufsz := by
    rw [r.tail, Nat.mod_add_mod, Nat.add_assoc]
  refine ⟨r.dvd, r.lt, ?_, ?_, r.head_dvd, r.head_lt, ?_, ?_⟩
  · have := r.free
    simp only [spans_append, spans_cons, spans_nil]
    omega
  · simp only [spans_append, spans_cons, spans_nil]
    omega
  · simp only [spans_append, spans_cons, spans_nil]
    rw [r.tail, Nat.mod_add_mod, Nat.add_zero, Nat.add_assoc]
  · show StoredAt m.bufsz _ m.head 0 (msgs ++ [msg])
    rw [hbody, r.tail]
    apply StoredAt.append
    · apply StoredAt.write_behind hsize _ (by omega) (by omega)
      exact r.stored.write_behind hsize (by omega) (by rw [length_headerBytes]; omega)
    · rw [Nat.zero_add, read_write_before hsize (by omega) (by omega)]
      exact read_write (Nat.mod_lt _ hsize) (by rw [length_headerBytes]; omega)
    · rw [Nat.zero_add]
      exact read_write (Nat.mod_lt _ hsize) (by omega)

theorem Ring.pop (r : Ring m (msg :: msgs)) :
    (knlMbfToMsg m).1 = msg ∧ Ring (knlMbfToMsg m).2 msgs := by
  have hspan : msgSpan msg = 4 + ROUNDSZ msg.length := rfl
  have hround := le_roundsz msg.length
  have hfit := r.fits
  have hlt := r.lt
  rw [spans_cons] at hfit
  have hsize : 0 < m.bufsz := by omega
  have hhead := r.head_lt hsize
  obtain ⟨hhdr, hbody, hrest⟩ := r.stored
  rw [Nat.add_zero, Nat.mod_eq_of_lt hhead] at hhdr
  rw [Nat.zero_add] at hbody hrest
  rw [knlMbfToMsg_eq r.dvd hhead r.head_dvd hhdr (by omega) (by omega)]
  refine ⟨hbody, r.dvd, r.lt, ?_, ?_, ?_, fun _ => Nat.mod_lt _ hsize, ?_, ?_⟩
  · have := r.free
    rw [spans_cons] at this
    show m.frbufsz + (msgSpan msg : Nat) = (m.bufsz : Int) - (spans msgs : Nat)
    omega
  · show spans msgs ≤ m.bufsz
    omega
  · exact dvd_mod_of_dvd (Nat.dvd_add r.head_dvd (dvd_msgSpan msg)) r.dvd
  · have := r.tail
    rw [spans_cons] at this
    show m.tail = _
    rw [this, Nat.mod_add_mod, Nat.add_assoc]
  · exact StoredAt.rebase hrest

theorem Ring.drain_eq (r : Ring m msgs) {n : Nat} (h : msgs.length ≤ n) : m.drain n = msgs := by
  induction n generalizing m msgs with
  | zero =>
    rw [List.length_eq_zero_iff.1 (Nat.le_zero.1 h)]
    rfl
  | succ n ih =>
    unfold Mbfcb.drain
    cases msgs with
    | nil => rw [if_pos (r.empty_iff.2 rfl)]
    | cons msg rest =>
      have hne : knlMbfEmpty m ≠ true := fun he => by simpa using r.empty_iff.1 he
      obtain ⟨hmsg, hrest⟩ := r.pop
      rw [if_neg hne, hmsg, ih hrest (by simpa using h)]

theorem Ring.contents_eq (r : Ring m msgs) : m.contents = msgs :=
  r.drain_eq (Nat.le_trans (length_le_spans msgs) r.fits)

end

end Mtk3Smp
