import Mtk3Smp.Tmonitor.PrintfProps

/-!
# Where `tm_sprintf` is `sprintf`

A conversion is compared with C's field for it, and the number of its zeros tells when they
differ. From the single conversions it goes to whole formats.
-/

namespace Mtk3Smp

namespace Printf

open CFormat (ch Arg Flag Width Precision Length IntConv Conv Directive Item Text numeral digitsOf
  alternative justify)

/-! ## Fields -/

variable {cv : Conversion} {flg : UB} {l z : Bool} {W : Nat} {t : Text}

theorem room_eq (cv : Conversion) (hcbs : cv.cbs.length ≤ 32767) (hsum : cv.cbs.length + cv.extra ≤ 32767) :
    cv.room = toH (cv.wid - (cv.cbs.length + cv.extra.toNat : Nat)) := by
  have hlen : toH cv.cbs.length = cv.cbs.length := toH_eq (by omega) (by omega)
  unfold Conversion.room
  rw [hlen]
  split
  · have hadd : cv.wid - (cv.cbs.length + cv.extra) =
        cv.wid - (cv.cbs.length + cv.extra.toNat : Nat) := by omega
    rw [toH_eq (by omega) hsum, hadd]
  · have hadd : cv.wid - (cv.cbs.length : Int) =
        cv.wid - (cv.cbs.length + cv.extra.toNat : Nat) := by omega
    rw [hadd]

/-- A conversion whose parts are those of the text, in a field that has room for them. -/
theorem printed_eq (hroom : cv.room = (W : Int) - t.length) (hW : W ≤ 32767)
    (ht : t.length ≤ 32767) (hmin : -32768 < cv.extra) (hz : z = true → cv.extra ≤ 0)
    (hmid : ∀ k, signBytes cv.sign ++ (prefixBytes cv.base ++ (List.replicate k (ch '0') ++
      (List.replicate cv.extra.toNat (ch '0') ++ cv.cbs))) =
        t.lead ++ (List.replicate k (ch '0') ++ t.body))
    (htail : l = false → z = false → W = 0 → t.length ≠ 32767) (flags : List Flag) :
    cv.printed (flagByte l z flags) = justify l z W t := by
  have hextra : rounds cv.extra = cv.extra.toNat := if_neg (by omega)
  have hpad : rounds cv.room = W - t.length := by
    unfold rounds
    rw [if_neg (by omega), hroom]
    omega
  have hmiddle : cv.middle cv.extra = t.lead ++ t.body := by
    have h := hmid 0
    rw [List.replicate_zero, List.nil_append, List.nil_append] at h
    rw [Conversion.middle, hextra, h]
  unfold Conversion.printed justify flagByte
  simp only [bits_right, bits_zero]
  cases l with
  | true =>
    rw [if_neg (fun h => Bool.noConfusion h.1), if_neg (fun h => Bool.noConfusion h.2.1),
      if_pos rfl, hmiddle, hpad, List.append_assoc]
  | false =>
    cases z with
    | true =>
      have hz' := hz rfl
      have h := hmid (W - t.length)
      rw [Int.toNat_of_nonpos hz', List.replicate_zero, List.nil_append] at h
      rw [if_neg (fun h => Bool.noConfusion h.2), if_pos ⟨hz', rfl, rfl⟩,
        if_neg Bool.false_ne_true, if_pos rfl, Conversion.middle, hpad, h]
    | false =>
      have htail := htail rfl rfl
      have hbehind : rounds (behind cv.room) = 0 := by
        unfold rounds behind
        rw [hroom]
        split <;> split <;> omega
      rw [if_pos ⟨rfl, rfl⟩, if_neg Bool.false_ne_true, if_neg Bool.false_ne_true, hmiddle, hpad,
        hbehind, List.replicate_zero, List.append_nil]

/-- The zeros that a conversion prints. -/
theorem count_printed (flags : List Flag) (hz : z = false) :
    (cv.printed (flagByte l z flags)).count (ch '0') =
      (signBytes cv.sign ++ prefixBytes cv.base).count (ch '0') + rounds cv.extra +
        cv.cbs.count (ch '0') := by
  have hspace (n : Nat) : (List.replicate n (ch ' ')).count (ch '0') = 0 := by
    rw [List.count_replicate, if_neg (by decide)]
  have hmiddle : (cv.middle cv.extra).count (ch '0') =
      (signBytes cv.sign ++ prefixBytes cv.base).count (ch '0') + rounds cv.extra +
        cv.cbs.count (ch '0') := by
    unfold Conversion.middle
    rw [List.count_append, List.count_append, List.count_append, List.count_append,
      List.count_replicate_self]
    omega
  unfold Conversion.printed flagByte
  simp only [bits_right, bits_zero]
  split
  · rw [List.count_append, List.count_append, hspace, hspace, hmiddle]
    omega
  · rw [if_neg (fun h => by rw [hz] at h; exact nomatch h.2.2), List.count_append, hspace, hmiddle]
    omega

/-- With no room at all the second loop wraps. -/
theorem le_length_printed (cv : Conversion) (flags : List Flag) (hl : l = false) (hz : z = false)
    (hroom : cv.room = -32767) : 32768 ≤ (cv.printed (flagByte l z flags)).length := by
  unfold Conversion.printed flagByte
  simp only [bits_right]
  rw [if_pos ⟨hl, hz⟩, hroom, List.length_append, List.length_append]
  have hlen : (List.replicate (rounds (behind (-32767))) (ch ' ')).length = 32768 :=
    List.length_replicate
  omega

/-! ## Integers -/

/-- A text whose parts are `lead` and `body`, or which has the `0` of `%#o` in its body. -/
def Matches (lead : List UB) (t : Text) (body : List UB) : Prop :=
  t.lead = lead ∧ t.body = body ∨ lead = [ch '0'] ∧ t.lead = [] ∧ t.body = ch '0' :: body

namespace Matches

variable {lead body : List UB}

theorem length_eq (h : Matches lead t body) : t.length = lead.length + body.length := by
  unfold Text.length
  rcases h with ⟨h1, h2⟩ | ⟨h1, h2, h3⟩
  · rw [h1, h2]
  · rw [h1, h2, h3, List.length_nil, List.length_cons, List.length_singleton]
    omega

theorem count_eq (h : Matches lead t body) (x : UB) :
    t.lead.count x + t.body.count x = lead.count x + body.count x := by
  rcases h with ⟨h1, h2⟩ | ⟨h1, h2, h3⟩
  · rw [h1, h2]
  · rw [h1, h2, h3, List.count_nil, List.count_cons, List.count_cons, List.count_nil]
    omega

theorem zeros (h : Matches lead t body) (k : Nat) :
    t.lead ++ (List.replicate k (ch '0') ++ t.body) =
      lead ++ (List.replicate k (ch '0') ++ body) := by
  rcases h with ⟨h1, h2⟩ | ⟨h1, h2, h3⟩
  · rw [h1, h2]
  · rw [h1, h2, h3, List.nil_append, List.append_cons, ← List.replicate_succ', List.replicate_succ]
    rfl

/-- More zeros in front of the digits. -/
theorem add (h : Matches lead t body) (k : Nat) :
    Matches lead { lead := t.lead, body := List.replicate k (ch '0') ++ t.body }
      (List.replicate k (ch '0') ++ body) := by
  rcases h with ⟨h1, h2⟩ | ⟨h1, h2, h3⟩
  · exact Or.inl ⟨h1, congrArg _ h2⟩
  · refine Or.inr ⟨h1, h2, ?_⟩
    dsimp only
    rw [h3, List.append_cons, ← List.replicate_succ', List.replicate_succ]
    rfl

end Matches

variable {flags : List Flag} {p : Int} {len : Length} {k : IntConv} {v : UW}

theorem length_leadOf_le (flags : List Flag) (len : Length) (k : IntConv) (v : UW) :
    (leadOf flags len k v).length ≤ 2 := by
  unfold leadOf IntConv.lead CFormat.signOf
  split
  · decide
  · cases k <;> dsimp only <;> (repeat' split) <;> simp

theorem length_numeral_magnitude (len : Length) (k : IntConv) (v : UW) :
    0 < (numeral k.upper k.base (k.magnitude len v)).length ∧
      (numeral k.upper k.base (k.magnitude len v)).length ≤ 11 := by
  have hbase : 8 ≤ k.base := by
    cases k <;> decide
  have hmag : k.magnitude len v < 2 ^ 32 := by
    have hnat : len.unsigned v < 2 ^ 32 := by
      cases len with
      | h => exact Nat.lt_trans (v.setWidth 16).isLt (by decide)
      | none => exact v.isLt
      | l => exact v.isLt
    have hint : (len.signed v).natAbs < 2 ^ 32 := by
      have hv := BitVec.toInt_lt (x := v)
      have hv' := BitVec.le_toInt v
      have hs := BitVec.toInt_lt (x := v.setWidth 16)
      have hs' := BitVec.le_toInt (v.setWidth 16)
      cases len with
      | h =>
        show (v.setWidth 16).toInt.natAbs < 2 ^ 32
        omega
      | none =>
        show v.toInt.natAbs < 2 ^ 32
        omega
      | l =>
        show v.toInt.natAbs < 2 ^ 32
        omega
    cases k <;> assumption
  refine ⟨CFormat.length_numeral_pos _ (by omega) _, ?_⟩
  apply CFormat.length_numeral_le (by omega) (by decide)
  exact Nat.lt_of_lt_of_le (Nat.lt_trans hmag (by decide)) (Nat.pow_le_pow_left hbase 11)

theorem length_cbs_le (hs : IntShape cv flags W p len k v) : cv.cbs.length ≤ 11 := by
  rw [hs.cbs]
  split
  · exact Nat.zero_le _
  · exact (length_numeral_magnitude len k v).2

theorem extra_int (hs : IntShape cv flags W p len k v) (hp : -1 ≤ p) (hp' : p ≤ 32767) :
    cv.extra = p - cv.cbs.length := by
  have hcbs := length_cbs_le hs
  unfold Conversion.extra
  rw [hs.prec, toH_eq (x := cv.cbs.length) (by omega) (by omega), toH_eq (by omega) (by omega)]

/-- `p - 11 ≤ extra` leaves no decrement to wrap. -/
theorem printed_int (hs : IntShape cv flags W p len k v) (hp : -1 ≤ p) (hp' : p ≤ 32767)
    (hW : W ≤ 32767)
    (hm : Matches (leadOf flags len k v) t (List.replicate cv.extra.toNat (ch '0') ++ cv.cbs))
    (ht : t.length ≤ 32767) (hz : z = true → cv.extra ≤ 0)
    (htail : l = false → z = false → W = 0 → t.length ≠ 32767) :
    cv.printed (flagByte l z flags) = justify l z W t := by
  have hcbs := length_cbs_le hs
  have hextra := extra_int hs hp hp'
  have hlen := hm.length_eq
  rw [List.length_append, List.length_replicate] at hlen
  have hroom := room_eq cv (by omega) (by omega)
  have hwid := hs.wid
  rw [toH_eq (by omega) (by omega)] at hroom
  refine printed_eq ?_ hW ht ?_ hz ?_ htail flags
  · omega
  · omega
  · intro n
    rw [hm.zeros, ← List.append_assoc, hs.lead]

/-- The text of C has the parts of the conversion when `#` of `o` has to add a 0 just for the
numbers that are not 0. -/
theorem matches_text (d : Directive) (len : Length) (k : IntConv) (v : UW)
    (hzero : k = .o → .hash ∈ d.flags → k.magnitude len v = 0 →
      (digitsOf d.prec.value k.upper k.base (k.magnitude len v)).head? = some (ch '0'))
    (hpos : k = .o → .hash ∈ d.flags → k.magnitude len v ≠ 0 →
      (digitsOf d.prec.value k.upper k.base (k.magnitude len v)).head? ≠ some (ch '0')) :
    Matches (leadOf d.flags len k v) (d.intText len k v)
      (digitsOf d.prec.value k.upper k.base (k.magnitude len v)) := by
  unfold Directive.intText
  dsimp only
  by_cases h : k = .o ∧ .hash ∈ d.flags
  · obtain ⟨hk, hhash⟩ := h
    have hlead : k.lead d.flags len v = [] := by rw [hk]; rfl
    have hmag : k.magnitude len v = len.unsigned v := by rw [hk]; rfl
    rw [if_pos ⟨hk, hhash⟩]
    by_cases hn : k.magnitude len v = 0
    · have hno : leadOf d.flags len k v = [] := by
        rw [leadOf, if_neg (fun h => h.2.2 (hmag.symm.trans hn)), hlead]
      refine Or.inl ⟨hlead.trans hno.symm, ?_⟩
      exact if_pos (hzero hk hhash hn)
    · have hone : leadOf d.flags len k v = [ch '0'] :=
        if_pos ⟨hk, hhash, fun h => hn (hmag.trans h)⟩
      refine Or.inr ⟨hone, hlead, ?_⟩
      exact if_neg (hpos hk hhash hn)
  · rw [if_neg h, leadOf, if_neg (fun h' => h ⟨h'.1, h'.2.1⟩)]
    exact Or.inl ⟨rfl, rfl⟩

theorem digitsOf_none (upper : Bool) {b : Nat} (hb : 2 ≤ b) (n : Nat) :
    digitsOf none upper b n = numeral upper b n := by
  have hlen := CFormat.length_numeral_pos upper hb n
  unfold digitsOf
  rw [if_neg (fun h => nomatch h.2), Option.getD_none, Nat.sub_eq_zero_of_le hlen]
  rfl

theorem two_le_base (k : IntConv) : 2 ≤ k.base := by
  cases k <;> decide

theorem base_le (k : IntConv) : k.base ≤ 16 := by
  cases k <;> decide

/-- An omitted precision never makes trouble. -/
theorem matches_none (d : Directive) (len : Length) (k : IntConv) (v : UW)
    (hprec : d.prec.value = none) :
    Matches (leadOf d.flags len k v) (d.intText len k v)
      (numeral k.upper k.base (k.magnitude len v)) := by
  have hdigits := digitsOf_none k.upper (two_le_base k) (k.magnitude len v)
  have h := matches_text d len k v
  rw [hprec, hdigits] at h
  apply h
  · intro _ _ hn
    rw [hn, CFormat.numeral_zero]
    rfl
  · intro _ _ hn
    exact CFormat.head_numeral (two_le_base k) (base_le k) hn

/-- What a precision may be on `%#o`: 0 only of a number, and no more than the digits of it. -/
def OctalFits (d : Directive) (len : Length) (k : IntConv) (v : UW) : Prop :=
  k = .o → .hash ∈ d.flags → ∀ P, d.prec.value = some P →
    if k.magnitude len v = 0 then P ≠ 0
    else P ≤ (numeral k.upper k.base (k.magnitude len v)).length

theorem matches_some {d : Directive} (len : Length) (k : IntConv) (v : UW) {P : Nat}
    (hprec : d.prec.value = some P) (hfits : OctalFits d len k v) :
    Matches (leadOf d.flags len k v) (d.intText len k v)
      (digitsOf (some P) k.upper k.base (k.magnitude len v)) := by
  have h := matches_text d len k v
  rw [hprec] at h
  apply h
  · intro hk hhash hn
    have hP := hfits hk hhash P hprec
    rw [if_pos hn] at hP
    unfold digitsOf
    rw [if_neg (fun h => hP (Option.some.inj h.2)), hn, CFormat.numeral_zero]
    cases P with
    | zero => exact absurd rfl hP
    | succ P =>
      cases P with
      | zero => rfl
      | succ P => rfl
  · intro hk hhash hn
    have hP := hfits hk hhash P hprec
    rw [if_neg hn] at hP
    unfold digitsOf
    rw [if_neg (fun h => hn h.1), Option.getD_some, Nat.sub_eq_zero_of_le hP]
    exact CFormat.head_numeral (two_le_base k) (base_le k) hn

/-- What the code makes of a precision that it reads as C does. -/
theorem body_some {P : Nat} (hs : IntShape cv flags W P len k v) (hP : P ≤ 32767) :
    List.replicate cv.extra.toNat (ch '0') ++ cv.cbs =
      digitsOf (some P) k.upper k.base (k.magnitude len v) := by
  have hextra := extra_int hs (by omega) (by omega)
  unfold digitsOf
  by_cases h : k.magnitude len v = 0 ∧ P = 0
  · have hcbs := hs.cbs
    rw [if_pos ⟨h.1, by omega⟩] at hcbs
    rw [if_pos ⟨h.1, congrArg some h.2⟩, hextra, hcbs, h.2]
    rfl
  · have hcbs := hs.cbs
    rw [if_neg (fun h' => h ⟨h'.1, by omega⟩)] at hcbs
    rw [if_neg (fun h' => h ⟨h'.1, Option.some.inj h'.2⟩), hextra, hcbs, Option.getD_some]
    congr 2
    omega

/-- When a conversion of an integer prints what C asks for. -/
structure IntReads (d : Directive) (len : Length) (k : IntConv) (v : UW) : Prop where
  /-- of `.*`, a negative precision may not take the last digit, and may not add zeros other than
  those of the flag `0` that it puts out -/
  negStar : IsNegStar d.prec →
    ¬(k.magnitude len v = 0 ∧ readPrec d.prec = 0) ∧
      (readPrec d.prec).toNat - (numeral k.upper k.base (k.magnitude len v)).length =
        if d.isZero && !d.isLeft then d.width.value - (d.intText len k v).length else 0
  octal : OctalFits d len k v
  /-- a text of 32767 bytes is put to the left, or in a field with a width -/
  tail : d.isLeft = false → d.width.value = 0 → (d.intText len k v).length ≠ 32767

section Int

variable {d : Directive}

theorem isNone_of_some {q : Precision} {P : Nat} (h : q.value = some P) : q.isNone = false := by
  cases q with
  | none => cases h
  | literal ds => rfl
  | star n => rfl

theorem keepsZero_of_none (h : d.prec.isNone = true) : keepsZero d = d.isZero := by
  unfold keepsZero Directive.isZero
  rw [h, (readPrec_none h).2]
  rfl

theorem keepsZero_of_some (h : d.prec.isNone = false) : keepsZero d = false := by
  unfold keepsZero
  rw [h, Bool.and_false]

theorem isZero_of_some {P : Nat} (h : d.prec.value = some P) : d.isZero = false := by
  unfold Directive.isZero
  rw [h]
  exact Bool.and_false _

/-- An integer of a precision that is omitted is short. -/
theorem length_intText_none (len : Length) (k : IntConv) (v : UW) (h : d.prec.value = none) : (d.intText len k v).length ≤ 13 := by
  have hlen := (matches_none d len k v h).length_eq
  have hlead := length_leadOf_le d.flags len k v
  have hnum := (length_numeral_magnitude len k v).2
  omega

theorem le_length_intText {P : Nat} (h : d.prec.value = some P) :
    P ≤ (d.intText len k v).length := by
  have hdigits : P ≤ (digitsOf (some P) k.upper k.base (k.magnitude len v)).length := by
    unfold digitsOf
    split
    · rename_i hzero
      exact Nat.le_of_eq (Option.some.inj hzero.2)
    · rw [Option.getD_some, List.length_append, List.length_replicate]
      omega
  unfold Directive.intText Text.length
  rw [h]
  dsimp only
  split
  · unfold alternative
    split
    · omega
    · rw [List.length_cons]
      omega
  · omega

theorem cbs_none (hs : IntShape cv flags W (-1) len k v) :
    List.replicate cv.extra.toNat (ch '0') ++ cv.cbs =
      numeral k.upper k.base (k.magnitude len v) := by
  have hextra := extra_int hs (by decide) (by decide)
  rw [Int.toNat_of_nonpos (by omega), hs.cbs, if_neg (fun h => absurd h.2 (by decide))]
  rfl

/-- No precision. -/
theorem int_none (hs : IntShape cv d.flags d.width.value (readPrec d.prec) len k v)
    (hnone : d.prec.isNone = true) (hW : d.width.value ≤ 32767) :
    cv.printed (flagByte d.isLeft (keepsZero d) d.flags) =
      justify d.isLeft d.isZero d.width.value (d.intText len k v) := by
  obtain ⟨hread, hvalue⟩ := readPrec_none hnone
  rw [hread] at hs
  have hextra := extra_int hs (by decide) (by decide)
  have hshort := length_intText_none len k v hvalue
  rw [keepsZero_of_none hnone]
  refine printed_int hs (by decide) (by decide) hW ?_ (by omega) (fun _ => by omega)
    (fun _ _ _ => by omega)
  rw [cbs_none hs]
  exact matches_none d len k v hvalue

/-- A precision that is read as C does. -/
theorem int_some {P : Nat} (hs : IntShape cv d.flags d.width.value (readPrec d.prec) len k v)
    (hprec : d.prec.value = some P) (hW : d.width.value ≤ 32767)
    (ht : (d.intText len k v).length ≤ 32767) :
    cv.printed (flagByte d.isLeft (keepsZero d) d.flags) =
        justify d.isLeft d.isZero d.width.value (d.intText len k v) ↔
      OctalFits d len k v ∧
        (d.isLeft = false → d.width.value = 0 → (d.intText len k v).length ≠ 32767) := by
  have hP : P ≤ 32767 := Nat.le_trans (le_length_intText hprec) ht
  rw [readPrec_some hprec hP] at hs
  rw [keepsZero_of_some (isNone_of_some hprec), isZero_of_some hprec]
  have hbody := body_some hs hP
  have hextra := extra_int hs (by omega) (by omega)
  have hcbs := length_cbs_le hs
  constructor
  · intro heq
    have hcount := congrArg (List.count (ch '0')) heq
    rw [count_printed d.flags rfl, CFormat.count_justify, hs.lead, Bool.false_and,
      if_neg Bool.false_ne_true, rounds, if_neg (by omega)] at hcount
    have hfits : OctalFits d len k v := by
      intro hk hhash Q hQ
      cases hprec.symm.trans hQ
      have hbodyC : (d.intText len k v).body =
          alternative (digitsOf (some P) k.upper k.base (k.magnitude len v)) := by
        unfold Directive.intText
        dsimp only
        rw [if_pos ⟨hk, hhash⟩, hprec]
      have hleadC : (d.intText len k v).lead = [] := by
        rw [hk]
        rfl
      have hmag : k.magnitude len v = len.unsigned v := by rw [hk]; rfl
      have hcountB := congrArg (List.count (ch '0')) hbody
      rw [List.count_append, List.count_replicate_self] at hcountB
      rw [hbodyC, hleadC, List.count_nil] at hcount
      by_cases hn : k.magnitude len v = 0
      · rw [if_pos hn]
        intro hP0
        -- C prints the digit 0, the code nothing
        have hno : digitsOf (some P) k.upper k.base (k.magnitude len v) = [] :=
          if_pos ⟨hn, congrArg some hP0⟩
        have hlead : leadOf d.flags len k v = [] := by
          rw [leadOf, if_neg (fun h => h.2.2 (hmag.symm.trans hn)), hk]
          rfl
        have hone : (alternative []).count (ch '0') = 1 := by decide
        rw [hno] at hcount hcountB
        rw [hlead, hone, List.count_nil] at hcount
        rw [List.count_nil] at hcountB
        omega
      · rw [if_neg hn]
        by_contra hlong
        -- the precision has put a 0 in front already
        have hlead : leadOf d.flags len k v = [ch '0'] :=
          if_pos ⟨hk, hhash, fun h => hn (hmag.trans h)⟩
        have halt : alternative (digitsOf (some P) k.upper k.base (k.magnitude len v)) =
            digitsOf (some P) k.upper k.base (k.magnitude len v) := by
          refine if_pos ?_
          unfold digitsOf
          rw [if_neg (fun h => hn h.1), Option.getD_some]
          obtain ⟨j, hj⟩ : ∃ j,
              P - (numeral k.upper k.base (k.magnitude len v)).length = j + 1 :=
            ⟨P - (numeral k.upper k.base (k.magnitude len v)).length - 1, by omega⟩
          rw [hj]
          rfl
        have hone : [ch '0'].count (ch '0') = 1 := by decide
        rw [halt, hlead, hone] at hcount
        omega
    refine ⟨hfits, ?_⟩
    intro hl hW0 hlen
    have hm := matches_some len k v hprec hfits
    have hlen' := hm.length_eq
    rw [← hbody, List.length_append, List.length_replicate] at hlen'
    have hroom := room_eq cv (by omega) (by omega)
    have hwid := hs.wid
    rw [toH_eq (by omega) (by omega)] at hroom
    have hlong := le_length_printed (l := d.isLeft) (z := false) cv d.flags hl rfl (by omega)
    rw [heq, CFormat.length_justify] at hlong
    omega
  · rintro ⟨hfits, htail⟩
    refine printed_int hs (by omega) (by omega) hW ?_ ht (fun h => nomatch h) (fun hl _ => htail hl)
    rw [hbody]
    exact matches_some len k v hprec hfits

/-- A negative precision of `.*`. -/
theorem int_negStar (hs : IntShape cv d.flags d.width.value (readPrec d.prec) len k v)
    (hneg : IsNegStar d.prec) (hW : d.width.value ≤ 32767) :
    cv.printed (flagByte d.isLeft (keepsZero d) d.flags) =
        justify d.isLeft d.isZero d.width.value (d.intText len k v) ↔
      ¬(k.magnitude len v = 0 ∧ readPrec d.prec = 0) ∧
        (readPrec d.prec).toNat - (numeral k.upper k.base (k.magnitude len v)).length =
          if d.isZero && !d.isLeft then d.width.value - (d.intText len k v).length else 0 := by
  have hp := readPrec_negStar hneg
  have hp' := readPrec_le d.prec
  have hm := matches_none d len k v hneg.2
  have hshort := length_intText_none len k v hneg.2
  have hextra := extra_int hs (by omega) hp'
  have hcbs := length_cbs_le hs
  have hnum := length_numeral_magnitude len k v
  rw [keepsZero_of_some hneg.1]
  constructor
  · intro heq
    have hcount := congrArg (List.count (ch '0')) heq
    rw [count_printed d.flags rfl, CFormat.count_justify, hs.lead, hm.count_eq, rounds,
      if_neg (by omega), hextra, hs.cbs] at hcount
    by_cases hno : k.magnitude len v = 0 ∧ readPrec d.prec = 0
    · have hone : (numeral k.upper k.base (k.magnitude len v)).count (ch '0') = 1 := by
        rw [hno.1, CFormat.numeral_zero]
        decide
      rw [if_pos hno, hone, hno.2, List.count_nil, List.length_nil] at hcount
      omega
    · refine ⟨hno, ?_⟩
      rw [if_neg hno] at hcount
      omega
  · rintro ⟨hno, hfill⟩
    have hcbs' := hs.cbs
    rw [if_neg hno] at hcbs'
    have htoNat : cv.extra.toNat =
        (readPrec d.prec).toNat - (numeral k.upper k.base (k.magnitude len v)).length := by
      rw [hextra, hcbs']
      omega
    have hm' := hm.add cv.extra.toNat
    have hlen' := hm'.length_eq
    have hlen := hm.length_eq
    rw [← hcbs'] at hm'
    rw [List.length_append, List.length_replicate] at hlen'
    have hprinted := printed_int (l := d.isLeft) (z := false) hs (by omega) hp' hW hm'
      (by split at hfill <;> omega) (fun h => nomatch h) (by split at hfill <;> omega)
    rw [hprinted, CFormat.justify_fill d.isLeft d.isZero, ← hfill, htoNat]

end Int

end Printf

end Mtk3Smp
