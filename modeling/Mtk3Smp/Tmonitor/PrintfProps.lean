import Mtk3Smp.Tmonitor.PrintfRead

/-!
# `tm_sprintf` and C

Which conversions print what C asks for. As long as the output has at most 32767 bytes, the
16-bit variables hold the width and the lengths, and the conversions go wrong in four places
only: a negative precision of `.*` is taken as 0, the precision of a string that is longer than
the string is not set to 0 behind the search for the NUL, `#` of `o` prints its 0 beside the
zeros of the precision, and a length of 32767 makes a decrement wrap.
-/

namespace Mtk3Smp

namespace Printf

open CFormat (ch Arg Flag Width Precision Length IntConv Conv Directive Item Text numeral digitsOf
  justify)

/-! ## Flags -/

/-- The flag byte with the given flags. -/
def bits (left plus space hash zero : Bool) : UB :=
  (if left then F_LEFT else 0) ||| (if plus then F_PLUS else 0) |||
    (if space then F_SPACE else 0) ||| (if hash then F_PREFIX else 0) |||
    (if zero then F_ZERO else 0)

theorem bits_or (a b c d e : Bool) (f : Flag) : bits a b c d e ||| flagBit f =
    bits (a || f = .minus) (b || f = .plus) (c || f = .space) (d || f = .hash) (e || f = .zero) := by
  cases f <;> revert a b c d e <;> decide

theorem flagBits_bits (a b c d e : Bool) (flags : List Flag) : flagBits (bits a b c d e) flags =
    bits (a || .minus ∈ flags) (b || .plus ∈ flags) (c || .space ∈ flags) (d || .hash ∈ flags)
      (e || .zero ∈ flags) := by
  induction flags generalizing a b c d e with
  | nil => simp [flagBits]
  | cons f flags ih =>
    show flagBits (bits a b c d e ||| flagBit f) flags = _
    rw [bits_or, ih]
    simp only [List.mem_cons, Bool.decide_or, Bool.or_assoc, eq_comm]

theorem flagBits_zero (flags : List Flag) : flagBits 0 flags =
    bits (.minus ∈ flags) (.plus ∈ flags) (.space ∈ flags) (.hash ∈ flags) (.zero ∈ flags) := by
  have h := flagBits_bits false false false false false flags
  have hbits : bits false false false false false = 0 := by decide
  rw [hbits] at h
  simpa only [Bool.false_or] using h

/-- A precision of any kind puts out the flag `0`. -/
def keepsZero (d : Directive) : Bool := .zero ∈ d.flags && d.prec.isNone

theorem allFlags_eq (d : Directive) : allFlags d =
    bits (.minus ∈ d.flags || (readWidth d.width).1) (.plus ∈ d.flags) (.space ∈ d.flags)
      (.hash ∈ d.flags) (keepsZero d) := by
  have hleft (a b c d e : Bool) : bits a b c d e ||| F_LEFT = bits true b c d e := by
    revert a b c d e
    decide
  have hzero (a b c d e : Bool) : bits a b c d e &&& ~~~F_ZERO = bits a b c d false := by
    revert a b c d e
    decide
  unfold allFlags widthFlags keepsZero
  rw [flagBits_zero, hleft]
  cases (readWidth d.width).1 <;> cases d.prec.isNone <;>
    simp only [Bool.or_false, Bool.or_true, Bool.and_true, Bool.and_false, if_true,
      Bool.false_eq_true, if_false, hzero]

theorem bits_right (a b c d e : Bool) :
    bits a b c d e &&& (F_LEFT ||| F_ZERO) = 0 ↔ a = false ∧ e = false := by
  revert a b c d e
  decide

theorem bits_zero (a b c d e : Bool) :
    bits a b c d e &&& (F_LEFT ||| F_ZERO) = F_ZERO ↔ a = false ∧ e = true := by
  revert a b c d e
  decide

theorem bits_plus (a b c d e : Bool) : bits a b c d e &&& F_PLUS ≠ 0 ↔ b = true := by
  revert a b c d e
  decide

theorem bits_space (a b c d e : Bool) : bits a b c d e &&& F_SPACE ≠ 0 ↔ c = true := by
  revert a b c d e
  decide

theorem bits_hash (a b c d e : Bool) : bits a b c d e &&& F_PREFIX ≠ 0 ↔ d = true := by
  revert a b c d e
  decide

/-! ## Widths and precisions that fit -/

theorem readWidth_eq {w : Width} (h : w.value ≤ 32767) : readWidth w = (w.isLeft, (w.value : Int)) := by
  cases w with
  | none => rfl
  | literal d ds =>
    rw [readWidth, toH_eq (by omega) (by exact_mod_cast h)]
    rfl
  | star n =>
    have habs : n.toInt.natAbs ≤ 32767 := h
    rw [readWidth, toH_eq (by omega) (by omega)]
    by_cases hneg : n.toInt < 0
    · rw [if_pos hneg, toH_eq (by omega) (by omega)]
      have hvalue : -n.toInt = (n.toInt.natAbs : Int) := by omega
      rw [hvalue]
      simp [Width.isLeft, Width.value, hneg]
    · rw [if_neg hneg]
      have hvalue : n.toInt = (n.toInt.natAbs : Int) := by omega
      simp [Width.isLeft, Width.value, hneg, ← hvalue]

/-- What `tm_vsprintf` does not read as C does: a precision that counts as omitted. -/
def IsNegStar (p : Precision) : Prop := p.isNone = false ∧ p.value = none

instance (p : Precision) : Decidable (IsNegStar p) := inferInstanceAs (Decidable (_ ∧ _))

theorem readPrec_none {p : Precision} (h : p.isNone = true) : readPrec p = -1 ∧ p.value = none := by
  cases p with
  | none => exact ⟨rfl, rfl⟩
  | literal ds => cases h
  | star n => cases h

theorem readPrec_some {p : Precision} {k : Nat} (h : p.value = some k) (hk : k ≤ 32767) :
    readPrec p = k := by
  cases p with
  | none => cases h
  | literal ds =>
    have hvalue : CFormat.literalValue ds = k := Option.some.inj h
    rw [readPrec, hvalue, toH_eq (by omega) (by omega)]
  | star n =>
    simp only [Precision.value] at h
    split at h
    · cases h
    · have hvalue : n.toInt.toNat = k := Option.some.inj h
      rw [readPrec, toH_eq (by omega) (by omega), if_neg (by omega)]
      omega

theorem readPrec_le (p : Precision) : readPrec p ≤ 32767 := by
  cases p with
  | none => decide
  | literal ds => exact toH_le _
  | star n =>
    rw [readPrec]
    split
    · decide
    · exact toH_le _

theorem readPrec_star {n : UW} : 0 ≤ readPrec (.star n) := by
  rw [readPrec]
  split
  · exact Int.le_refl 0
  · omega

theorem readPrec_negStar {p : Precision} (h : IsNegStar p) : 0 ≤ readPrec p := by
  cases p with
  | none => cases h.1
  | literal ds => cases h.2
  | star n => exact readPrec_star

/-! ## Integers -/

theorem getD_digits {d : Nat} (upper : Bool) (h : d < 16) :
    digits.getD (d + if upper then 16 else 0) 0 = CFormat.digitByte upper d := by
  interval_cases d <;> cases upper <;> rfl

theorem outintLoop_eq {base : Nat} (upper : Bool) (hb : 2 ≤ base) (hb' : base ≤ 16) (fuel : Nat)
    (ep : List UB) (val : Nat) (hval : val < 2 ^ (fuel + 1)) :
    outintLoop base (if upper then 16 else 0) (fuel + 1) ep val = numeral upper base val ++ ep := by
  induction fuel generalizing ep val with
  | zero =>
    have hsmall : ¬val ≥ base := by
      rw [Nat.zero_add, Nat.pow_one] at hval
      omega
    rw [outintLoop, if_neg hsmall, getD_digits upper (by omega),
      CFormat.numeral_of_lt (Nat.lt_of_not_le hsmall)]
    rfl
  | succ fuel ih =>
    rw [outintLoop]
    by_cases hge : val ≥ base
    · have hdiv : val / base < 2 ^ (fuel + 1) := by
        rw [Nat.div_lt_iff_lt_mul (by omega)]
        rw [Nat.pow_succ] at hval
        exact Nat.lt_of_lt_of_le hval (Nat.mul_le_mul_left _ hb)
      have hmod : val % base < 16 := Nat.lt_of_lt_of_le (Nat.mod_lt _ (by omega)) hb'
      rw [if_pos hge, getD_digits upper hmod, ih _ _ hdiv, CFormat.numeral_of_ge hb hge,
        List.append_assoc]
      rfl
    · rw [if_neg hge, getD_digits upper (by omega), CFormat.numeral_of_lt (Nat.lt_of_not_le hge)]
      rfl

theorem outint_eq (ep : List UB) (val : UW) (base : UB) (upper : Bool)
    (hb : 2 ≤ (base &&& 0x3f).toNat) (hb' : (base &&& 0x3f).toNat ≤ 16)
    (hcaps : ((base &&& 0x40) >>> 2).toNat = if upper then 16 else 0) :
    outint ep val base = numeral upper (base &&& 0x3f).toNat val.toNat ++ ep := by
  unfold outint
  rw [hcaps]
  apply outintLoop_eq upper hb hb'
  exact Nat.lt_trans val.isLt (by decide)

theorem length_numeral_word (upper : Bool) {base : Nat} (hb : 8 ≤ base) (v : UW) :
    (numeral upper base v.toNat).length ≤ 11 := by
  apply CFormat.length_numeral_le (by omega) (by decide)
  exact Nat.lt_of_lt_of_le (Nat.lt_trans v.isLt (by decide)) (Nat.pow_le_pow_left hb 11)

/-- `cbuf` is long enough. -/
theorem outint_fits (v : UW) {base : UB} (upper : Bool)
    (hb : 8 ≤ (base &&& 0x3f).toNat) (hb' : (base &&& 0x3f).toNat ≤ 16)
    (hcaps : ((base &&& 0x40) >>> 2).toNat = if upper then 16 else 0) :
    (outint [] v base).length ≤ MAX_DIGITS := by
  rw [outint_eq [] v base upper (by omega) hb' hcaps, List.append_nil]
  exact Nat.le_trans (length_numeral_word upper hb v) (by decide)

theorem toInt_intValue {c : UB} (hc : c = ch 'i' ∨ c = ch 'd') (len : Length) (v : UW) :
    (intValue c (qualByte len) v).toInt = len.signed v := by
  cases len with
  | none => rfl
  | l => rfl
  | h =>
    show (if c = ch 'i' ∨ c = ch 'd' then (v.setWidth 16).signExtend 32
      else (v.setWidth 16).setWidth 32).toInt = _
    rw [if_pos hc, BitVec.toInt_signExtend_of_le (by decide)]
    rfl

theorem toNat_intValue {c : UB} (hc : ¬(c = ch 'i' ∨ c = ch 'd')) (len : Length) (v : UW) :
    (intValue c (qualByte len) v).toNat = len.unsigned v := by
  cases len with
  | none => rfl
  | l => rfl
  | h =>
    show (if c = ch 'i' ∨ c = ch 'd' then (v.setWidth 16).signExtend 32
      else (v.setWidth 16).setWidth 32).toNat = _
    rw [if_neg hc, BitVec.toNat_setWidth_of_le (by decide)]
    rfl

theorem itemString_eq (v : UW) (prec : Int) {base : UB} (upper : Bool)
    (hb : 2 ≤ (base &&& 0x3f).toNat) (hb' : (base &&& 0x3f).toNat ≤ 16)
    (hcaps : ((base &&& 0x40) >>> 2).toNat = if upper then 16 else 0) :
    itemString v prec base =
      if v.toNat = 0 ∧ prec = 0 then [] else numeral upper (base &&& 0x3f).toNat v.toNat := by
  have hv : v = 0 ↔ v.toNat = 0 := by
    rw [← BitVec.toNat_inj]
    rfl
  unfold itemString
  rw [outint_eq [] v base upper hb hb' hcaps, List.append_nil]
  simp only [hv]

/-- What `tm_vsprintf` prints in front of the zeros: `0` of `%#o` too. -/
def leadOf (flags : List Flag) (len : Length) (k : IntConv) (v : UW) : List UB :=
  if k = .o ∧ .hash ∈ flags ∧ len.unsigned v ≠ 0 then [ch '0'] else k.lead flags len v

/-- What a conversion of an integer is. -/
structure IntShape (cv : Conversion) (flags : List Flag) (w p : Int) (len : Length)
    (k : IntConv) (v : UW) : Prop where
  prec : cv.prec = p
  cbs : cv.cbs =
    if k.magnitude len v = 0 ∧ p = 0 then [] else numeral k.upper k.base (k.magnitude len v)
  lead : signBytes cv.sign ++ prefixBytes cv.base = leadOf flags len k v
  wid : cv.wid = w - (leadOf flags len k v).length

variable {flags : List Flag} {a e : Bool} {wid prec : Int} {v : UW}

/-- The flag byte of a list of flags, but for `-` and `0`. -/
def flagByte (a e : Bool) (flags : List Flag) : UB :=
  bits a (.plus ∈ flags) (.space ∈ flags) (.hash ∈ flags) e

theorem signed_eq (flags : List Flag) (a e : Bool) (v : UW) (hw : -32767 ≤ wid)
    (hw' : wid ≤ 32767) :
    (signed (flagByte a e flags) wid v).1.toNat = v.toInt.natAbs ∧
      signBytes (signed (flagByte a e flags) wid v).2.1 = CFormat.signOf flags v.toInt ∧
      (signed (flagByte a e flags) wid v).2.2 = wid - (CFormat.signOf flags v.toInt).length := by
  have hdec : toH (wid - 1) = wid - 1 := toH_eq (by omega) (by omega)
  have hlt := v.isLt
  have hint := BitVec.toInt_eq_toNat_cond v
  unfold signed CFormat.signOf flagByte
  by_cases hneg : v.toInt < 0
  · rw [if_pos hneg, if_pos hneg, hdec]
    refine ⟨?_, rfl, rfl⟩
    rw [BitVec.toNat_neg]
    split at hint <;> omega
  · have habs : v.toNat = v.toInt.natAbs := by
      split at hint <;> omega
    simp only [if_neg hneg, bits_plus, bits_space, decide_eq_true_iff, hdec]
    by_cases hplus : .plus ∈ flags
    · simp only [if_pos hplus]
      exact ⟨habs, rfl, rfl⟩
    · by_cases hspace : .space ∈ flags
      · simp only [if_neg hplus, if_pos hspace]
        exact ⟨habs, rfl, rfl⟩
      · simp only [if_neg hplus, if_neg hspace]
        exact ⟨habs, rfl, (Int.sub_zero wid).symm⟩

theorem convertInt_signed (len : Length) {k : IntConv} (hk : k = .i ∨ k = .d) (hw : 0 ≤ wid)
    (hw' : wid ≤ 32767) :
    IntShape (convertInt (flagByte a e flags) wid prec k.byte (qualByte len) v) flags wid prec
      len k v := by
  have hc : k.byte = ch 'i' ∨ k.byte = ch 'd' := by
    rcases hk with rfl | rfl
    · exact Or.inl rfl
    · exact Or.inr rfl
  have hsigned := signed_eq flags a e (intValue k.byte (qualByte len) v)
    (show -32767 ≤ wid by omega) hw'
  rw [toInt_intValue hc] at hsigned
  obtain ⟨hnat, hsign, hwid⟩ := hsigned
  have hlead : leadOf flags len k v = CFormat.signOf flags (len.signed v) := by
    rcases hk with rfl | rfl <;> rfl
  have hmag : k.magnitude len v = (len.signed v).natAbs := by
    rcases hk with rfl | rfl <;> rfl
  have hbase : k.base = 10 ∧ k.upper = false := by
    rcases hk with rfl | rfl <;> exact ⟨rfl, rfl⟩
  unfold convertInt
  dsimp only
  rw [if_pos hc]
  refine ⟨rfl, ?_, ?_, ?_⟩
  · dsimp only
    rw [itemString_eq _ _ false (by decide) (by decide) (by decide), hnat, hmag, hbase.1, hbase.2]
    rfl
  · dsimp only
    rw [hsign, hlead]
    exact List.append_nil _
  · dsimp only
    rw [hwid, hlead]

theorem convertInt_u (len : Length) :
    IntShape (convertInt (flagByte a e flags) wid prec (IntConv.u).byte (qualByte len) v) flags wid
      prec len .u v := by
  have hc : ¬((IntConv.u).byte = ch 'i' ∨ (IntConv.u).byte = ch 'd') := by decide
  have hu : (IntConv.u).byte = ch 'u' := rfl
  unfold convertInt
  dsimp only
  rw [if_neg hc, if_pos hu]
  have hlead : leadOf flags len .u v = [] := if_neg (fun h => nomatch h.1)
  have hnone : signBytes 0 ++ prefixBytes 10 = [] := by decide
  refine ⟨rfl, ?_, ?_, ?_⟩
  · dsimp only
    rw [itemString_eq _ _ false (by decide) (by decide) (by decide), toNat_intValue hc]
    rfl
  · dsimp only
    rw [hlead, hnone]
  · dsimp only
    rw [hlead]
    exact (Int.sub_zero wid).symm

/-- `base` of `X`, `x` and `o`, without and with the bit of the prefix. -/
theorem prefixed_eq (flags : List Flag) (a e : Bool) (v : UW) {k : IntConv}
    (hk : k = .X ∨ k = .x ∨ k = .o) (hw : 0 ≤ wid) (hw' : wid ≤ 32767) :
    2 ≤ ((prefixed (flagByte a e flags) wid k.byte v).1 &&& 0x3f).toNat ∧
      ((prefixed (flagByte a e flags) wid k.byte v).1 &&& 0x3f).toNat = k.base ∧
      (((prefixed (flagByte a e flags) wid k.byte v).1 &&& 0x40) >>> 2).toNat =
        (if k.upper then 16 else 0) ∧
      prefixBytes (prefixed (flagByte a e flags) wid k.byte v).1 =
        (if .hash ∈ flags ∧ v ≠ 0 then
          (if k = .o then [ch '0'] else [ch '0', if k = .X then ch 'X' else ch 'x']) else []) ∧
      (prefixed (flagByte a e flags) wid k.byte v).2 = wid - (if .hash ∈ flags ∧ v ≠ 0 then
        (if k = .o then 1 else 2) else 0 : Int) := by
  have h1 : toH (wid - 1) = wid - 1 := toH_eq (by omega) (by omega)
  have h2 : toH (wid - 2) = wid - 2 := toH_eq (by omega) (by omega)
  have hhash : (flagByte a e flags &&& F_PREFIX ≠ 0 ∧ v ≠ 0) ↔ (.hash ∈ flags ∧ v ≠ 0) := by
    unfold flagByte
    rw [bits_hash, decide_eq_true_iff]
  unfold prefixed
  simp only [hhash]
  by_cases hv : .hash ∈ flags ∧ v ≠ 0
  · simp only [if_pos hv]
    rcases hk with rfl | rfl | rfl
    · exact ⟨by decide, rfl, rfl, rfl, h2⟩
    · exact ⟨by decide, rfl, rfl, rfl, h2⟩
    · exact ⟨by decide, rfl, rfl, rfl, h1⟩
  · simp only [if_neg hv]
    rcases hk with rfl | rfl | rfl
    · exact ⟨by decide, rfl, rfl, rfl, (Int.sub_zero wid).symm⟩
    · exact ⟨by decide, rfl, rfl, rfl, (Int.sub_zero wid).symm⟩
    · exact ⟨by decide, rfl, rfl, rfl, (Int.sub_zero wid).symm⟩

theorem convertInt_prefixed (len : Length) {k : IntConv} (hk : k = .X ∨ k = .x ∨ k = .o)
    (hw : 0 ≤ wid) (hw' : wid ≤ 32767) :
    IntShape (convertInt (flagByte a e flags) wid prec k.byte (qualByte len) v) flags wid prec
      len k v := by
  have hc : ¬(k.byte = ch 'i' ∨ k.byte = ch 'd') := by
    rcases hk with rfl | rfl | rfl <;> decide
  have hu : ¬k.byte = ch 'u' := by
    rcases hk with rfl | rfl | rfl <;> decide
  have hbase : k.base ≤ 16 := by
    rcases hk with rfl | rfl | rfl <;> decide
  have hmag : k.magnitude len v = len.unsigned v := by
    rcases hk with rfl | rfl | rfl <;> rfl
  have hzero : intValue k.byte (qualByte len) v ≠ 0 ↔ len.unsigned v ≠ 0 := by
    rw [← toNat_intValue hc len v, ne_eq, ne_eq, ← BitVec.toNat_inj]
    rfl
  have hlead : leadOf flags len k v = if .hash ∈ flags ∧ intValue k.byte (qualByte len) v ≠ 0 then
      (if k = .o then [ch '0'] else [ch '0', if k = .X then ch 'X' else ch 'x']) else [] := by
    unfold leadOf
    simp only [hzero]
    rcases hk with rfl | rfl | rfl
    · rw [if_neg (by simp)]
      rfl
    · rw [if_neg (by simp)]
      rfl
    · by_cases h : .hash ∈ flags ∧ len.unsigned v ≠ 0
      · rw [if_pos ⟨rfl, h⟩, if_pos h]
        rfl
      · rw [if_neg (fun h' => h h'.2), if_neg h]
        rfl
  obtain ⟨hb, hb', hcaps, hpre, hwid⟩ :=
    prefixed_eq flags a e (intValue k.byte (qualByte len) v) hk hw hw'
  unfold convertInt
  dsimp only
  rw [if_neg hc, if_neg hu]
  refine ⟨rfl, ?_, ?_, ?_⟩
  · dsimp only
    rw [itemString_eq _ _ k.upper hb (by omega) hcaps, toNat_intValue hc, hmag, hb']
  · dsimp only
    rw [hpre, hlead]
    rfl
  · dsimp only
    rw [hwid, hlead]
    split
    · split <;> rfl
    · rfl

theorem convertInt_shape (len : Length) (k : IntConv) (hw : 0 ≤ wid) (hw' : wid ≤ 32767) :
    IntShape (convertInt (flagByte a e flags) wid prec k.byte (qualByte len) v) flags wid prec
      len k v := by
  cases k with
  | d => exact convertInt_signed len (Or.inr rfl) hw hw'
  | i => exact convertInt_signed len (Or.inl rfl) hw hw'
  | u => exact convertInt_u len
  | x => exact convertInt_prefixed len (Or.inr (Or.inl rfl)) hw hw'
  | X => exact convertInt_prefixed len (Or.inl rfl) hw hw'
  | o => exact convertInt_prefixed len (Or.inr (Or.inr rfl)) hw hw'

end Printf

end Mtk3Smp
