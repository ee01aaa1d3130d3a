import Mtk3Smp.Tmonitor.PrintfRight

/-!
# The formats that `tm_sprintf` gets right

Strings, pointers and characters, and then whole formats: `tm_sprintf` does on a format and on
all that it starts with what C's `sprintf` does, when the output has at most 32767 bytes and
every conversion `Converts`, and only then.
-/

namespace Mtk3Smp

namespace Printf

open CFormat (ch Arg Flag Width Precision Length IntConv Conv Directive Item Text numeral justify)

/-! ## Strings -/

variable {cv : Conversion} {d : Directive} {s : List UB} {p : Int}

/-- The search for the NUL, and for the end of the precision. -/
theorem takeString_eq (h0 : (0 : UB) ∉ s) (hp : 0 ≤ p) (hp' : p ≤ 32767) :
    takeString p s = (if p ≤ s.length then -1 else p - s.length - 1, s.take p.toNat) := by
  induction s generalizing p with
  | nil =>
    rw [takeString, toH_eq (by omega) (by omega), List.take_nil, List.length_nil]
    congr 1
    split <;> omega
  | cons x s ih =>
    have hx : x ≠ 0 := fun h => h0 (h ▸ List.mem_cons_self)
    rw [takeString, toH_eq (x := p - 1) (by omega) (by omega), List.length_cons]
    by_cases hpos : p - 1 ≥ 0
    · have htake : (x :: s).take p.toNat = x :: s.take (p - 1).toNat := by
        obtain ⟨n, hn⟩ : ∃ n, p.toNat = n + 1 := ⟨p.toNat - 1, by omega⟩
        rw [hn, List.take_succ_cons]
        congr 2
        omega
      rw [if_pos ⟨hpos, hx⟩, ih (fun h => h0 (List.mem_cons_of_mem _ h)) hpos (by omega), htake]
      congr 1
      split <;> split <;> omega
    · have hzero : p.toNat = 0 := by omega
      rw [if_neg (fun h => hpos h.1), hzero, List.take_zero]
      congr 1
      split <;> omega

theorem takeWhile_eq (h0 : (0 : UB) ∉ s) : s.takeWhile (· ≠ 0) = s := by
  rw [List.takeWhile_eq_self_iff]
  intro x hx
  have hne : x ≠ 0 := fun h => h0 (h ▸ hx)
  exact decide_eq_true hne

/-- When a conversion of a string prints what C asks for: the rest of its precision adds no
zeros, and it is cut where C cuts it, or what is cut off is like the filling of the field. -/
def StrReads (d : Directive) (s : List UB) : Prop :=
  if readPrec d.prec < 0 then s.length ≤ readPrec d.prec + 32767
  else readPrec d.prec ≤ 2 * s.length + 1 ∧ min (readPrec d.prec) s.length ≤ 32766 ∧
    justify d.isLeft false d.width.value
      { lead := [], body := s.take (readPrec d.prec).toNat } = d.output

/-- A plain item, in a field that has room for it. -/
theorem printed_plain (cv : Conversion) (l : Bool) (W : Nat) (flags : List Flag) (hsign : cv.sign = 0)
    (hbase : cv.base = 10) (hwid : cv.wid = W) (hW : W ≤ 32767) (hlen : cv.cbs.length ≤ 32766)
    (hextra : cv.extra ≤ 0) (hmin : -32768 < cv.extra) :
    cv.printed (flagByte l false flags) = justify l false W { lead := [], body := cv.cbs } := by
  have hlength : Text.length { lead := [], body := cv.cbs } = cv.cbs.length := Nat.zero_add _
  have hroom := room_eq cv (by omega) (by omega)
  rw [hwid, toH_eq (by omega) (by omega)] at hroom
  refine printed_eq (t := { lead := [], body := cv.cbs }) ?_ hW (by omega) hmin
    (fun h => absurd h Bool.false_ne_true) ?_ (fun _ _ _ => by omega) flags
  · rw [hlength, hroom]
    omega
  · intro k
    have hnone : signBytes 0 ++ prefixBytes 10 = [] := by decide
    rw [hsign, hbase, ← List.append_assoc, hnone, Int.toNat_of_nonpos hextra]
    rfl

/-- Values below the range of an `H`. -/
theorem toH_add {x : Int} (h : -98304 ≤ x) (h' : x < -32768) : toH x = x + 65536 := by
  have hadd : toH x = toH (x + 65536) := (Int.add_bmod_right x 65536).symm
  rw [hadd, toH_eq (by omega) (by omega)]

/-- What C prints of a string, and the code's conversion of it. -/
structure StrDirective (d : Directive) (s : List UB) : Prop where
  conv : ∃ h, d.conv = .str ⟨s, h⟩
  noZero : .zero ∉ d.flags

theorem StrDirective.output_eq (h : StrDirective d s) : d.output = justify d.isLeft false
    d.width.value { lead := [], body := CFormat.cutString d.prec.value s } := by
  obtain ⟨h0, hconv⟩ := h.conv
  have hzero : d.isZero = false := by
    unfold Directive.isZero
    rw [decide_eq_false h.noZero, Bool.false_and]
  simp only [Directive.output, Directive.text, hzero, hconv]

theorem StrDirective.conversion_eq (h : StrDirective d s) (hW : d.width.value ≤ 32767) :
    conversion d = convertStr d.width.value (readPrec d.prec) s := by
  obtain ⟨h0, hconv⟩ := h.conv
  unfold conversion
  rw [hconv, readWidth_eq hW]
  rfl

/-- The conversion when the precision that is read is negative: there is none, or it has more
than 15 bits. -/
theorem str_neg (h : StrDirective d s) (hout : d.output.length ≤ 32767)
    (hp : readPrec d.prec < 0) :
    (conversion d).printed (flagByte d.isLeft false d.flags) = d.output ↔
      s.length ≤ readPrec d.prec + 32767 := by
  obtain ⟨h0, -⟩ := h.conv
  have hmax := hout
  rw [h.output_eq, CFormat.length_justify] at hmax
  have hW : d.width.value ≤ 32767 := by omega
  have hle : -32768 ≤ readPrec d.prec := by
    cases hprec : d.prec with
    | none => decide
    | literal ds => exact le_toH _
    | star n =>
      rw [hprec] at hp
      have := readPrec_star (n := n)
      omega
  have htext : CFormat.cutString d.prec.value s = s := by
    cases hvalue : d.prec.value with
    | none => rfl
    | some P =>
      have hbig : 32767 < P := by
        by_contra hsmall
        rw [readPrec_some hvalue (by omega)] at hp
        omega
      have hlen : (s.take P).length ≤ 32767 := by
        have : (Text.length { lead := [], body := s.take P }) = (s.take P).length := Nat.zero_add _
        have hcut : CFormat.cutString (some P) s = s.take P := rfl
        rw [hvalue, hcut] at hmax
        omega
      rw [List.length_take] at hlen
      exact List.take_of_length_le (by omega)
  have hlen : s.length ≤ 32767 := by
    have : (Text.length { lead := [], body := s }) = s.length := Nat.zero_add _
    rw [htext] at hmax
    omega
  have hcv : conversion d =
      { sign := 0, base := 10, wid := d.width.value, prec := readPrec d.prec, cbs := s } := by
    rw [h.conversion_eq hW, convertStr, if_pos hp, takeWhile_eq h0]
  have hextra : (conversion d).extra = toH (readPrec d.prec - s.length) := by
    rw [hcv, Conversion.extra, toH_eq (x := s.length) (by omega) (by omega)]
  rw [h.output_eq, htext]
  constructor
  · intro heq
    have hcount := congrArg (List.count (ch '0')) heq
    rw [count_printed d.flags rfl, CFormat.count_justify, Bool.false_and,
      if_neg Bool.false_ne_true, hextra, hcv, List.count_nil] at hcount
    by_contra hlong
    have hrounds : 0 < rounds (toH (readPrec d.prec - s.length)) := by
      unfold rounds
      by_cases heq : readPrec d.prec - s.length = -32768
      · rw [heq]
        decide
      · rw [toH_add (by omega) (by omega), if_neg (by omega)]
        omega
    dsimp only at hcount
    omega
  · intro hlong
    rw [toH_eq (by omega) (by omega)] at hextra
    have hplain := printed_plain (conversion d) d.isLeft d.width.value d.flags
      (by rw [hcv]) (by rw [hcv]) (by rw [hcv]) hW (by rw [hcv]; dsimp only; omega)
      (by omega) (by omega)
    rw [hplain, hcv]

/-- The conversion when the precision that is read is one. -/
theorem str_nonneg (h : StrDirective d s) (hout : d.output.length ≤ 32767)
    (hp : 0 ≤ readPrec d.prec) :
    (conversion d).printed (flagByte d.isLeft false d.flags) = d.output ↔
      readPrec d.prec ≤ 2 * s.length + 1 ∧ min (readPrec d.prec) s.length ≤ 32766 ∧
        justify d.isLeft false d.width.value
          { lead := [], body := s.take (readPrec d.prec).toNat } = d.output := by
  obtain ⟨h0, -⟩ := h.conv
  have hp' := readPrec_le d.prec
  have hmax := hout
  rw [h.output_eq, CFormat.length_justify] at hmax
  have hW : d.width.value ≤ 32767 := by omega
  have hcv : conversion d =
      { sign := 0, base := 10, wid := d.width.value
        prec := if readPrec d.prec ≤ s.length then -1 else readPrec d.prec - s.length - 1
        cbs := s.take (readPrec d.prec).toNat } := by
    rw [h.conversion_eq hW, convertStr, if_neg (by omega), takeString_eq h0 hp hp']
  have hlen : (s.take (readPrec d.prec).toNat).length = min (readPrec d.prec).toNat s.length :=
    List.length_take
  have hextra : (conversion d).extra =
      (if readPrec d.prec ≤ s.length then -1 else readPrec d.prec - s.length - 1) -
        min (readPrec d.prec).toNat s.length := by
    rw [hcv, Conversion.extra, hlen]
    dsimp only
    rw [toH_eq (x := (min _ _ : Nat)) (by omega) (by omega), toH_eq] <;> split <;> omega
  have hplain (h1 : readPrec d.prec ≤ 2 * s.length + 1)
      (h2 : min (readPrec d.prec) s.length ≤ 32766) :
      (conversion d).printed (flagByte d.isLeft false d.flags) =
        justify d.isLeft false d.width.value
          { lead := [], body := s.take (readPrec d.prec).toNat } := by
    have hplain := printed_plain (conversion d) d.isLeft d.width.value d.flags
      (by rw [hcv]) (by rw [hcv]) (by rw [hcv]) hW
      (by rw [hcv]; dsimp only; rw [hlen]; omega)
      (by rw [hextra]; split <;> omega) (by rw [hextra]; split <;> omega)
    rw [hplain, hcv]
  constructor
  · intro heq
    have hcount := congrArg (List.count (ch '0')) heq
    rw [count_printed d.flags rfl, hextra] at hcount
    have hzeros : d.output.count (ch '0') ≤ s.count (ch '0') := by
      have hcut : (CFormat.cutString d.prec.value s).Sublist s := by
        cases d.prec.value with
        | none => exact List.Sublist.refl s
        | some P => exact List.take_sublist P s
      have hle := hcut.count_le (ch '0')
      rw [h.output_eq, CFormat.count_justify, Bool.false_and, if_neg Bool.false_ne_true,
        List.count_nil]
      dsimp only
      omega
    have hshort : d.output.count (ch '0') ≤ 32767 :=
      Nat.le_trans List.count_le_length hout
    have hcbs : (conversion d).cbs = s.take (readPrec d.prec).toNat := by rw [hcv]
    have hnumbers : readPrec d.prec ≤ 2 * s.length + 1 ∧
        min (readPrec d.prec) s.length ≤ 32766 := by
      by_cases hcut : readPrec d.prec ≤ s.length
      · rw [if_pos hcut, rounds] at hcount
        split at hcount <;> omega
      · rw [hcbs, List.take_of_length_le (by omega), if_neg hcut, rounds,
          if_neg (by omega)] at hcount
        omega
    exact ⟨hnumbers.1, hnumbers.2, (hplain hnumbers.1 hnumbers.2).symm.trans heq⟩
  · rintro ⟨h1, h2, heq⟩
    exact (hplain h1 h2).trans heq

/-! ## Directives -/

/-- When a conversion prints what C asks for. -/
def Converts (d : Directive) : Prop :=
  match d.conv with
  | .int len k v => IntReads d len k v
  | .str s => StrReads d s
  | .ptr _ | .chr _ => True

theorem allFlags_eq_flagByte (hW : d.width.value ≤ 32767) :
    allFlags d = flagByte d.isLeft (keepsZero d) d.flags := by
  rw [allFlags_eq, readWidth_eq hW]
  rfl

theorem keepsZero_of_notMem (h : .zero ∉ d.flags) : keepsZero d = false := by
  unfold keepsZero
  rw [decide_eq_false h, Bool.false_and]

theorem isZero_of_notMem (h : .zero ∉ d.flags) : d.isZero = false := by
  unfold Directive.isZero
  rw [decide_eq_false h, Bool.false_and]

/-- `0x`, but not of NULL. -/
def ptrLead (v : UW) : List UB := if v = 0 then [] else [ch '0', ch 'x']

theorem convertPtr_eq (wid prec : Int) (v : UW) (hw : 0 ≤ wid) (hw' : wid ≤ 32767) :
    (convertPtr wid prec v).prec = prec ∧
      (convertPtr wid prec v).cbs = numeral false 16 v.toNat ∧
      signBytes (convertPtr wid prec v).sign ++ prefixBytes (convertPtr wid prec v).base =
        ptrLead v ∧
      (convertPtr wid prec v).wid = wid - (ptrLead v).length := by
  unfold convertPtr ptrLead
  by_cases hv : v = 0
  · subst hv
    rw [if_neg (fun h => h rfl), if_pos rfl]
    have hzero : outint [] 0 10 = [ch '0'] := by decide
    have hnone : signBytes 0 ++ prefixBytes 10 = [] := by decide
    exact ⟨rfl, hzero, hnone, (Int.sub_zero wid).symm⟩
  · have hint := outint_eq [] v (16 ||| 0x80) false (by decide) (by decide) (by decide)
    have hmask : (((16 : UB) ||| 0x80) &&& 0x3f).toNat = 16 := by decide
    have hpre : signBytes 0 ++ prefixBytes (16 ||| 0x80) = [ch '0', ch 'x'] := by decide
    rw [hmask, List.append_nil] at hint
    rw [if_pos hv, if_neg hv]
    exact ⟨rfl, hint, hpre, toH_eq (by omega) (by omega)⟩

theorem printed_ptr {v : UW} (hconv : d.conv = .ptr v) (hout : d.output.length ≤ 32767) :
    (conversion d).printed (allFlags d) = d.output := by
  have hadmits := d.admits
  rw [hconv] at hadmits
  obtain ⟨-, hzero, hnone⟩ := hadmits
  have hW : d.width.value ≤ 32767 := by
    rw [CFormat.Directive.length_output] at hout
    omega
  have hcv : conversion d = convertPtr d.width.value (-1) v := by
    unfold conversion
    rw [hconv, readWidth_eq hW, (readPrec_none hnone).1]
    rfl
  obtain ⟨hprec, hcbs, hlead, hwid⟩ :=
    convertPtr_eq d.width.value (-1) v (by omega) (by omega)
  rw [← hcv] at hprec hcbs hlead hwid
  have hnum := length_numeral_word false (show 8 ≤ 16 by decide) v
  have htext : d.text = { lead := ptrLead v, body := numeral false 16 v.toNat } := by
    unfold Directive.text
    rw [hconv]
    rfl
  have hleadlen : (ptrLead v).length ≤ 2 := by
    unfold ptrLead
    split <;> decide
  have hlen : d.text.length = (ptrLead v).length + (numeral false 16 v.toNat).length := by
    rw [htext]
    rfl
  have hextra : (conversion d).extra = -1 - (numeral false 16 v.toNat).length := by
    rw [Conversion.extra, hprec, hcbs, toH_eq (x := (List.length _ : Nat)) (by omega) (by omega),
      toH_eq (by omega) (by omega)]
  have hroom := room_eq (conversion d) (by rw [hcbs]; omega) (by rw [hcbs]; omega)
  rw [hcbs, hwid, toH_eq (by omega) (by omega)] at hroom
  rw [allFlags_eq_flagByte hW, keepsZero_of_notMem hzero, CFormat.Directive.output,
    isZero_of_notMem hzero]
  refine printed_eq ?_ hW (by omega) (by omega) (fun h => absurd h Bool.false_ne_true) ?_
    (fun _ _ _ => by omega) d.flags
  · omega
  · intro k
    rw [← List.append_assoc, hlead, hcbs, Int.toNat_of_nonpos (by omega), htext]
    rfl

theorem printed_chr {v : UW} (hconv : d.conv = .chr v) (hout : d.output.length ≤ 32767) :
    (conversion d).printed (allFlags d) = d.output := by
  have hadmits := d.admits
  rw [hconv] at hadmits
  obtain ⟨-, hzero, hnone⟩ := hadmits
  have hW : d.width.value ≤ 32767 := by
    rw [CFormat.Directive.length_output] at hout
    omega
  have hcv : conversion d =
      { sign := 0, base := 10, wid := d.width.value, prec := 0, cbs := [v.setWidth 8] } := by
    unfold conversion
    rw [hconv, readWidth_eq hW]
    rfl
  have hextra : (conversion d).extra = -1 := by
    have hminus : toH (0 - toH (1 : Nat)) = -1 := by decide
    rw [hcv, Conversion.extra]
    exact hminus
  have hplain := printed_plain (conversion d) d.isLeft d.width.value d.flags
    (by rw [hcv]) (by rw [hcv]) (by rw [hcv]) hW
    (by rw [hcv]; exact Nat.le_of_ble_eq_true rfl) (by omega) (by omega)
  rw [allFlags_eq_flagByte hW, keepsZero_of_notMem hzero, CFormat.Directive.output,
    isZero_of_notMem hzero, hplain, hcv]
  unfold Directive.text
  rw [hconv]

theorem printed_eq_output_iff (hout : d.output.length ≤ 32767) :
    (conversion d).printed (allFlags d) = d.output ↔ Converts d := by
  have hmax := hout
  rw [CFormat.Directive.length_output] at hmax
  have hW : d.width.value ≤ 32767 := by omega
  unfold Converts
  cases hconv : d.conv with
  | ptr v => exact iff_true_intro (printed_ptr hconv hout)
  | chr v => exact iff_true_intro (printed_chr hconv hout)
  | str s =>
    obtain ⟨s, h0⟩ := s
    have hadmits := d.admits
    rw [hconv] at hadmits
    have hs : StrDirective d s := ⟨⟨h0, hconv⟩, hadmits.2⟩
    rw [allFlags_eq_flagByte hW, keepsZero_of_notMem hadmits.2]
    dsimp only
    unfold StrReads
    split
    · rename_i hp
      exact str_neg hs hout hp
    · rename_i hp
      exact str_nonneg hs hout (by omega)
  | int len k v =>
    have htext : d.text = d.intText len k v := by
      unfold Directive.text
      rw [hconv]
    have hs : IntShape (conversion d) d.flags d.width.value (readPrec d.prec) len k v := by
      unfold conversion
      rw [hconv, allFlags_eq_flagByte hW, readWidth_eq hW]
      exact convertInt_shape len k (by omega) (by omega)
    rw [allFlags_eq_flagByte hW, CFormat.Directive.output, htext]
    rw [htext] at hmax
    dsimp only
    by_cases hnone : d.prec.isNone = true
    · have hvalue := (readPrec_none hnone).2
      have hshort := length_intText_none len k v hvalue
      refine iff_of_true (int_none hs hnone hW) ⟨?_, ?_, ?_⟩
      · exact fun h => absurd (hnone.symm.trans h.1) (by decide)
      · exact fun _ _ P hP => nomatch hvalue.symm.trans hP
      · omega
    · cases hvalue : d.prec.value with
      | none =>
        have hneg : IsNegStar d.prec := ⟨Bool.eq_false_of_not_eq_true hnone, hvalue⟩
        have hshort := length_intText_none len k v hvalue
        rw [int_negStar hs hneg hW]
        constructor
        · intro h
          exact ⟨fun _ => h, (fun _ _ P hP => nomatch hvalue.symm.trans hP), by omega⟩
        · exact fun h => h.negStar hneg
      | some P =>
        rw [int_some hs hvalue hW (by omega)]
        constructor
        · rintro ⟨hoctal, htail⟩
          exact ⟨(fun h => nomatch hvalue.symm.trans h.2), hoctal, htail⟩
        · exact fun h => ⟨h.octal, h.tail⟩

/-! ## Formats -/

theorem store_of_lt {mem : Int → UB} {bufp j : Int} {xs : List UB} (h : j < bufp) :
    store mem bufp xs j = mem j := by
  induction xs generalizing mem bufp with
  | nil => rfl
  | cons x xs ih => rw [store, ih (by omega), Function.update_of_ne (by omega)]

theorem store_of_ge {mem : Int → UB} {bufp j : Int} {xs : List UB} (h : bufp + xs.length ≤ j) :
    store mem bufp xs j = mem j := by
  induction xs generalizing mem bufp with
  | nil => rfl
  | cons x xs ih =>
    rw [List.length_cons] at h
    rw [store, ih (by push_cast at h; omega), Function.update_of_ne (by push_cast at h; omega)]

theorem store_at {mem : Int → UB} {bufp : Int} {xs : List UB} {i : Nat} (h : i < xs.length) :
    store mem bufp xs (bufp + i) = xs[i] := by
  induction xs generalizing mem bufp i with
  | nil => exact absurd h (Nat.not_lt_zero i)
  | cons x xs ih =>
    cases i with
    | zero =>
      rw [store, store_of_lt (by omega), List.getElem_cons_zero]
      have hcell : bufp + ((0 : Nat) : Int) = bufp := Int.add_zero bufp
      rw [hcell, Function.update_self]
    | succ i =>
      have hcell : bufp + ((i + 1 : Nat) : Int) = bufp + 1 + i := by
        push_cast
        omega
      rw [store, hcell, ih (Nat.lt_of_succ_lt_succ h), List.getElem_cons_succ]

/-- A buffer that starts `n` bytes further on. -/
theorem store_shift (mem : Int → UB) (n bufp : Int) (xs : List UB) :
    store (fun i => mem (n + i)) bufp xs = fun i => store mem (n + bufp) xs (n + i) := by
  induction xs generalizing mem bufp with
  | nil => rfl
  | cons x xs ih =>
    have hcell : Function.update (fun i => mem (n + i)) bufp x =
        fun i => Function.update mem (n + bufp) x (n + i) := by
      funext i
      by_cases hi : i = bufp
      · rw [hi, Function.update_self, Function.update_self]
      · rw [Function.update_of_ne hi, Function.update_of_ne (by omega)]
    rw [store, store, hcell, ih, Int.add_assoc]

/-- What was in the first cell is written over. -/
theorem store_over (mem : Int → UB) (bufp : Int) (x y : UB) (xs : List UB) :
    store (Function.update mem bufp x) bufp (xs ++ [y]) = store mem bufp (xs ++ [y]) := by
  cases xs with
  | nil => exact Function.update_idem ..
  | cons z xs => rw [List.cons_append, store, store, Function.update_idem]

/-- Up to 32767 bytes are counted, and the NUL stands behind them. -/
theorem tmSprintf_counts {f : List Item} (hlen : (printed f).length ≤ 32767) (mem : Int → UB) :
    tmSprintf mem (CFormat.spell f) (CFormat.args f) =
      some (store mem 0 (printed f ++ [0]), ((printed f).length : Int)) := by
  rw [tmSprintf_spell, toH_eq (by omega) (by omega), store_append, Int.zero_add]
  rfl

/-- The call does what C's does: the bytes and a NUL are in the buffer, nothing else of it has
changed, and the result is the number of the bytes. -/
def Right (f : List Item) : Prop :=
  ∀ mem, tmSprintf mem (CFormat.spell f) (CFormat.args f) =
    some (store mem 0 (CFormat.output f ++ [0]), ((CFormat.output f).length : Int))

theorem right_of_printed {f : List Item} (hlen : (CFormat.output f).length ≤ 32767)
    (h : printed f = CFormat.output f) : Right f := by
  intro mem
  rw [tmSprintf_counts (h ▸ hlen), h]

theorem length_of_right {f : List Item} (h : Right f) : (CFormat.output f).length ≤ 32767 := by
  have hresult := congrArg (Option.map Prod.snd) (h fun _ => 0)
  rw [tmSprintf_spell, Option.map_some, Option.map_some] at hresult
  have hle := toH_le (printed f).length
  have heq := Option.some.inj hresult
  dsimp only at heq
  omega

/-- What the buffer holds is what has been printed. -/
theorem printed_of_right {f : List Item} (h : Right f) : printed f = CFormat.output f := by
  have hlen := length_of_right h
  have hcall (mem : Int → UB) : Function.update (store mem 0 (printed f))
      (toH (printed f).length) 0 = store mem 0 (CFormat.output f ++ [0]) ∧
      toH (printed f).length = (CFormat.output f).length := by
    have heq := h mem
    rw [tmSprintf_spell] at heq
    exact Prod.mk.inj (Option.some.inj heq)
  have hresult := (hcall fun _ => 0).2
  have hmem (mem : Int → UB) {i : Int} (hi : i ≠ (CFormat.output f).length) :
      store mem 0 (printed f) i = store mem 0 (CFormat.output f ++ [0]) i := by
    have heq := congrFun (hcall mem).1 i
    rw [hresult, Function.update_of_ne hi] at heq
    exact heq
  have hbytes (mem : Int → UB) {i : Nat} (hi : i < (printed f).length) :
      store mem 0 (printed f) i = (printed f)[i] := by
    have hat : store mem 0 (printed f) (0 + (i : Int)) = (printed f)[i] := store_at hi
    rw [Int.zero_add] at hat
    exact hat
  have hle : (CFormat.output f).length ≤ (printed f).length := by
    by_contra hshort
    rw [toH_eq (by omega) (by omega)] at hresult
    omega
  have hge : (printed f).length ≤ (CFormat.output f).length := by
    by_contra hlong
    -- 65536 bytes more at least, and C has not stored the second one of them
    have hfar : (CFormat.output f).length + 1 < (printed f).length := by
      by_contra hnear
      rw [toH, Int.bmod_eq_emod] at hresult
      split at hresult <;> omega
    have hother := hmem (fun _ => (printed f)[(CFormat.output f).length + 1] + 1)
      (i := ((CFormat.output f).length + 1 : Nat)) (by omega)
    rw [hbytes _ hfar, store_of_ge (by rw [List.length_append, List.length_singleton]; omega)]
      at hother
    have hne (x : UB) : x ≠ x + 1 := by
      intro hx
      have := congrArg BitVec.toNat hx
      rw [BitVec.toNat_add] at this
      have hlt := x.isLt
      have hone : (1 : UB).toNat = 1 := rfl
      omega
    exact hne _ hother
  apply List.ext_getElem (Nat.le_antisymm hge hle)
  intro i hi hi'
  have hcell := hmem (fun _ => 0) (i := i) (by omega)
  have hat : store (fun _ => 0) 0 (CFormat.output f ++ [0]) (0 + (i : Int)) = _ :=
    store_at (by rw [List.length_append]; omega)
  rw [Int.zero_add, List.getElem_append_left hi'] at hat
  rw [hbytes _ hi, hat] at hcell
  exact hcell

theorem output_append (f g : List Item) :
    CFormat.output (f ++ g) = CFormat.output f ++ CFormat.output g := List.flatMap_append

theorem printed_append (f g : List Item) : printed (f ++ g) = printed f ++ printed g :=
  List.flatMap_append

/-- A format in two parts: the call does what two calls do, the second of them where the first one
has stored its NUL. -/
theorem sprintf_composes {f g : List Item} (hlen : (printed (f ++ g)).length ≤ 32767)
    (mem : Int → UB) :
    ∃ m₁ n₁ m₂ n₂ m,
      tmSprintf mem (CFormat.spell f) (CFormat.args f) = some (m₁, n₁) ∧
      tmSprintf (fun i => m₁ (n₁ + i)) (CFormat.spell g) (CFormat.args g) = some (m₂, n₂) ∧
      tmSprintf mem (CFormat.spell (f ++ g)) (CFormat.args (f ++ g)) = some (m, n₁ + n₂) ∧
      ∀ i, m i = if i < n₁ then m₁ i else m₂ (i - n₁) := by
  have hsum : (printed (f ++ g)).length = (printed f).length + (printed g).length := by
    rw [printed_append, List.length_append]
  refine ⟨_, _, _, _, store mem 0 (printed (f ++ g) ++ [0]), tmSprintf_counts (by omega) mem,
    tmSprintf_counts (by omega) _, ?_, fun i => ?_⟩
  · rw [tmSprintf_counts hlen, hsum, Int.natCast_add]
  · have hall : store mem 0 (printed (f ++ g) ++ [0]) =
        store (store mem 0 (printed f)) (printed f).length (printed g ++ [0]) := by
      rw [printed_append, List.append_assoc, store_append, Int.zero_add]
    have hfirst : store mem 0 (printed f ++ [0]) =
        Function.update (store mem 0 (printed f)) (printed f).length 0 := by
      rw [store_append, Int.zero_add]
      rfl
    rw [hall, hfirst]
    split
    · rename_i hi
      rw [store_of_lt hi, Function.update_of_ne (by omega)]
    · rw [store_shift, Int.add_zero, store_over]
      exact congrArg _ (by omega)

/-- Two bytes that are copied and a number. -/
theorem sprintf_composes_number : ∃ f g, (printed (f ++ g)).length ≤ 32767 ∧
    printed f = [ch 'n', ch '='] ∧ printed g = [ch '4', ch '2'] ∧
      ∃ m₁ n₁ m₂ n₂ m,
        tmSprintf (fun _ => 0) (CFormat.spell f) (CFormat.args f) = some (m₁, n₁) ∧
        tmSprintf (fun i => m₁ (n₁ + i)) (CFormat.spell g) (CFormat.args g) = some (m₂, n₂) ∧
        tmSprintf (fun _ => 0) (CFormat.spell (f ++ g)) (CFormat.args (f ++ g)) =
          some (m, n₁ + n₂) ∧
        ∀ i, m i = if i < n₁ then m₁ i else m₂ (i - n₁) := by
  let f : List Item := [.text ⟨ch 'n', by decide⟩, .text ⟨ch '=', by decide⟩]
  let g : List Item :=
    [.directive
      { flags := [], width := .none, prec := .none, conv := .int .none .d 42, admits := by decide }]
  have hlen : (printed (f ++ g)).length ≤ 32767 := by decide +kernel
  exact ⟨f, g, hlen, by decide +kernel, by decide +kernel, sprintf_composes hlen fun _ => 0⟩

theorem printed_eq_output {f : List Item}
    (h : ∀ d, .directive d ∈ f → (conversion d).printed (allFlags d) = d.output) :
    printed f = CFormat.output f := by
  induction f with
  | nil => rfl
  | cons i f ih =>
    rw [printed_cons, ih (fun d hd => h d (List.mem_cons_of_mem _ hd))]
    show _ = i.output ++ CFormat.output f
    congr 1
    cases i with
    | text b => rfl
    | directive d => exact h d List.mem_cons_self

theorem length_output_le {f : List Item} (hd : .directive d ∈ f) :
    d.output.length ≤ (CFormat.output f).length := by
  obtain ⟨f₁, f₂, rfl⟩ := List.append_of_mem hd
  rw [output_append, List.length_append]
  show _ ≤ _ + (d.output ++ CFormat.output f₂).length
  rw [List.length_append]
  omega

/-- A format is a whole only with its beginnings: what one conversion prints too much, another
one may leave out. -/
theorem sprintf_right_iff (f : List Item) :
    (∀ g, g <+: f → Right g) ↔
      (CFormat.output f).length ≤ 32767 ∧ ∀ d, .directive d ∈ f → Converts d := by
  constructor
  · intro h
    have hlen := length_of_right (h f (List.prefix_refl f))
    refine ⟨hlen, ?_⟩
    intro d hd
    obtain ⟨f₁, f₂, rfl⟩ := List.append_of_mem hd
    have hwith := printed_of_right (h (f₁ ++ [.directive d]) ⟨f₂, by simp⟩)
    have hbefore := printed_of_right (h f₁ (List.prefix_append _ _))
    rw [printed_append, output_append, hbefore] at hwith
    have hone := List.append_cancel_left hwith
    rw [← printed_eq_output_iff (Nat.le_trans (length_output_le hd) hlen)]
    simpa [printed, Item.printed, CFormat.output, CFormat.Item.output] using hone
  · rintro ⟨hlen, hall⟩ g ⟨f₂, rfl⟩
    rw [output_append, List.length_append] at hlen
    apply right_of_printed (by omega)
    apply printed_eq_output
    intro d hd
    have hshort := length_output_le hd
    exact (printed_eq_output_iff (by omega)).2 (hall d (List.mem_append_left _ hd))

/-- `%.10s` of `abc`. -/
def stringPrecision : List Item :=
  [.directive
    { flags := [], width := .none, prec := .literal [1, 0]
      conv := .str ⟨[ch 'a', ch 'b', ch 'c'], by decide⟩
      admits := by decide }]

/-- Six bytes instead of three. -/
theorem stringPrecision_wrong :
    printed stringPrecision = [ch '0', ch '0', ch '0', ch 'a', ch 'b', ch 'c'] ∧
      CFormat.output stringPrecision = [ch 'a', ch 'b', ch 'c'] ∧ ¬Right stringPrecision := by
  have hprinted : printed stringPrecision =
      [ch '0', ch '0', ch '0', ch 'a', ch 'b', ch 'c'] := by decide +kernel
  have houtput : CFormat.output stringPrecision = [ch 'a', ch 'b', ch 'c'] := by decide +kernel
  refine ⟨hprinted, houtput, ?_⟩
  intro h
  have heq := printed_of_right h
  rw [hprinted, houtput] at heq
  exact absurd heq (by decide)

end Printf

end Mtk3Smp
