import Mtk3Smp.Tmonitor.Printf
import Mathlib.Algebra.Order.Ring.Int

/-!
# How `tm_vsprintf` reads a format

On the string and the arguments of a C format it never fails: every directive is read as one
`Conversion`, and what comes out is the concatenation of what the conversions print. Nothing is
said here about whether that is what C asks for.
-/

namespace Mtk3Smp

namespace Printf

open CFormat (ch Arg Flag Width Precision Length IntConv Conv Directive Item literalBytes literalValue)

/-! ## Variables of 16 bits -/

theorem toH_eq {x : Int} (h : -32768 ≤ x) (h' : x ≤ 32767) : toH x = x :=
  Int.bmod_eq_of_le (by omega) (by omega)

theorem le_toH (x : Int) : -32768 ≤ toH x := Int.le_bmod (by decide)

theorem toH_le (x : Int) : toH x ≤ 32767 := by
  have h := Int.bmod_lt (x := x) (m := 65536) (by decide)
  unfold toH
  omega

theorem toH_toH_add (x y : Int) : toH (toH x + y) = toH (x + y) := Int.bmod_add_bmod

theorem toH_toH_digit (x y : Int) : toH (toH x * 10 + y) = toH (x * 10 + y) := by
  unfold toH
  rw [← Int.bmod_add_bmod, Int.bmod_mul_bmod, Int.bmod_add_bmod]

/-! ## Output -/

theorem store_append (mem : Int → UB) (bufp : Int) (xs ys : List UB) :
    store mem bufp (xs ++ ys) = store (store mem bufp xs) (bufp + xs.length) ys := by
  induction xs generalizing mem bufp with
  | nil => simp [store]
  | cons x xs ih =>
    rw [List.cons_append, store, ih, store, List.length_cons]
    have hcount : bufp + 1 + (xs.length : Int) = bufp + ((xs.length + 1 : Nat) : Int) := by
      push_cast
      omega
    rw [hcount]

theorem outBuf_outBuf (xs ys : List UB) (par : OutPar) :
    outBuf ys (outBuf xs par) = outBuf (xs ++ ys) par := by
  unfold outBuf
  have hcount (n : Int) : n + xs.length + ys.length = n + ((xs ++ ys).length : Int) := by
    rw [List.length_append]
    push_cast
    omega
  rw [store_append, toH_toH_add, hcount, hcount]

variable {par : OutPar}

/-- How often a loop `while (--wid >= 0)` goes round. -/
def rounds (wid : Int) : Nat := if wid = -32768 then 32768 else wid.toNat

/-- `wid` behind the loop. -/
def behind (wid : Int) : Int := if wid = -32768 ∨ 0 ≤ wid then -1 else wid - 1

theorem rounds_of_nonneg {wid : Int} (h : 0 ≤ wid) : rounds wid = wid.toNat := if_neg (by omega)

theorem outWhile_nat (x : UB) (n fuel : Nat) (hn : n ≤ 32767) (hfuel : n < fuel) (out : List UB) :
    outWhile x fuel n (outBuf out par) = (-1, outBuf (out ++ List.replicate n x) par) := by
  induction n generalizing fuel out with
  | zero =>
    obtain ⟨fuel, rfl⟩ := Nat.exists_eq_add_of_lt hfuel
    rw [outWhile, if_neg (by decide), List.replicate_zero, List.append_nil]
    rfl
  | succ n ih =>
    obtain ⟨fuel, rfl⟩ : ∃ k, fuel = k + 1 := ⟨fuel - 1, by omega⟩
    have hw : toH ((n + 1 : Nat) - 1 : Int) = n := by
      rw [toH_eq (by omega) (by omega)]
      omega
    rw [outWhile, hw, if_pos (by omega), outBuf_outBuf, ih fuel (by omega) (by omega),
      List.append_assoc, List.singleton_append, List.replicate_succ]

theorem outWhile_eq (x : UB) {wid : Int} (h : -32768 ≤ wid) (h' : wid ≤ 32767) (out : List UB) :
    outWhile x H_VALUES wid (outBuf out par) =
      (behind wid, outBuf (out ++ List.replicate (rounds wid) x) par) := by
  unfold behind rounds
  by_cases hmin : wid = -32768
  · -- the decrement wraps, and 32767 rounds follow the first one
    rw [if_pos (Or.inl hmin), if_pos hmin, hmin]
    have hw : toH (-32768 - 1) = 32767 := by decide
    have hfuel : H_VALUES = 65535 + 1 := rfl
    rw [hfuel, outWhile, hw, if_pos (by decide), outBuf_outBuf]
    have hrest : outWhile x 65535 ((32767 : Nat) : Int) (outBuf (out ++ [x]) par) = _ :=
      outWhile_nat x 32767 65535 (Nat.le_refl _) (by decide) (out ++ [x])
    rw [List.append_assoc, List.singleton_append, ← List.replicate_succ] at hrest
    exact hrest
  · rw [if_neg hmin]
    by_cases hneg : 0 ≤ wid
    · obtain ⟨n, rfl⟩ := Int.eq_ofNat_of_zero_le hneg
      rw [if_pos (Or.inr hneg), Int.toNat_natCast]
      exact outWhile_nat x n H_VALUES (by omega) (by unfold H_VALUES; omega) out
    · have hfuel : H_VALUES = 65535 + 1 := rfl
      have hw : toH (wid - 1) = wid - 1 := toH_eq (by omega) (by omega)
      rw [if_neg (by omega), hfuel, outWhile, hw, if_neg (by omega),
        Int.toNat_of_nonpos (by omega), List.replicate_zero, List.append_nil]

/-! ## What a conversion prints -/

def signBytes (sign : UB) : List UB := if sign ≠ 0 then [sign] else []

def prefixBytes (base : UB) : List UB :=
  if base &&& 0x80 ≠ 0 then
    if base &&& 0x10 ≠ 0 then [ch '0', if base &&& 0x40 ≠ 0 then ch 'X' else ch 'x']
    else [ch '0']
  else []

theorem outSign_eq (sign : UB) (out : List UB) :
    outSign sign (outBuf out par) = outBuf (out ++ signBytes sign) par := by
  unfold outSign signBytes
  split
  · rw [outBuf_outBuf]
  · rw [List.append_nil]

theorem outPrefix_eq (base : UB) (out : List UB) :
    outPrefix base (outBuf out par) = outBuf (out ++ prefixBytes base) par := by
  unfold outPrefix prefixBytes
  split
  · split
    · rw [outBuf_outBuf, outBuf_outBuf]
      rfl
    · rw [outBuf_outBuf]
  · rw [List.append_nil]

namespace Conversion

variable (cv : Conversion)

/-- What the precision adds to the item. -/
def extra : Int := toH (cv.prec - toH cv.cbs.length)

/-- What the field has room for beside the item. -/
def room : Int :=
  toH (cv.wid - if cv.extra > 0 then toH (toH cv.cbs.length + cv.extra) else toH cv.cbs.length)

/-- The sign, the prefix, `zeros` zeros and the item. -/
def middle (zeros : Int) : List UB :=
  signBytes cv.sign ++ (prefixBytes cv.base ++
    (List.replicate (rounds zeros) (ch '0') ++ cv.cbs))

/-- Filled with spaces in front, with zeros, or behind. -/
def printed (flg : UB) : List UB :=
  if flg &&& (F_LEFT ||| F_ZERO) = 0 then
    List.replicate (rounds cv.room) (ch ' ') ++
      (cv.middle cv.extra ++ List.replicate (rounds (behind cv.room)) (ch ' '))
  else if cv.extra ≤ 0 ∧ flg &&& (F_LEFT ||| F_ZERO) = F_ZERO then cv.middle cv.room
  else cv.middle cv.extra ++ List.replicate (rounds cv.room) (ch ' ')

theorem extra_mem : -32768 ≤ cv.extra ∧ cv.extra ≤ 32767 := ⟨le_toH _, toH_le _⟩

theorem room_mem : -32768 ≤ cv.room ∧ cv.room ≤ 32767 := ⟨le_toH _, toH_le _⟩

end Conversion

theorem behind_mem {wid : Int} (h : -32768 ≤ wid) (h' : wid ≤ 32767) :
    -32768 ≤ behind wid ∧ behind wid ≤ 32767 := by
  unfold behind
  split <;> omega

theorem rounds_zero : rounds 0 = 0 := rfl

theorem outItem_eq (flg : UB) (cv : Conversion) (out : List UB) :
    outItem flg cv (outBuf out par) = outBuf (out ++ cv.printed flg) par := by
  obtain ⟨hr, hr'⟩ := cv.room_mem
  obtain ⟨he, he'⟩ := cv.extra_mem
  obtain ⟨hb, hb'⟩ := behind_mem hr hr'
  have hzero : F_ZERO ≠ 0 := by decide
  unfold outItem Conversion.printed
  simp only [← Conversion.extra.eq_1, ← Conversion.room.eq_1]
  by_cases hright : flg &&& (F_LEFT ||| F_ZERO) = 0
  · have hnz : ¬(cv.extra ≤ 0 ∧ flg &&& (F_LEFT ||| F_ZERO) = F_ZERO) := by
      rintro ⟨-, h⟩
      exact hzero (h.symm.trans hright)
    simp only [if_pos hright, if_neg hnz]
    rw [outWhile_eq _ hr hr', outSign_eq, outPrefix_eq, outWhile_eq _ he he', outBuf_outBuf,
      outWhile_eq _ hb hb']
    simp only [Conversion.middle, List.append_assoc]
  · simp only [if_neg hright]
    rw [outSign_eq, outPrefix_eq]
    split
    · rw [outWhile_eq _ hr hr', outBuf_outBuf]
      dsimp only
      rw [outWhile_eq _ (by decide) (by decide), rounds_zero]
      simp only [Conversion.middle, List.append_assoc, List.replicate_zero, List.append_nil]
    · rw [outWhile_eq _ he he', outBuf_outBuf, outWhile_eq _ hr hr']
      simp only [Conversion.middle, List.append_assoc]

/-! ## What a directive is read as -/

/-- The cursor on the first of the bytes. -/
def atBytes (bs : List UB) (ap : List Arg) : Cursor := Cursor.next { c := 0, fmt := bs, ap := ap }

theorem next_eq (c : UB) (fmt : List UB) (ap : List Arg) :
    Cursor.next { c := c, fmt := fmt, ap := ap } = atBytes fmt ap := by
  cases fmt <;> rfl

def flagBit : Flag → UB
  | .minus => F_LEFT
  | .plus => F_PLUS
  | .space => F_SPACE
  | .hash => F_PREFIX
  | .zero => F_ZERO

def flagBits (flg : UB) (flags : List Flag) : UB := flags.foldl (fun flg f => flg ||| flagBit f) flg

/-- `-` or not, and `wid`. -/
def readWidth : Width → Bool × Int
  | .none => (false, 0)
  | .literal d ds => (false, toH (literalValue (d.1 :: ds)))
  | .star n => if toH n.toInt < 0 then (true, toH (-toH n.toInt)) else (false, toH n.toInt)

def readPrec : Precision → Int
  | .none => -1
  | .literal ds => toH (literalValue ds)
  | .star n => if toH n.toInt < 0 then 0 else toH n.toInt

def qualByte : Length → UB
  | .none => 0
  | .h => ch 'h'
  | .l => ch 'l'

def convert (flg : UB) (wid prec : Int) : Conv → Conversion
  | .int len k v => convertInt flg wid prec k.byte (qualByte len) v
  | .ptr v => convertPtr wid prec v
  | .str s => convertStr wid prec s
  | .chr v => convertChr wid v

/-- `flg` behind the field width. -/
def widthFlags (d : Directive) : UB :=
  if (readWidth d.width).1 then flagBits 0 d.flags ||| F_LEFT else flagBits 0 d.flags

/-- `flg` behind the precision. -/
def allFlags (d : Directive) : UB :=
  if d.prec.isNone then widthFlags d else widthFlags d &&& ~~~F_ZERO

def conversion (d : Directive) : Conversion :=
  convert (allFlags d) (readWidth d.width).2 (readPrec d.prec) d.conv

def isFlagByte (c : UB) : Bool := c ∈ [ch '-', ch '+', ch ' ', ch '#', ch '0']

theorem getFlags_byte (ap : List Arg) (flg : UB) (f : Flag) (fmt : List UB) :
    getFlags ap flg (f.byte :: fmt) = getFlags ap (flg ||| flagBit f) fmt := by
  cases f <;> rfl

theorem getFlags_spell (ap : List Arg) (flg : UB) (flags : List Flag) {c : UB} (fmt : List UB)
    (hc : isFlagByte c = false) :
    getFlags ap flg (flags.map Flag.byte ++ c :: fmt) =
      (flagBits flg flags, { c := c, fmt := fmt, ap := ap }) := by
  induction flags generalizing flg with
  | nil =>
    simp only [isFlagByte, List.mem_cons, List.not_mem_nil, or_false, decide_eq_false_iff_not,
      not_or] at hc
    obtain ⟨h1, h2, h3, h4, h5⟩ := hc
    rw [List.map_nil, List.nil_append, getFlags, if_neg h1, if_neg h2, if_neg h3, if_neg h4,
      if_neg h5]
    rfl
  | cons f flags ih =>
    rw [List.map_cons, List.cons_append, getFlags_byte, ih]
    rfl

theorem getDigits_stop {ap : List Arg} {x : Int} {c : UB} {fmt : List UB} (hc : isDigit c = false) :
    getDigits ap x c fmt = (x, { c := c, fmt := fmt, ap := ap }) := by
  have hno : ¬isDigit c = true := by
    rw [hc]
    exact Bool.false_ne_true
  cases fmt with
  | nil => rw [getDigits, if_neg hno]
  | cons c' fmt => rw [getDigits, if_neg hno]

theorem getDigits_go {ap : List Arg} {x : Int} {c : UB} {fmt : List UB} (hc : isDigit c = true) :
    getDigits ap x c fmt =
      getDigits ap (toH (x * 10 + c.toNat - 0x30)) (atBytes fmt ap).c (atBytes fmt ap).fmt := by
  cases fmt with
  | nil =>
    rw [getDigits, if_pos hc]
    exact (getDigits_stop rfl).symm
  | cons c' fmt =>
    rw [getDigits, if_pos hc]
    rfl

theorem isDigit_digitByte (d : Fin 10) : isDigit (CFormat.digitByte false d) = true := by
  revert d
  decide

theorem toNat_digitByte (d : Fin 10) : (CFormat.digitByte false d).toNat = 0x30 + d := by
  revert d
  decide

theorem getDigits_spell (ap : List Arg) (ds : List (Fin 10)) (x : Nat) {c : UB} (fmt : List UB)
    (hc : isDigit c = false) :
    getDigits ap (toH x) (atBytes (literalBytes ds ++ c :: fmt) ap).c
        (atBytes (literalBytes ds ++ c :: fmt) ap).fmt =
      (toH (ds.foldl (fun x d => x * 10 + d.val) x : Nat), { c := c, fmt := fmt, ap := ap }) := by
  induction ds generalizing x with
  | nil => exact getDigits_stop hc
  | cons d ds ih =>
    have hstep : toH (toH x * 10 + (CFormat.digitByte false d).toNat - 0x30) =
        toH (x * 10 + d : Nat) := by
      rw [toNat_digitByte, Int.add_sub_assoc, toH_toH_digit]
      push_cast
      congr 1
      omega
    have hgo := ih (x * 10 + d)
    rw [← hstep] at hgo
    exact (getDigits_go (isDigit_digitByte d)).trans hgo

theorem getDigits_literal (ap : List Arg) (ds : List (Fin 10)) {c : UB} (fmt : List UB)
    (hc : isDigit c = false) :
    getDigits ap 0 (atBytes (literalBytes ds ++ c :: fmt) ap).c
        (atBytes (literalBytes ds ++ c :: fmt) ap).fmt =
      (toH (literalValue ds), { c := c, fmt := fmt, ap := ap }) := by
  have h := getDigits_spell ap ds 0 fmt hc
  have hzero : toH ((0 : Nat) : Int) = 0 := by decide
  rw [hzero] at h
  exact h

theorem ap_atBytes (bs : List UB) (ap : List Arg) : (atBytes bs ap).ap = ap := by
  cases bs <;> rfl

theorem getWidth_digits (flg : UB) {k : Cursor} (hs : k.c ≠ ch '*') :
    getWidth flg k = some (flg, getDigits k.ap 0 k.c k.fmt) := if_neg hs

theorem getWidth_star (flg : UB) (n : UW) (fmt : List UB) (ap : List Arg) :
    getWidth flg { c := ch '*', fmt := fmt, ap := .word n :: ap } =
      some (if (readWidth (.star n)).1 then flg ||| F_LEFT else flg, (readWidth (.star n)).2,
        atBytes fmt ap) := by
  unfold getWidth readWidth
  rw [if_pos rfl]
  dsimp only [Cursor.vaWord, Option.map_some]
  rw [next_eq]
  split <;> rfl

theorem getWidth_spell (flg : UB) (w : Width) {c : UB} (fmt : List UB) (ap : List Arg)
    (hd : isDigit c = false) (hs : c ≠ ch '*') :
    getWidth flg (atBytes (w.spell ++ c :: fmt) (w.args ++ ap)) =
      some (if (readWidth w).1 then flg ||| F_LEFT else flg, (readWidth w).2,
        { c := c, fmt := fmt, ap := ap }) := by
  cases w with
  | none =>
    have h := getWidth_digits flg (k := { c := c, fmt := fmt, ap := ap }) hs
    rw [getDigits_stop hd] at h
    exact h
  | literal d ds =>
    have hne (d : Fin 10) : CFormat.digitByte false d ≠ ch '*' := by
      revert d
      decide
    have h := getWidth_digits flg (k := atBytes (literalBytes (d.1 :: ds) ++ c :: fmt) ap) (hne d.1)
    rw [ap_atBytes, getDigits_literal ap (d.1 :: ds) fmt hd] at h
    have hargs : (Width.literal d ds).args = [] := rfl
    rw [Width.spell, hargs, List.nil_append, h]
    simp only [readWidth, Bool.false_eq_true, if_false]
  | star n => exact getWidth_star flg n (c :: fmt) ap

theorem getPrec_literal (flg : UB) (ds : List (Fin 10)) {c : UB} (fmt : List UB) (ap : List Arg)
    (hd : isDigit c = false) (hs : c ≠ ch '*') :
    getPrec flg { c := ch '.', fmt := literalBytes ds ++ c :: fmt, ap := ap } =
      some (flg &&& ~~~F_ZERO, toH (literalValue ds), { c := c, fmt := fmt, ap := ap }) := by
  have hne : (atBytes (literalBytes ds ++ c :: fmt) ap).c ≠ ch '*' := by
    cases ds with
    | nil => exact hs
    | cons d ds =>
      have hdigit (d : Fin 10) : CFormat.digitByte false d ≠ ch '*' := by
        revert d
        decide
      exact hdigit d
  unfold getPrec
  rw [if_pos rfl, next_eq]
  dsimp only
  rw [if_neg hne, ap_atBytes, getDigits_literal ap ds fmt hd]

theorem getPrec_spell (flg : UB) (p : Precision) {c : UB} (fmt : List UB) (ap : List Arg)
    (hd : isDigit c = false) (hs : c ≠ ch '*') (hp : c ≠ ch '.') :
    getPrec flg (atBytes (p.spell ++ c :: fmt) (p.args ++ ap)) =
      some (if p.isNone then flg else flg &&& ~~~F_ZERO, readPrec p,
        { c := c, fmt := fmt, ap := ap }) := by
  cases p with
  | none => exact if_neg hp
  | literal ds => exact getPrec_literal flg ds fmt ap hd hs
  | star n => rfl

/-- The bytes that start a conversion. -/
theorem head_conv (cv : Conv) (rest : List UB) : ∃ c fmt, cv.spell ++ rest = c :: fmt ∧
    isFlagByte c = false ∧ isDigit c = false ∧ c ≠ ch '*' ∧ c ≠ ch '.' := by
  cases cv with
  | int len k v =>
    cases len with
    | none =>
      refine ⟨k.byte, rest, rfl, ?_⟩
      cases k <;> decide
    | h => exact ⟨ch 'h', k.byte :: rest, rfl, by decide⟩
    | l => exact ⟨ch 'l', k.byte :: rest, rfl, by decide⟩
  | ptr v => exact ⟨ch 'p', rest, rfl, by decide⟩
  | str s => exact ⟨ch 's', rest, rfl, by decide⟩
  | chr v => exact ⟨ch 'c', rest, rfl, by decide⟩

theorem head_prec (p : Precision) (cv : Conv) (rest : List UB) :
    ∃ c fmt, p.spell ++ (cv.spell ++ rest) = c :: fmt ∧
      isFlagByte c = false ∧ isDigit c = false ∧ c ≠ ch '*' := by
  cases p with
  | none =>
    obtain ⟨c, fmt, heq, hflag, hdigit, hstar, -⟩ := head_conv cv rest
    exact ⟨c, fmt, heq, hflag, hdigit, hstar⟩
  | literal ds => exact ⟨ch '.', _, rfl, by decide⟩
  | star n => exact ⟨ch '.', _, rfl, by decide⟩

theorem head_width (w : Width) (p : Precision) (cv : Conv) (rest : List UB) :
    ∃ c fmt, w.spell ++ (p.spell ++ (cv.spell ++ rest)) = c :: fmt ∧ isFlagByte c = false := by
  cases w with
  | none =>
    obtain ⟨c, fmt, heq, hflag, -⟩ := head_prec p cv rest
    exact ⟨c, fmt, heq, hflag⟩
  | literal d ds =>
    refine ⟨CFormat.digitByte false d.1, _, rfl, ?_⟩
    obtain ⟨d, hd⟩ := d
    revert d
    decide
  | star n => exact ⟨ch '*', _, rfl, by decide⟩

theorem formatItem_spell (flg : UB) (wid prec : Int) (cv : Conv) (rest : List UB) (ap : List Arg) :
    (getQual (atBytes (cv.spell ++ rest) (cv.arg :: ap))).2.fmt = rest ∧
      formatItem flg wid prec (getQual (atBytes (cv.spell ++ rest) (cv.arg :: ap))).1
          (getQual (atBytes (cv.spell ++ rest) (cv.arg :: ap))).2 =
        some (.item (convert flg wid prec cv) ap) := by
  cases cv with
  | int len k v => cases len <;> cases k <;> exact ⟨rfl, rfl⟩
  | ptr v => exact ⟨rfl, rfl⟩
  | str s => exact ⟨rfl, rfl⟩
  | chr v => exact ⟨rfl, rfl⟩

theorem readDirective_spell (d : Directive) (rest : List UB) (ap : List Arg) :
    ∃ k, k.fmt = rest ∧
      readDirective (d.flags.map Flag.byte ++
          (d.width.spell ++ (d.prec.spell ++ (d.conv.spell ++ rest))))
        (d.width.args ++ (d.prec.args ++ (d.conv.arg :: ap))) =
        some (allFlags d, k, .item (conversion d) ap) := by
  obtain ⟨c, fmt, hwidth, hflag⟩ := head_width d.width d.prec d.conv rest
  obtain ⟨cp, fmtp, hprec, -, hdigit, hstar⟩ := head_prec d.prec d.conv rest
  obtain ⟨cc, fmtc, hconv, -, hdigit', hstar', hdot⟩ := head_conv d.conv rest
  obtain ⟨hrest, hitem⟩ :=
    formatItem_spell (allFlags d) (readWidth d.width).2 (readPrec d.prec) d.conv rest ap
  have hw : getWidth (flagBits 0 d.flags)
      { c := c, fmt := fmt, ap := d.width.args ++ (d.prec.args ++ (d.conv.arg :: ap)) } =
      some (widthFlags d, (readWidth d.width).2,
        { c := cp, fmt := fmtp, ap := d.prec.args ++ (d.conv.arg :: ap) }) := by
    have h := getWidth_spell (flagBits 0 d.flags) d.width fmtp
      (d.prec.args ++ (d.conv.arg :: ap)) hdigit hstar
    rw [← hprec, hwidth] at h
    exact h
  have hp : getPrec (widthFlags d)
      { c := cp, fmt := fmtp, ap := d.prec.args ++ (d.conv.arg :: ap) } =
      some (allFlags d, readPrec d.prec, { c := cc, fmt := fmtc, ap := d.conv.arg :: ap }) := by
    have h := getPrec_spell (widthFlags d) d.prec fmtc (d.conv.arg :: ap) hdigit' hstar' hdot
    rw [← hconv, hprec] at h
    exact h
  rw [hconv] at hrest hitem
  refine ⟨_, hrest, ?_⟩
  unfold readDirective
  rw [hwidth, getFlags_spell _ _ _ _ hflag]
  dsimp only
  rw [hw, Option.bind_some]
  dsimp only
  rw [hp, Option.bind_some]
  dsimp only
  exact congrArg (Option.map _) hitem

/-! ## What a format prints -/

namespace Item

/-- What `tm_vsprintf` prints of an item. -/
def printed : Item → List UB
  | .text b => [b.1]
  | .directive d => (conversion d).printed (allFlags d)

end Item

def printed (f : List Item) : List UB := f.flatMap Item.printed

theorem outFixed_eq (fixed : Option (List UB)) (out : List UB) :
    outFixed fixed (outBuf out par) = outBuf (out ++ fixed.getD []) par := by
  cases fixed with
  | none => rw [outFixed, Option.getD_none, List.append_nil]
  | some str => exact outBuf_outBuf _ _ _

theorem spell_cons (i : Item) (f : List Item) :
    CFormat.spell (i :: f) = i.spell ++ CFormat.spell f := List.flatMap_cons

theorem args_cons (i : Item) (f : List Item) :
    CFormat.args (i :: f) = i.args ++ CFormat.args f := List.flatMap_cons

theorem printed_cons (i : Item) (f : List Item) : printed (i :: f) = Item.printed i ++ printed f :=
  List.flatMap_cons

theorem tmVsprintf_spell (f : List Item) (fuel : Nat) (hfuel : (CFormat.spell f).length < fuel)
    (fixed : Option (List UB)) (out : List UB) :
    tmVsprintf fuel fixed (CFormat.spell f) (CFormat.args f) (outBuf out par) =
      some (outBuf (out ++ (fixed.getD [] ++ printed f)) par) := by
  induction f generalizing fuel fixed out with
  | nil =>
    obtain ⟨fuel, rfl⟩ : ∃ k, fuel = k + 1 := ⟨fuel - 1, by omega⟩
    show some (outFixed fixed (outBuf out par)) = _
    rw [outFixed_eq]
    unfold printed
    rw [List.flatMap_nil, List.append_nil]
  | cons i f ih =>
    obtain ⟨fuel, rfl⟩ : ∃ k, fuel = k + 1 := ⟨fuel - 1, by omega⟩
    rw [spell_cons, List.length_append] at hfuel
    rw [spell_cons, args_cons, printed_cons]
    cases i with
    | text b =>
      have hone : (Item.text b).spell.length = 1 := rfl
      show tmVsprintf (fuel + 1) fixed (b.1 :: CFormat.spell f) (CFormat.args f) _ = _
      rw [tmVsprintf, if_pos b.2.2, ih fuel (by omega), Option.getD_some, List.append_assoc]
      rfl
    | directive d =>
      obtain ⟨k, hrest, hread⟩ := readDirective_spell d (CFormat.spell f) (CFormat.args f)
      have hlen : (Item.directive d).spell.length =
          (d.flags.map Flag.byte ++ (d.width.spell ++ (d.prec.spell ++ d.conv.spell))).length + 1 :=
        rfl
      have hspell : (Item.directive d).spell ++ CFormat.spell f =
          ch '%' :: (d.flags.map Flag.byte ++
            (d.width.spell ++ (d.prec.spell ++ (d.conv.spell ++ CFormat.spell f)))) := by
        simp only [Item.spell, Directive.spell, List.cons_append, List.append_assoc]
      have hargs : (Item.directive d).args ++ CFormat.args f =
          d.width.args ++ (d.prec.args ++ (d.conv.arg :: CFormat.args f)) := by
        simp only [Item.args, Directive.args, List.append_assoc, List.singleton_append]
      rw [hspell, hargs, tmVsprintf, if_neg (fun h => h rfl), hread, Option.bind_some]
      dsimp only
      rw [hrest, outFixed_eq, outItem_eq, ih fuel (by omega), Option.getD_none, List.nil_append,
        List.append_assoc, List.append_assoc]
      rfl

/-- On a format of C the call returns, and what it has stored is what the items print. -/
theorem tmSprintf_spell (mem : Int → UB) (f : List Item) :
    tmSprintf mem (CFormat.spell f) (CFormat.args f) =
      some (Function.update (store mem 0 (printed f)) (toH (printed f).length) 0,
        toH (printed f).length) := by
  have hinit : ({ len := 0, bufp := 0, mem := mem } : OutPar) =
      outBuf [] { len := 0, bufp := 0, mem := mem } := rfl
  unfold tmSprintf
  rw [hinit, tmVsprintf_spell f _ (Nat.lt_succ_self _), Option.getD_none, List.nil_append,
    List.nil_append, Option.map_some]
  simp only [outBuf, Int.zero_add]

end Printf

end Mtk3Smp
