import Mathlib.Data.Nat.Digits.Lemmas

/-!
# Formats of the C library

A format is a list of items: bytes that stand for themselves, and directives, each with its
argument. `Directive.spell` and `Directive.args` are what a program writes in the format
string and passes to `sprintf`. `Directive.output` is what the standard says `sprintf` makes
of it, on a machine whose `int` and `long` have 32 bits and whose `short` has 16. What the
standard leaves undefined cannot be built: `Conv.Admits` is a field of `Directive`. The text of
a pointer, which the standard leaves to the implementation, is its number after `0x`, and `0`
when it is null.
-/

namespace CFormat

abbrev Byte := BitVec 8
abbrev Word := BitVec 32

def ch (c : Char) : Byte := BitVec.ofNat 8 c.toNat

/-! ## The syntax -/

inductive Flag
  | minus
  | plus
  | space
  | hash
  | zero
  deriving DecidableEq

def Flag.byte : Flag → Byte
  | .minus => ch '-'
  | .plus => ch '+'
  | .space => ch ' '
  | .hash => ch '#'
  | .zero => ch '0'

/-- There are decimal digits. -/
instance neZero_ten : NeZero (10 : Nat) := ⟨by decide⟩

/-- A literal width does not start with 0: that would be a flag. -/
inductive Width
  | none
  | literal (first : { d : Fin 10 // d ≠ 0 }) (rest : List (Fin 10))
  | star (n : Word)

inductive Precision
  | none
  | literal (ds : List (Fin 10))
  | star (n : Word)

inductive Length
  | none
  | h
  | l

inductive IntConv
  | d
  | i
  | u
  | x
  | X
  | o
  deriving DecidableEq

/-- The conversions with the length modifiers they take and with their arguments. -/
inductive Conv
  | int (len : Length) (k : IntConv) (v : Word)
  | ptr (v : Word)
  | str (s : { s : List Byte // 0 ∉ s })
  | chr (v : Word)

/-- An argument as `va_arg` finds it; of a pointer to a string, the string. -/
inductive Arg
  | word (v : Word)
  | str (s : List Byte)

def digitByte (upper : Bool) (d : Nat) : Byte :=
  if d < 10 then ch '0' + BitVec.ofNat 8 d
  else (if upper then ch 'A' else ch 'a') + BitVec.ofNat 8 (d - 10)

def literalBytes (ds : List (Fin 10)) : List Byte := ds.map fun d => digitByte false d

def literalValue (ds : List (Fin 10)) : Nat := ds.foldl (fun x d => x * 10 + d.val) 0

namespace Width

def spell : Width → List Byte
  | .none => []
  | .literal d ds => literalBytes (d.1 :: ds)
  | .star _ => [ch '*']

def args : Width → List Arg
  | .star n => [.word n]
  | _ => []

/-- A negative argument is a `-` flag and a width. -/
def isLeft : Width → Bool
  | .star n => n.toInt < 0
  | _ => false

def value : Width → Nat
  | .none => 0
  | .literal d ds => literalValue (d.1 :: ds)
  | .star n => n.toInt.natAbs

end Width

namespace Precision

def spell : Precision → List Byte
  | .none => []
  | .literal ds => ch '.' :: literalBytes ds
  | .star _ => [ch '.', ch '*']

def args : Precision → List Arg
  | .star n => [.word n]
  | _ => []

def isNone : Precision → Bool
  | .none => true
  | _ => false

/-- A negative argument is taken as if the precision were omitted. -/
def value : Precision → Option Nat
  | .none => Option.none
  | .literal ds => some (literalValue ds)
  | .star n => if n.toInt < 0 then Option.none else some n.toInt.toNat

end Precision

def Length.spell : Length → List Byte
  | .none => []
  | .h => [ch 'h']
  | .l => [ch 'l']

def IntConv.byte : IntConv → Byte
  | .d => ch 'd'
  | .i => ch 'i'
  | .u => ch 'u'
  | .x => ch 'x'
  | .X => ch 'X'
  | .o => ch 'o'

namespace Conv

def spell : Conv → List Byte
  | .int len k _ => len.spell ++ [k.byte]
  | .ptr _ => [ch 'p']
  | .str _ => [ch 's']
  | .chr _ => [ch 'c']

def arg : Conv → Arg
  | .int _ _ v => .word v
  | .ptr v => .word v
  | .str s => .str s
  | .chr v => .word v

/-- The flags and precisions that are defined for a conversion. -/
def Admits (flags : List Flag) (prec : Precision) : Conv → Prop
  | .int _ k _ => .hash ∈ flags → k ∈ [.x, .X, .o]
  | .str _ => .hash ∉ flags ∧ .zero ∉ flags
  | .ptr _ | .chr _ => .hash ∉ flags ∧ .zero ∉ flags ∧ prec.isNone = true

instance (flags : List Flag) (prec : Precision) (c : Conv) : Decidable (c.Admits flags prec) :=
  match c with
  | .int .. => inferInstanceAs (Decidable (_ → _))
  | .str _ => inferInstanceAs (Decidable (_ ∧ _))
  | .ptr _ | .chr _ => inferInstanceAs (Decidable (_ ∧ _ ∧ _))

end Conv

structure Directive where
  flags : List Flag
  width : Width
  prec : Precision
  conv : Conv
  admits : conv.Admits flags prec

inductive Item
  | text (b : { b : Byte // b ≠ 0 ∧ b ≠ ch '%' })
  | directive (d : Directive)

/-! ## The meaning -/

/-- A number in base `b`, the most significant digit first; 0 has one digit. -/
def numeral (upper : Bool) (b n : Nat) : List Byte :=
  if n = 0 then [ch '0'] else (Nat.digits b n).reverse.map (digitByte upper)

/-- The digits of an integer: the precision is the least number of them, 1 when it is not
given, and 0 with the precision 0 has none. -/
def digitsOf (prec : Option Nat) (upper : Bool) (b n : Nat) : List Byte :=
  if n = 0 ∧ prec = some 0 then []
  else
    List.replicate (prec.getD 1 - (numeral upper b n).length) (ch '0') ++ numeral upper b n

/-- `#` of `o` raises the precision just so far that the first digit is 0. -/
def alternative (digits : List Byte) : List Byte :=
  if digits.head? = some (ch '0') then digits else ch '0' :: digits

/-- The bytes of a string that are printed: the precision is the greatest number of them. -/
def cutString (prec : Option Nat) (s : List Byte) : List Byte :=
  match prec with
  | none => s
  | some p => s.take p

/-- What a conversion prints: a sign or `0x`, and what zeros go in front of. -/
structure Text where
  lead : List Byte
  body : List Byte

def Text.length (t : Text) : Nat := t.lead.length + t.body.length

def signOf (flags : List Flag) (z : Int) : List Byte :=
  if z < 0 then [ch '-']
  else if .plus ∈ flags then [ch '+']
  else if .space ∈ flags then [ch ' ']
  else []

/-- The value of an `int` or a `long`, or of the `short` it is converted to. -/
def Length.signed (v : Word) : Length → Int
  | .h => (v.setWidth 16).toInt
  | _ => v.toInt

def Length.unsigned (v : Word) : Length → Nat
  | .h => (v.setWidth 16).toNat
  | _ => v.toNat

namespace IntConv

def base : IntConv → Nat
  | .d | .i | .u => 10
  | .x | .X => 16
  | .o => 8

def upper (k : IntConv) : Bool := k = .X

/-- The number whose digits are printed. -/
def magnitude (len : Length) (v : Word) : IntConv → Nat
  | .d | .i => (len.signed v).natAbs
  | _ => len.unsigned v

def lead (flags : List Flag) (len : Length) (v : Word) : IntConv → List Byte
  | .d | .i => signOf flags (len.signed v)
  | .x => if .hash ∈ flags ∧ len.unsigned v ≠ 0 then [ch '0', ch 'x'] else []
  | .X => if .hash ∈ flags ∧ len.unsigned v ≠ 0 then [ch '0', ch 'X'] else []
  | .u | .o => []

end IntConv

namespace Directive

variable (d : Directive)

def spell : List Byte :=
  ch '%' :: (d.flags.map Flag.byte ++ (d.width.spell ++ (d.prec.spell ++ d.conv.spell)))

def args : List Arg := d.width.args ++ (d.prec.args ++ [d.conv.arg])

def isLeft : Bool := .minus ∈ d.flags || d.width.isLeft

/-- `0` is ignored with a precision. -/
def isZero : Bool := .zero ∈ d.flags && d.prec.value.isNone

def intText (len : Length) (k : IntConv) (v : Word) : Text :=
  let digits := digitsOf d.prec.value k.upper k.base (k.magnitude len v)
  { lead := k.lead d.flags len v
    body := if k = .o ∧ .hash ∈ d.flags then alternative digits else digits }

def text : Text :=
  match d.conv with
  | .int len k v => d.intText len k v
  | .ptr v =>
    { lead := if v = 0 then [] else [ch '0', ch 'x'], body := numeral false 16 v.toNat }
  | .str s => { lead := [], body := cutString d.prec.value s.1 }
  | .chr v => { lead := [], body := [v.setWidth 8] }

end Directive

/-- A text in its field: left-justified, filled with zeros behind the sign, or
right-justified. -/
def justify (left zero : Bool) (width : Nat) (t : Text) : List Byte :=
  if left then t.lead ++ (t.body ++ List.replicate (width - t.length) (ch ' '))
  else if zero then t.lead ++ (List.replicate (width - t.length) (ch '0') ++ t.body)
  else List.replicate (width - t.length) (ch ' ') ++ (t.lead ++ t.body)

def Directive.output (d : Directive) : List Byte :=
  justify d.isLeft d.isZero d.width.value d.text

namespace Item

def spell : Item → List Byte
  | .text b => [b.1]
  | .directive d => d.spell

def args : Item → List Arg
  | .text _ => []
  | .directive d => d.args

def output : Item → List Byte
  | .text b => [b.1]
  | .directive d => d.output

end Item

/-- The format string, without the NUL. -/
def spell (f : List Item) : List Byte := f.flatMap Item.spell

def args (f : List Item) : List Arg := f.flatMap Item.args

/-- What `sprintf` writes, without the NUL. -/
def output (f : List Item) : List Byte := f.flatMap Item.output

/-! ## Fields -/

theorem length_justify (left zero : Bool) (width : Nat) (t : Text) :
    (justify left zero width t).length = max width t.length := by
  unfold justify Text.length
  split
  · simp only [List.length_append, List.length_replicate]
    omega
  · split
    · simp only [List.length_append, List.length_replicate]
      omega
    · simp only [List.length_append, List.length_replicate]
      omega

/-- The flag `0` makes a longer text of the same. -/
theorem justify_fill (left zero : Bool) (width : Nat) (t : Text) :
    justify left zero width t =
      justify left false width
        { lead := t.lead
          body := List.replicate (if zero && !left then width - t.length else 0) (ch '0') ++
            t.body } := by
  unfold justify
  cases left with
  | true =>
    rw [if_pos rfl, if_pos rfl, Bool.not_true, Bool.and_false, if_neg Bool.false_ne_true]
    rfl
  | false =>
    cases zero with
    | true =>
      have hfull : width - (t.lead.length +
          (List.replicate (width - (t.lead.length + t.body.length)) (ch '0') ++ t.body).length) = 0 := by
        rw [List.length_append, List.length_replicate]
        omega
      simp only [Bool.false_eq_true, if_false, if_true, Bool.not_false, Bool.and_true, Text.length,
        hfull]
      rfl
    | false =>
      rw [if_neg Bool.false_ne_true, if_neg Bool.false_ne_true, Bool.false_and,
        if_neg Bool.false_ne_true]
      rfl

/-- The zeros of a field are those of its text, and those it is filled with. -/
theorem count_justify (left zero : Bool) (width : Nat) (t : Text) :
    (justify left zero width t).count (ch '0') =
      t.lead.count (ch '0') + t.body.count (ch '0') +
        if zero && !left then width - t.length else 0 := by
  have hspace (n : Nat) : (List.replicate n (ch ' ')).count (ch '0') = 0 := by
    rw [List.count_replicate, if_neg (by decide)]
  have hzero (n : Nat) : (List.replicate n (ch '0')).count (ch '0') = n := List.count_replicate_self
  unfold justify
  cases left with
  | true =>
    rw [if_pos rfl, Bool.not_true, Bool.and_false, if_neg Bool.false_ne_true, List.count_append,
      List.count_append, hspace]
    omega
  | false =>
    cases zero with
    | true =>
      rw [if_neg Bool.false_ne_true, if_pos rfl, Bool.not_false, Bool.and_true, if_pos rfl,
        List.count_append, List.count_append, hzero]
      omega
    | false =>
      rw [if_neg Bool.false_ne_true, if_neg Bool.false_ne_true, Bool.false_and,
        if_neg Bool.false_ne_true, List.count_append, List.count_append, hspace]
      omega

theorem Directive.length_output (d : Directive) :
    d.output.length = max d.width.value d.text.length :=
  length_justify _ _ _ _

/-! ## Numbers -/

theorem numeral_zero (upper : Bool) (b : Nat) : numeral upper b 0 = [ch '0'] := if_pos rfl

theorem numeral_of_lt {upper : Bool} {b n : Nat} (h : n < b) :
    numeral upper b n = [digitByte upper n] := by
  unfold numeral
  by_cases hn : n = 0
  · subst hn
    rw [if_pos rfl]
    cases upper <;> rfl
  · rw [if_neg hn, Nat.digits_of_lt b n hn h]
    rfl

/-- The last digit of a number and what is before it. -/
theorem numeral_of_ge {upper : Bool} {b n : Nat} (hb : 2 ≤ b) (h : b ≤ n) :
    numeral upper b n = numeral upper b (n / b) ++ [digitByte upper (n % b)] := by
  have hn : n ≠ 0 := by omega
  have hq : n / b ≠ 0 := by
    have := Nat.div_pos h (by omega)
    omega
  unfold numeral
  rw [if_neg hn, if_neg hq, Nat.digits_def' hb (by omega), List.reverse_cons, List.map_append]
  rfl

theorem length_numeral_pos (upper : Bool) {b : Nat} (hb : 2 ≤ b) (n : Nat) :
    0 < (numeral upper b n).length := by
  by_cases h : n < b
  · rw [numeral_of_lt h]
    exact Nat.one_pos
  · rw [numeral_of_ge hb (by omega), List.length_append]
    exact Nat.lt_of_lt_of_le Nat.one_pos (Nat.le_add_left _ _)

/-- The number of digits does not depend on their case. -/
theorem length_numeral_upper (upper : Bool) (b n : Nat) :
    (numeral upper b n).length = (numeral false b n).length := by
  unfold numeral
  split
  · rfl
  · rw [List.length_map, List.length_map]

theorem length_numeral_le {upper : Bool} {b n k : Nat} (hb : 2 ≤ b) (hk : 0 < k) (h : n < b ^ k) :
    (numeral upper b n).length ≤ k := by
  unfold numeral
  split
  · exact hk
  · rw [List.length_map, List.length_reverse]
    exact (Nat.digits_length_le_iff hb n).2 h

theorem digitByte_eq_zero {upper : Bool} {d : Nat} (h : d < 16)
    (hd : digitByte upper d = ch '0') : d = 0 := by
  revert hd
  interval_cases d <;> cases upper <;> decide

/-- A number that is not 0 does not start with the digit 0. -/
theorem head_numeral {upper : Bool} {b n : Nat} (hb : 2 ≤ b) (h16 : b ≤ 16) (hn : n ≠ 0) :
    (numeral upper b n).head? ≠ some (ch '0') := by
  induction n using Nat.strong_induction_on with
  | _ n ih =>
    by_cases h : n < b
    · rw [numeral_of_lt h]
      intro heq
      exact hn (digitByte_eq_zero (by omega) (Option.some.inj heq))
    · have hq : 0 < n / b := Nat.div_pos (by omega) (by omega)
      rw [numeral_of_ge hb (by omega), List.head?_append_of_ne_nil _
        (List.ne_nil_of_length_pos (length_numeral_pos upper hb _))]
      exact ih _ (Nat.div_lt_self (by omega) (by omega)) (by omega)

end CFormat
