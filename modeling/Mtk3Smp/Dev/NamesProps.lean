import Mtk3Smp.Dev.Names
import Mathlib.Data.List.Nodup
import Mathlib.Algebra.Order.Ring.Nat

/-!
# Resolving device names

A logical name is taken apart at its first digit. The unit number comes out right where the rest
is decimal and not too long; and a name that tk_get_dev reports leads back to its device where the
physical name has no digit of its own.
-/

namespace Mtk3Smp

variable {name cp l : DevNm} {c : UInt8} {n k : Nat} {u nsub : Int}

/-! ## Splitting -/

def physical (name : DevNm) : DevNm := name.takeWhile fun c => !isDigit c
def suffix (name : DevNm) : DevNm := name.dropWhile fun c => !isDigit c

def Decimal (l : DevNm) : Prop := ∀ c ∈ l, isDigit c = true

instance : Decidable (Decimal l) := inferInstanceAs (Decidable (∀ c ∈ l, isDigit c = true))

/-- The value of a suffix in unbounded arithmetic. -/
def decimalFrom (u : Int) (l : DevNm) : Int := l.foldl (fun u c => u * 10 + (c.toNat - 48)) u

def decimalValue (l : DevNm) : Int := decimalFrom 0 l

theorem unitLoop_eq : unitLoop (toINT u) l = toINT (decimalFrom u l) := by
  induction l generalizing u with
  | nil => rfl
  | cons c l ih =>
    have hstep : toINT (toINT u * 10 + (c.toNat - 48)) = toINT (u * 10 + (c.toNat - 48)) := by
      unfold toINT
      omega
    show unitLoop (toINT (toINT u * 10 + (c.toNat - 48))) l = _
    rw [hstep, ih]
    rfl

theorem knlPhydevnm_fst : (knlPhydevnm name).1 = physical name := by
  unfold knlPhydevnm
  dsimp only
  split <;> rfl

theorem knlPhydevnm_snd : (knlPhydevnm name).2 =
    if suffix name = [] then 0 else toINT (decimalValue (suffix name) + 1) := by
  unfold knlPhydevnm
  dsimp only
  show (match suffix name with
    | [] => (physical name, 0)
    | c :: rest => (physical name, toINT (unitLoop 0 (c :: rest) + 1))).2 = _
  cases hs : suffix name with
  | nil => rfl
  | cons c rest =>
    rw [if_neg (List.cons_ne_nil c rest)]
    have hzero : (0 : Int) = toINT 0 := rfl
    have hloop : unitLoop 0 (c :: rest) = toINT (decimalValue (c :: rest)) := by
      rw [hzero, unitLoop_eq]
      rfl
    show toINT (unitLoop 0 (c :: rest) + 1) = _
    rw [hloop]
    unfold toINT
    omega

theorem decimalFrom_nonneg (hu : 0 ≤ u) (hl : Decimal l) : 0 ≤ decimalFrom u l := by
  induction l generalizing u with
  | nil => exact hu
  | cons c l ih =>
    have hc : isDigit c = true := hl c List.mem_cons_self
    have hc' : 48 ≤ c.toNat := by
      unfold isDigit at hc
      rw [Bool.and_eq_true, decide_eq_true_iff] at hc
      exact hc.1
    have hstep : 0 ≤ u * 10 + ((c.toNat : Int) - 48) := by omega
    exact ih hstep fun d hd => hl d (List.mem_cons_of_mem _ hd)

/-! ## Printing -/

theorem toNat_digit (n : Nat) : (UInt8.ofNat (48 + n % 10)).toNat = 48 + n % 10 := by
  have hlt : 48 + n % 10 < 2 ^ 8 := by omega
  rw [UInt8.toNat_ofNat']
  exact Nat.mod_eq_of_lt hlt

theorem isDigit_digit (n : Nat) : isDigit (UInt8.ofNat (48 + n % 10)) = true := by
  unfold isDigit
  rw [toNat_digit, Bool.and_eq_true, decide_eq_true_iff, decide_eq_true_iff]
  omega

theorem decimal_unoLoop (h : Decimal cp) : Decimal (unoLoop n cp) := by
  induction n, cp using unoLoop.induct with
  | case1 n cp hz =>
    rw [unoLoop, if_pos hz]
    intro c hc
    rcases List.mem_cons.1 hc with rfl | hc
    · exact isDigit_digit n
    · exact h c hc
  | case2 n cp cp' hz ih =>
    rw [unoLoop, if_neg hz]
    apply ih
    intro c hc
    rcases List.mem_cons.1 hc with rfl | hc
    · exact isDigit_digit n
    · exact h c hc

theorem unoLoop_ne_nil : unoLoop n cp ≠ [] := by
  induction n, cp using unoLoop.induct with
  | case1 n cp hz =>
    rw [unoLoop, if_pos hz]
    exact List.cons_ne_nil _ _
  | case2 n cp cp' hz ih =>
    rw [unoLoop, if_neg hz]
    exact ih

theorem decimalFrom_unoLoop : decimalFrom 0 (unoLoop n cp) = decimalFrom n cp := by
  induction n, cp using unoLoop.induct with
  | case1 n cp hz =>
    have hstep : (0 : Int) * 10 + ((UInt8.ofNat (48 + n % 10)).toNat - 48) = n := by
      rw [toNat_digit]
      omega
    rw [unoLoop, if_pos hz]
    show decimalFrom (0 * 10 + ((UInt8.ofNat (48 + n % 10)).toNat - 48)) cp = _
    rw [hstep]
  | case2 n cp cp' hz ih =>
    have hstep : ((n / 10 : Nat) : Int) * 10 + ((UInt8.ofNat (48 + n % 10)).toNat - 48) = n := by
      rw [toNat_digit]
      omega
    rw [unoLoop, if_neg hz, ih]
    show decimalFrom (((n / 10 : Nat) : Int) * 10 + ((UInt8.ofNat (48 + n % 10)).toNat - 48)) cp = _
    rw [hstep]

/-- A number below `10 ^ (k + 1)` has at most `k + 1` digits. -/
theorem length_unoLoop (h : n < 10 ^ (k + 1)) : (unoLoop n cp).length ≤ k + 1 + cp.length := by
  induction k generalizing n cp with
  | zero =>
    have hz : n / 10 = 0 := by omega
    rw [unoLoop, if_pos hz, List.length_cons]
    omega
  | succ k ih =>
    rw [unoLoop]
    by_cases hz : n / 10 = 0
    · rw [if_pos hz, List.length_cons]
      omega
    · have hlt : n / 10 < 10 ^ (k + 1) := by
        rw [Nat.pow_succ] at h
        omega
      have hrec : (unoLoop (n / 10) (UInt8.ofNat (48 + n % 10) :: cp)).length ≤
          k + 1 + (cp.length + 1) := ih hlt
      rw [if_neg hz]
      omega

/-- A name without digits, and then a decimal number, are taken apart again. -/
theorem split_append (hname : ∀ c ∈ name, isDigit c = false) (hl : Decimal l) :
    physical (name ++ l) = name ∧ suffix (name ++ l) = l := by
  have hall : ∀ c ∈ name, (!isDigit c) = true := by
    intro c hc
    rw [hname c hc]
    rfl
  unfold physical suffix
  rw [List.takeWhile_append_of_pos hall, List.dropWhile_append_of_pos hall]
  cases l with
  | nil => exact ⟨List.append_nil _, rfl⟩
  | cons c l =>
    have hc : (!isDigit c) = false := by
      rw [hl c List.mem_cons_self]
      rfl
    rw [List.takeWhile_cons, List.dropWhile_cons, hc]
    exact ⟨List.append_nil _, rfl⟩

/-- The unit comes back. -/
theorem knlPhydevnm_logdevnm (hname : ∀ c ∈ name, isDigit c = false) (hn : n ≤ 255) :
    knlPhydevnm (logdevnm name n) = (name, (n : Int)) := by
  unfold logdevnm
  by_cases hpos : 0 < n
  · rw [if_pos hpos]
    have hdec : Decimal (unoLoop (n - 1) []) := decimal_unoLoop nofun
    obtain ⟨hphys, hsuf⟩ := split_append hname hdec
    apply Prod.ext
    · rw [knlPhydevnm_fst, hphys]
    · have hval : decimalValue (unoLoop (n - 1) []) = ((n - 1 : Nat) : Int) := decimalFrom_unoLoop
      rw [knlPhydevnm_snd, hsuf, if_neg unoLoop_ne_nil, hval]
      show toINT (((n - 1 : Nat) : Int) + 1) = (n : Int)
      unfold toINT
      omega
  · obtain rfl : n = 0 := Nat.eq_zero_of_not_pos hpos
    rw [if_neg (Nat.lt_irrefl 0)]
    obtain ⟨hphys, hsuf⟩ := split_append (l := []) hname nofun
    rw [List.append_nil] at hphys hsuf
    apply Prod.ext
    · rw [knlPhydevnm_fst, hphys]
    · rw [knlPhydevnm_snd, hsuf]
      rfl

/-! ## The lengths of names -/

/-- The largest `nsub` with which a name of this length is accepted. -/
def maxUnit (len : Nat) : Int :=
  if len ≤ 5 then MAX_UNIT else if len = 6 then 100 else if len = 7 then 10 else 0

theorem le_maxUnit (hlen : DevTbl.logLength n nsub ≤ L_DEVNM) (hn : nsub ≤ MAX_UNIT) :
    nsub ≤ maxUnit n := by
  unfold DevTbl.logLength L_DEVNM at hlen
  unfold MAX_UNIT at hn
  unfold maxUnit MAX_UNIT
  dsimp only at hlen
  split_ifs at hlen ⊢ <;> omega

theorem maxUnit_accepted (hn : n ≤ L_DEVNM) :
    0 ≤ maxUnit n ∧ maxUnit n ≤ MAX_UNIT ∧ DevTbl.logLength n (maxUnit n) ≤ L_DEVNM := by
  unfold L_DEVNM at hn
  unfold DevTbl.logLength L_DEVNM maxUnit MAX_UNIT
  dsimp only
  split_ifs <;> omega

theorem length_logdevnm (hlen : DevTbl.logLength name.length nsub ≤ L_DEVNM) (hn : nsub ≤ MAX_UNIT)
    (hu : (n : Int) ≤ nsub) : (logdevnm name n).length ≤ L_DEVNM := by
  have hdigits : ∀ k, n - 1 < 10 ^ (k + 1) → (unoLoop (n - 1) []).length ≤ k + 1 := fun k hk =>
    length_unoLoop hk
  have h0 := hdigits 0
  have h1 := hdigits 1
  have h2 := hdigits 2
  unfold DevTbl.logLength L_DEVNM at hlen
  unfold MAX_UNIT at hn
  unfold logdevnm L_DEVNM
  dsimp only at hlen
  by_cases hpos : 0 < n
  · rw [if_pos hpos, List.length_append]
    split_ifs at hlen <;> omega
  · rw [if_neg hpos]
    split_ifs at hlen <;> omega

end Mtk3Smp
