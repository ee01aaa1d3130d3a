import Mathlib.Data.Nat.Find
import Mtk3Smp.Mem.HeapSizes

/-!
# Bit strings

`bitop.c`: setting, clearing and searching the bits of a string of bytes. Bit `n` of the
string is bit `n & 7` of byte `n / 8`, counted from the low end or, on a big-endian
machine, from the high end. `position` of the search is a `W` and wraps as one.
-/

namespace Mtk3Smp

abbrev UB := BitVec 8

/-- `_BIT_SET_N` -/
def BIT_SET_N (bigEndian : Bool) (n : Nat) : UB :=
  if bigEndian then 0x80#8 >>> (n % 8) else 0x01#8 <<< (n % 8)

/-- `_BIT_SHIFT`, cut to the `UB` it is assigned to -/
def BIT_SHIFT (bigEndian : Bool) (mask : UB) : UB :=
  if bigEndian then mask >>> 1 else mask <<< 1

/-- A bit of the string. -/
def bitAt (bigEndian : Bool) (base : Nat → UB) (n : Nat) : Bool :=
  base (n / 8) &&& BIT_SET_N bigEndian n != 0

variable (bigEndian : Bool)

def knlBitclr (base : Nat → UB) (offset : Int) : Nat → UB :=
  if offset < 0 then base
  else
    let cp := (offset / 8).toNat
    let mask := BIT_SET_N bigEndian offset.toNat
    Function.update base cp (base cp &&& ~~~mask)

def knlBitset (base : Nat → UB) (offset : Int) : Nat → UB :=
  if offset < 0 then base
  else
    let cp := (offset / 8).toNat
    let mask := BIT_SET_N bigEndian offset.toNat
    Function.update base cp (base cp ||| mask)

/-- The inner loop, `while (1)`, on the byte it has found. -/
def searchByte (byte : UB) (width : Int) : Nat → UB → Int → Option Int
  | 0, _, _ => none
  | fuel + 1, mask, position =>
    if byte &&& mask ≠ 0 then some (if position < width then position else -1)
    else searchByte byte width fuel (BIT_SHIFT bigEndian mask) (toW (position + 1))

/-- The outer loop: its value and the bytes it has read. -/
def searchFrom (base : Nat → UB) (offset width : Int) :
    Nat → Nat → UB → Int → Option (Int × List Nat)
  | 0, _, _, _ => none
  | fuel + 1, cp, mask, position =>
    if position < width then
      if base cp ≠ 0 then
        (searchByte bigEndian (base cp) width (fuel + 1) mask position).map fun k => (k, [cp])
      else if position ≠ 0 then
        (searchFrom base offset width fuel (cp + 1) mask (toW (position + 8))).map
          fun r => (r.1, cp :: r.2)
      else
        (searchFrom base offset width fuel (cp + 1) (BIT_SET_N bigEndian 0)
          (8 - offset % 8)).map fun r => (r.1, cp :: r.2)
    else some (-1, [])

/-- `none` when the given number of rounds is not enough. -/
def knlBitsearch1 (base : Nat → UB) (offset width : Int) (fuel : Nat) :
    Option (Int × List Nat) :=
  if offset < 0 ∨ width < 0 then some (-1, [])
  else
    searchFrom bigEndian base offset width fuel (offset / 8).toNat
      (BIT_SET_N bigEndian offset.toNat) 0

/-- The smallest `k` below `width` with bit `offset + k` set, or -1. -/
def FirstSet (bit : Nat → Bool) (offset width : Nat) (r : Int) : Prop :=
  (r = -1 ∧ ∀ k < width, bit (offset + k) = false) ∨
    ∃ k : Nat, r = k ∧ k < width ∧ bit (offset + k) = true ∧ ∀ i < k, bit (offset + i) = false

/-! ## Bits of a byte -/

theorem BIT_SHIFT_set (n : Nat) (h : n < 7) :
    BIT_SHIFT bigEndian (BIT_SET_N bigEndian n) = BIT_SET_N bigEndian (n + 1) := by
  revert bigEndian n
  decide

theorem BIT_SHIFT_last : BIT_SHIFT bigEndian (BIT_SET_N bigEndian 7) = 0 := by
  revert bigEndian
  decide

theorem BIT_SHIFT_zero : BIT_SHIFT bigEndian 0 = 0 := by
  revert bigEndian
  decide

theorem BIT_SET_N_mod (n : Nat) : BIT_SET_N bigEndian (n % 8) = BIT_SET_N bigEndian n := by
  simp [BIT_SET_N]

theorem byte_bit (byte : UB) (h : byte ≠ 0) : ∃ i < 8, byte &&& BIT_SET_N bigEndian i ≠ 0 := by
  revert bigEndian byte
  decide +kernel

/-- A nonzero byte has a first set bit. -/
theorem byte_firstBit (byte : UB) (n : Nat)
    (h : ∃ i < 8, n ≤ i ∧ byte &&& BIT_SET_N bigEndian i ≠ 0) :
    ∃ i < 8, n ≤ i ∧ byte &&& BIT_SET_N bigEndian i ≠ 0 ∧
      ∀ j < i, n ≤ j → byte &&& BIT_SET_N bigEndian j = 0 := by
  have hmin := Nat.find_spec h
  refine ⟨Nat.find h, hmin.1, hmin.2.1, hmin.2.2, fun j hj hn => ?_⟩
  by_contra hne
  exact Nat.find_min h hj ⟨by omega, hn, hne⟩

variable {bigEndian} {base : Nat → UB}

theorem bitAt_byte (cp i : Nat) (hi : i < 8) :
    bitAt bigEndian base (8 * cp + i) = (base cp &&& BIT_SET_N bigEndian i != 0) := by
  have hcp : (8 * cp + i) / 8 = cp := by omega
  have hm : (8 * cp + i) % 8 = i % 8 := by omega
  unfold bitAt
  rw [hcp, ← BIT_SET_N_mod, hm, BIT_SET_N_mod]

theorem byte_eq_zero (cp : Nat) (h : ∀ i < 8, bitAt bigEndian base (8 * cp + i) = false) :
    base cp = 0 := by
  by_contra hne
  obtain ⟨i, hi, hb⟩ := byte_bit bigEndian (base cp) hne
  have hc := h i hi
  rw [bitAt_byte cp i hi] at hc
  exact hb (by simpa using hc)

theorem bitAt_zero (n : Nat) (h : base (n / 8) = 0) : bitAt bigEndian base n = false := by
  simp [bitAt, h]

end Mtk3Smp
