import Mathlib.Data.Nat.Init
import Mathlib.Data.UInt

/-!
# Clocks that wrap around

The time that has passed is a natural number and a clock shows it modulo 2 ^ 32. A difference of
two readings is the time between them as long as that fits.
-/

namespace WrapClock

/-- What the clock shows at the time `t`. -/
def clock (t : Nat) : UInt32 := UInt32.ofNat t

@[simp] theorem toNat_clock (t : Nat) : (clock t).toNat = t % 2 ^ 32 := by
  simp [clock]

theorem clock_add (t d : Nat) : clock (t + d) = clock t + clock d := by
  apply UInt32.toNat_inj.1
  rw [UInt32.toNat_add, toNat_clock, toNat_clock, toNat_clock]
  omega

/-- Whole turns of the clock do not show. -/
theorem clock_add_turns (t m : Nat) : clock (t + 2 ^ 32 * m) = clock t := by
  apply UInt32.toNat_inj.1
  rw [toNat_clock, toNat_clock, Nat.add_mul_mod_self_left]

theorem clock_toNat (d : UInt32) : clock d.toNat = d := by
  apply UInt32.toNat_inj.1
  have hd := d.toNat_lt
  rw [toNat_clock]
  omega

/-- Two readings, in whichever order. -/
theorem toNat_clock_sub (a b : Nat) :
    (clock b - clock a).toNat = (b + (2 ^ 32 - a % 2 ^ 32)) % 2 ^ 32 := by
  rw [UInt32.toNat_sub, toNat_clock, toNat_clock]
  omega

/-- The reading of the time a reading lies ahead. -/
theorem clock_ahead (t : Nat) (x : UInt32) : clock (t + (x - clock t).toNat) = x := by
  have hx := x.toNat_lt
  rw [clock_add, clock_toNat]
  apply UInt32.toNat_inj.1
  rw [UInt32.toNat_add, UInt32.toNat_sub, toNat_clock]
  omega

end WrapClock
