import Mtk3Smp.Tstdlib.BitSearch
import Mathlib.Algebra.Order.Ring.Nat

/-!
# The bitmap of the ready queue

`ready_queue.h` keeps a bit for each priority. A build with at most `INT_BITWIDTH`
priorities has them in one word; any other has a bit string, which `knl_bitset`,
`knl_bitclr` and `knl_bitsearch1` work on.
-/

namespace Mtk3Smp

def INT_BITWIDTH : Nat := 32

/-- The configuration of a build. `tskque` has eight bytes for each priority. -/
structure RdyCfg where
  numTskpri : Nat
  bigEndian : Bool
  addressable : 8 * numTskpri < 2 ^ 32

inductive Bitmap
  | word (w : BitVec 32)
  | bytes (b : Nat → UB)

variable (c : RdyCfg)

namespace Bitmap

/-- `knl_memset(rq->bitmap, 0, sizeof(rq->bitmap))` -/
def zero : Bitmap := if c.numTskpri ≤ INT_BITWIDTH then .word 0 else .bytes fun _ => 0

def set : Bitmap → Nat → Bitmap
  | word w, priority => .word (w ||| 1#32 <<< priority)
  | bytes b, priority => .bytes (knlBitset c.bigEndian b priority)

def clr : Bitmap → Nat → Bitmap
  | word w, priority => .word (w &&& ~~~(1#32 <<< priority))
  | bytes b, priority => .bytes (knlBitclr c.bigEndian b priority)

/-- Bit `p` of the bitmap. -/
def test : Bitmap → Nat → Bool
  | word w, p => w &&& 1#32 <<< p != 0
  | bytes b, p => bitAt c.bigEndian b p

end Bitmap

/-- `knl_ready_queue_calc_top_priority`: the loop over `pos`, for what is left of it. -/
def calcTopPriority (bitmap : BitVec 32) : Nat → Nat → Nat
  | 0, pos => pos
  | left + 1, pos =>
    if bitmap &&& 1#32 <<< pos ≠ 0 then pos else calcTopPriority bitmap left (pos + 1)

/-- The end of `knl_ready_queue_delete`; `none` where the search does not end. -/
def Bitmap.nextTop : Bitmap → Nat → Option Nat
  | .word w, priority => some (calcTopPriority w (c.numTskpri - priority) priority)
  | .bytes b, priority =>
    (knlBitsearch1 c.bigEndian b priority (c.numTskpri - priority : Nat) (c.numTskpri + 9)).map
      fun i => if 0 ≤ i.1 then priority + i.1.toNat else c.numTskpri

/-- The build has this representation. -/
def Bitmap.Fits : Bitmap → Prop
  | .word _ => c.numTskpri ≤ INT_BITWIDTH
  | .bytes _ => INT_BITWIDTH < c.numTskpri

variable {c} {m : Bitmap} {p q n : Nat}

theorem Bitmap.fits_zero : (zero c).Fits c := by
  unfold zero
  split
  · assumption
  · exact Nat.lt_of_not_le ‹_›

theorem Bitmap.Fits.set (h : m.Fits c) : (m.set c p).Fits c := by
  cases m <;> exact h

theorem Bitmap.Fits.clr (h : m.Fits c) : (m.clr c p).Fits c := by
  cases m <;> exact h

/-! ## One word -/

theorem word_test (w : BitVec 32) (h : p < 32) : (w &&& 1#32 <<< p != 0) = w.getLsbD p := by
  have hbit : ∀ i, (w &&& 1#32 <<< p).getLsbD i = (w.getLsbD i && decide (i = p)) := by
    intro i
    by_cases hi : i = p
    · subst hi
      simp [h]
    · by_cases hlt : i < p
      · simp [hi, hlt]
      · have hsub : i - p ≠ 0 := by omega
        simp [hi, hlt, BitVec.getLsbD_one, hsub]
  cases hw : w.getLsbD p with
  | true =>
    rw [bne_iff_ne]
    intro hz
    have hp := hbit p
    rw [hz] at hp
    simp [hw] at hp
  | false =>
    rw [bne_eq_false_iff_eq]
    apply BitVec.eq_of_getLsbD_eq
    intro i _
    rw [hbit i]
    by_cases hi : i = p
    · subst hi
      simp [hw]
    · simp [hi]

theorem word_bit (p q : Nat) (h : q < 32) : (1#32 <<< p).getLsbD q = decide (q = p) := by
  by_cases hq : q = p
  · subst hq
    simp [h]
  · by_cases hlt : q < p
    · simp [hq, hlt]
    · have hsub : q - p ≠ 0 := by omega
      simp [hq, hlt, BitVec.getLsbD_one, hsub]

/-! ## Bytes -/

theorem BIT_SET_N_meet (be : Bool) (p q : Nat) :
    BIT_SET_N be p &&& BIT_SET_N be q = if q % 8 = p % 8 then BIT_SET_N be q else 0 := by
  have hall : ∀ (be : Bool), ∀ p < 8, ∀ q < 8,
      BIT_SET_N be p &&& BIT_SET_N be q = if q = p then BIT_SET_N be q else 0 := by
    decide
  have h := hall be (p % 8) (Nat.mod_lt _ (by omega)) (q % 8) (Nat.mod_lt _ (by omega))
  simpa only [BIT_SET_N_mod] using h

theorem BIT_SET_N_rest (be : Bool) (p q : Nat) :
    ~~~BIT_SET_N be p &&& BIT_SET_N be q = if q % 8 = p % 8 then 0 else BIT_SET_N be q := by
  have hall : ∀ (be : Bool), ∀ p < 8, ∀ q < 8,
      ~~~BIT_SET_N be p &&& BIT_SET_N be q = if q = p then 0 else BIT_SET_N be q := by
    decide
  have h := hall be (p % 8) (Nat.mod_lt _ (by omega)) (q % 8) (Nat.mod_lt _ (by omega))
  simpa only [BIT_SET_N_mod] using h

theorem BIT_SET_N_ne_zero (be : Bool) (p : Nat) : BIT_SET_N be p ≠ 0 := by
  have hall : ∀ (be : Bool), ∀ p < 8, BIT_SET_N be p ≠ 0 := by
    decide
  simpa only [BIT_SET_N_mod] using hall be (p % 8) (Nat.mod_lt _ (by omega))

theorem byte_set (be : Bool) (byte : UB) (p q : Nat) :
    ((byte ||| BIT_SET_N be p) &&& BIT_SET_N be q != 0) =
      (decide (q % 8 = p % 8) || (byte &&& BIT_SET_N be q != 0)) := by
  have hsplit : (byte ||| BIT_SET_N be p) &&& BIT_SET_N be q =
      byte &&& BIT_SET_N be q ||| BIT_SET_N be p &&& BIT_SET_N be q := by
    apply BitVec.eq_of_getLsbD_eq
    intro i _
    simp [Bool.and_or_distrib_right]
  rw [hsplit, BIT_SET_N_meet]
  by_cases hq : q % 8 = p % 8
  · have hne : ¬BIT_SET_N be q = 0#8 := BIT_SET_N_ne_zero be q
    simp [hq, hne]
  · simp [hq]

theorem byte_clr (be : Bool) (byte : UB) (p q : Nat) :
    (byte &&& ~~~BIT_SET_N be p &&& BIT_SET_N be q != 0) =
      (!decide (q % 8 = p % 8) && (byte &&& BIT_SET_N be q != 0)) := by
  rw [BitVec.and_assoc, BIT_SET_N_rest]
  by_cases hq : q % 8 = p % 8
  · simp [hq]
  · simp [hq]

/-! ## What the operations do to the bits -/

namespace Bitmap

theorem test_zero : (zero c).test c p = false := by
  unfold zero
  split
  · simp [test]
  · unfold test
    exact bitAt_zero p rfl

theorem bitAt_update {b : Nat → UB} {be : Bool} {byte : UB} :
    bitAt be (Function.update b (p / 8) byte) q =
      if q / 8 = p / 8 then byte &&& BIT_SET_N be q != 0 else bitAt be b q := by
  unfold bitAt
  by_cases hq : q / 8 = p / 8
  · rw [if_pos hq, hq, Function.update_self]
  · rw [if_neg hq, Function.update_of_ne hq]

theorem same_bit : decide (q = p) = (decide (q / 8 = p / 8) && decide (q % 8 = p % 8)) := by
  rw [← Bool.decide_and, decide_eq_decide]
  omega

theorem test_set (h : m.Fits c) (hq : q < c.numTskpri) :
    (m.set c p).test c q = (decide (q = p) || m.test c q) := by
  cases m with
  | word w =>
    have hfit : c.numTskpri ≤ 32 := h
    simp only [set, test]
    rw [word_test _ (by omega), word_test _ (by omega), BitVec.getLsbD_or,
      word_bit p q (by omega), Bool.or_comm]
  | bytes b =>
    have hneg : ¬((p : Int) < 0) := by omega
    have hcp : ((p : Int) / 8).toNat = p / 8 := by omega
    simp only [set, test, knlBitset, if_neg hneg, hcp, Int.toNat_natCast]
    rw [bitAt_update, byte_set, same_bit (p := p) (q := q)]
    by_cases hb : q / 8 = p / 8
    · simp [hb, bitAt]
    · simp [hb]

theorem test_clr (h : m.Fits c) (hq : q < c.numTskpri) :
    (m.clr c p).test c q = (!decide (q = p) && m.test c q) := by
  cases m with
  | word w =>
    have hfit : c.numTskpri ≤ 32 := h
    have hlt : q < 32 := by omega
    simp only [clr, test]
    rw [word_test _ hlt, word_test _ hlt, BitVec.getLsbD_and, BitVec.getLsbD_not,
      word_bit p q hlt, Bool.and_comm]
    simp [hlt]
  | bytes b =>
    have hneg : ¬((p : Int) < 0) := by omega
    have hcp : ((p : Int) / 8).toNat = p / 8 := by omega
    simp only [clr, test, knlBitclr, if_neg hneg, hcp, Int.toNat_natCast]
    rw [bitAt_update, byte_clr, same_bit (p := p) (q := q)]
    by_cases hb : q / 8 = p / 8
    · simp [hb, bitAt]
    · simp [hb]

end Bitmap

/-- `n` is the first priority whose bit is set, or the number of priorities. -/
structure TopOf (c : RdyCfg) (bit : Nat → Bool) (n : Nat) : Prop where
  le : n ≤ c.numTskpri
  low : ∀ q < n, bit q = false
  bit : n < c.numTskpri → bit n = true

theorem calcTopPriority_topOf {w : BitVec 32} (left pos : Nat)
    (hsum : pos + left = c.numTskpri)
    (hlow : ∀ q < pos, (Bitmap.word w).test c q = false) :
    TopOf c ((Bitmap.word w).test c) (calcTopPriority w left pos) := by
  induction left generalizing pos with
  | zero => exact ⟨by unfold calcTopPriority; omega, hlow, fun h => by
      unfold calcTopPriority at h; omega⟩
  | succ left ih =>
    unfold calcTopPriority
    by_cases hb : w &&& 1#32 <<< pos ≠ 0
    · rw [if_pos hb]
      exact ⟨by omega, hlow, fun _ => by simpa [Bitmap.test] using hb⟩
    · rw [if_neg hb]
      refine ih (pos + 1) (by omega) fun q hq => ?_
      by_cases hqp : q = pos
      · subst hqp
        simpa [Bitmap.test] using hb
      · exact hlow q (by omega)

/-- With every bit below clear, the search for the next one ends and finds it. -/
theorem Bitmap.nextTop_topOf (h : m.Fits c) (hp : p < c.numTskpri)
    (hlow : ∀ q < p, m.test c q = false) :
    ∃ n, m.nextTop c p = some n ∧ TopOf c (m.test c) n := by
  cases m with
  | word w => exact ⟨_, rfl, calcTopPriority_topOf _ p (by omega) hlow⟩
  | bytes b =>
    have hsize := c.addressable
    have hstray : ¬StrayLow c.bigEndian b p := by
      rintro ⟨hne, hhigh⟩
      refine hne (@byte_eq_zero c.bigEndian _ _ fun i hi => ?_)
      by_cases hip : p % 8 ≤ i
      · exact hhigh i hi hip
      · exact hlow _ (by omega)
    have hover : ¬Overruns c.bigEndian b p (c.numTskpri - p) := by
      rintro ⟨hstop, -⟩
      unfold lastStop at hstop
      omega
    obtain ⟨r, hr, -, hfirst⟩ := bitsearch1_answers (Or.inr hstray) hover
      (show c.numTskpri - p + 9 ≤ c.numTskpri + 9 by omega)
    simp only [nextTop, hr]
    rcases hfirst with ⟨hnone, hclear⟩ | ⟨k, hk, hlt, hset, hclear⟩
    · rw [Option.map_some, hnone]
      refine ⟨_, rfl, Nat.le_refl _, fun q hq => ?_, fun hlt => absurd hlt (Nat.lt_irrefl _)⟩
      by_cases hqp : q < p
      · exact hlow q hqp
      · have hq' := hclear (q - p) (by simp at hq; omega)
        rwa [show p + (q - p) = q by omega] at hq'
    · rw [Option.map_some, hk]
      refine ⟨_, rfl, ?_⟩
      rw [if_pos (Int.natCast_nonneg k), Int.toNat_natCast]
      refine ⟨by omega, fun q hq => ?_, fun _ => hset⟩
      by_cases hqp : q < p
      · exact hlow q hqp
      · have hq' := hclear (q - p) (by omega)
        rwa [show p + (q - p) = q by omega] at hq'

end Mtk3Smp
