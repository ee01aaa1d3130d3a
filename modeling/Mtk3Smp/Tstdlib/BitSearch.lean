import Mtk3Smp.Tstdlib.Bitop
import Mathlib.Algebra.Order.Ring.Nat

/-!
# What `knl_bitsearch1` finds

The search is right where its inner loop has a bit to stop at and its position stays a
`W`. Set bits below the offset, in the first byte, make it enter the inner loop with
nothing to find there.
-/

namespace Mtk3Smp

variable {bigEndian : Bool} {base : Nat → UB} {offset width : Nat}

/-! ## The inner loop -/

theorem toW_toW_add (x y : Int) : toW (toW x + y) = toW (x + y) := by
  unfold toW
  omega

theorem searchByte_finds {byte : UB} {wid : Int} (d : Nat) {n fuel : Nat} {position : Int}
    (hn : n + d < 8) (hb : byte &&& BIT_SET_N bigEndian (n + d) ≠ 0)
    (hmin : ∀ j < n + d, n ≤ j → byte &&& BIT_SET_N bigEndian j = 0)
    (hp : toW position = position) (hf : d < fuel) :
    searchByte bigEndian byte wid fuel (BIT_SET_N bigEndian n) position =
      some (if toW (position + d) < wid then toW (position + d) else -1) := by
  induction d generalizing n fuel position with
  | zero =>
    cases fuel with
    | zero => omega
    | succ fuel =>
      have hb' : byte &&& BIT_SET_N bigEndian n ≠ 0 := hb
      rw [searchByte, if_pos hb']
      simp [hp]
  | succ d ih =>
    cases fuel with
    | zero => omega
    | succ fuel =>
      have h0 : byte &&& BIT_SET_N bigEndian n = 0 := hmin n (by omega) (by omega)
      have hs : n + 1 + d = n + (d + 1) := by omega
      have hrest := @ih (n + 1) fuel (toW (position + 1))
        (by omega) (by rwa [hs]) (fun j hj hle => hmin j (by omega) (by omega))
        (by simpa using toW_toW_add (position + 1) 0) (by omega)
      rw [searchByte, if_neg (by simp [h0]), BIT_SHIFT_set bigEndian n (by omega), hrest,
        toW_toW_add]
      have hadd : position + 1 + (d : Int) = position + ((d + 1 : Nat) : Int) := by omega
      rw [hadd]

theorem searchByte_zero {byte : UB} {wid : Int} (fuel : Nat) (position : Int) :
    searchByte bigEndian byte wid fuel 0 position = none := by
  induction fuel generalizing position with
  | zero => rfl
  | succ fuel ih =>
    rw [searchByte, if_neg (by simp), BIT_SHIFT_zero]
    exact ih _

theorem searchByte_mono {byte mask : UB} {wid position k : Int} {fuel : Nat} (n : Nat)
    (h : searchByte bigEndian byte wid fuel mask position = some k) :
    searchByte bigEndian byte wid (fuel + n) mask position = some k := by
  induction fuel generalizing mask position with
  | zero => simp [searchByte] at h
  | succ fuel ih =>
    rw [searchByte] at h
    rw [Nat.succ_add, searchByte]
    split at h
    · rename_i hb
      rw [if_pos hb, h]
    · rename_i hb
      rw [if_neg hb]
      exact ih h

/-- Past the last bit the mask is 0 and stays 0. -/
theorem searchByte_endless {byte : UB} {wid : Int} {n : Nat} (hn : n < 8)
    (h : ∀ i < 8, n ≤ i → byte &&& BIT_SET_N bigEndian i = 0) (fuel : Nat) (position : Int) :
    searchByte bigEndian byte wid fuel (BIT_SET_N bigEndian n) position = none := by
  induction fuel generalizing n position with
  | zero => rfl
  | succ fuel ih =>
    rw [searchByte, if_neg (by simp [h n hn (Nat.le_refl n)])]
    by_cases hlast : n = 7
    · subst hlast
      rw [BIT_SHIFT_last]
      exact searchByte_zero fuel _
    · rw [BIT_SHIFT_set bigEndian n (by omega)]
      exact ih (by omega) (fun i hi hle => h i hi (by omega)) _

/-! ## The outer loop -/

/-- The last position at a byte boundary that a `W` can count to. -/
def lastStop (offset : Nat) : Nat := (2 ^ 31 - 1 + offset % 8) / 8 * 8 - offset % 8

/-- No set bit that a `W` could give the position of, and a width beyond the last stop. -/
def Overruns (bigEndian : Bool) (base : Nat → UB) (offset width : Nat) : Prop :=
  lastStop offset < width ∧ base (offset / 8) = 0 ∧
    ∀ k < 2 ^ 31, bitAt bigEndian base (offset + k) = false

/-- The first byte has set bits, all of them below the offset. -/
def StrayLow (bigEndian : Bool) (base : Nat → UB) (offset : Nat) : Prop :=
  base (offset / 8) ≠ 0 ∧
    ∀ i < 8, offset % 8 ≤ i → bitAt bigEndian base (8 * (offset / 8) + i) = false

/-- A search that ends with the right answer and reads no byte but those of its bits. -/
def Answers (bigEndian : Bool) (base : Nat → UB) (offset width : Nat)
    (r : Int × List Nat) : Prop :=
  (∀ cp ∈ r.2, offset / 8 ≤ cp ∧ 8 * cp < offset + width) ∧
    FirstSet (bitAt bigEndian base) offset width r.1

theorem Answers.cons {r : Int × List Nat} {cp : Nat} (h : Answers bigEndian base offset width r)
    (hlo : offset / 8 ≤ cp) (hhi : 8 * cp < offset + width) :
    Answers bigEndian base offset width (r.1, cp :: r.2) := by
  refine ⟨fun q hq => ?_, h.2⟩
  rcases List.mem_cons.1 hq with heq | hmem
  · subst heq
    exact ⟨hlo, hhi⟩
  · exact h.1 q hmem

/-- The first set bit of the byte at `position`, where everything before is clear. -/
theorem firstSet_here {position d : Nat} (hclear : ∀ k < position + d,
    bitAt bigEndian base (offset + k) = false)
    (hset : bitAt bigEndian base (offset + (position + d)) = true) :
    FirstSet (bitAt bigEndian base) offset width
      (if ((position + d : Nat) : Int) < (width : Int) then ((position + d : Nat) : Int)
        else -1) := by
  by_cases hlt : position + d < width
  · rw [if_pos (by exact_mod_cast hlt)]
    exact Or.inr ⟨position + d, rfl, hlt, hset, hclear⟩
  · rw [if_neg (by exact_mod_cast hlt)]
    exact Or.inl ⟨rfl, fun k hk => hclear k (by omega)⟩

/-- The bits of the byte at a stop. -/
theorem bit_stop {position : Nat} (hal : (offset + position) % 8 = 0) (i : Nat) (hi : i < 8) :
    bitAt bigEndian base (offset + (position + i)) =
      (base ((offset + position) / 8) &&& BIT_SET_N bigEndian i != 0) := by
  have hcp : 8 * ((offset + position) / 8) = offset + position := by omega
  rw [← bitAt_byte _ i hi, hcp, Nat.add_assoc]

theorem clear_through {position n : Nat} (hal : (offset + position) % 8 = 0) (hn : n ≤ 8)
    (hclear : ∀ k < position, bitAt bigEndian base (offset + k) = false)
    (hbits : ∀ i < n, base ((offset + position) / 8) &&& BIT_SET_N bigEndian i = 0) :
    ∀ k < position + n, bitAt bigEndian base (offset + k) = false := by
  intro k hk
  by_cases hkp : k < position
  · exact hclear k hkp
  · have hb := @bit_stop bigEndian base _ _ hal (k - position) (by omega)
    rw [show position + (k - position) = k by omega, hbits (k - position) (by omega)] at hb
    simpa using hb

/-- Where everything is clear up to the end of a `W`, the search overruns. -/
theorem overruns_of_clear {position n : Nat} (hal : (offset + position) % 8 = 0)
    (hp : position < 2 ^ 31) (hlt : position < width) (hn : n ≤ 8)
    (hge : 2 ^ 31 ≤ position + n) (hfirst : base (offset / 8) = 0)
    (hclear : ∀ k < position + n, bitAt bigEndian base (offset + k) = false) :
    Overruns bigEndian base offset width := by
  have hstop : lastStop offset = position := by
    unfold lastStop
    omega
  exact ⟨by omega, hfirst, fun k hk => hclear k (by omega)⟩

/-- From a stop between two bytes, with nothing set before it. -/
theorem searchFrom_answers (hover : ¬Overruns bigEndian base offset width)
    (hfirst : base (offset / 8) = 0) {position fuel : Nat} (h0 : 0 < position)
    (hp : position < 2 ^ 31) (hal : (offset + position) % 8 = 0)
    (hclear : ∀ k < position, bitAt bigEndian base (offset + k) = false)
    (hf : width - position + 9 ≤ fuel) :
    ∃ r, searchFrom bigEndian base offset width fuel ((offset + position) / 8)
        (BIT_SET_N bigEndian 0) position = some r ∧ Answers bigEndian base offset width r := by
  induction hm : width - position using Nat.strong_induction_on
    generalizing position fuel with
  | _ m ih =>
    obtain ⟨fuel, rfl⟩ : ∃ f, fuel = f + 1 := ⟨fuel - 1, by omega⟩
    rw [searchFrom]
    by_cases hlt : position < width
    · rw [if_pos (by exact_mod_cast hlt)]
      by_cases hz : base ((offset + position) / 8) = 0
      · -- a zero byte is skipped; the position of the next one is still a W
        have hclear' := clear_through (n := 8) hal (by omega) hclear (by simp [hz])
        have hnext : position + 8 < 2 ^ 31 := by
          by_contra hge
          exact hover (overruns_of_clear hal hp hlt (by omega) (by omega) hfirst hclear')
        obtain ⟨r, hr, hans⟩ := @ih (width - (position + 8)) (by omega)
          (position + 8) fuel (by omega) hnext (by omega) hclear'
          (by omega) rfl
        have hto : toW ((position : Int) + 8) = ((position + 8 : Nat) : Int) := by
          exact_mod_cast toW_of_lt hnext
        have hcp : (offset + (position + 8)) / 8 = (offset + position) / 8 + 1 := by omega
        rw [hcp] at hr
        rw [if_neg (by simpa using hz), if_pos (by exact_mod_cast (by omega : position ≠ 0)),
          hto, hr]
        exact ⟨_, rfl, hans.cons (by omega) (by omega)⟩
      · obtain ⟨i, hi, hb⟩ := byte_bit bigEndian _ hz
        obtain ⟨i, hi, -, hb, hmin⟩ := byte_firstBit bigEndian _ 0 ⟨i, hi, by omega, hb⟩
        have hclear' := clear_through hal (by omega) hclear
          (fun j hj => hmin j hj (Nat.zero_le j))
        have hset : bitAt bigEndian base (offset + (position + i)) = true := by
          rw [bit_stop hal i hi]
          simpa using hb
        have hfit : position + i < 2 ^ 31 := by
          by_contra hge
          exact hover (overruns_of_clear hal hp hlt (by omega) (by omega) hfirst hclear')
        have hfound := @searchByte_finds bigEndian _ width i
          0 (fuel + 1) position (by omega)
          (by simpa using hb) (fun j hj hle => hmin j (by omega) hle) (toW_of_lt hp)
          (by omega)
        have hto : toW ((position : Int) + i) = ((position + i : Nat) : Int) := by
          exact_mod_cast toW_of_lt hfit
        rw [if_pos hz, hfound, hto]
        refine ⟨_, rfl, fun cp hcp => ?_, firstSet_here hclear' hset⟩
        rw [List.mem_singleton.1 hcp]
        omega
    · rw [if_neg (by exact_mod_cast hlt)]
      exact ⟨_, rfl, by simp, Or.inl ⟨rfl, fun k hk => hclear k (by omega)⟩⟩

/-! ## The whole search -/

theorem bitsearch1_start (fuel : Nat) :
    knlBitsearch1 bigEndian base offset width fuel =
      searchFrom bigEndian base offset width fuel (offset / 8)
        (BIT_SET_N bigEndian (offset % 8)) 0 := by
  have hcp : ((offset : Int) / 8).toNat = offset / 8 := by omega
  unfold knlBitsearch1
  rw [if_neg (by omega), hcp, Int.toNat_natCast, BIT_SET_N_mod]

/-- The first byte holds a set bit at or above the offset. -/
theorem searchFirst (hw : 0 < width) {fuel : Nat} (hf : 8 ≤ fuel)
    (h : ∃ i < 8, offset % 8 ≤ i ∧ base (offset / 8) &&& BIT_SET_N bigEndian i ≠ 0) :
    ∃ r, knlBitsearch1 bigEndian base offset width fuel = some r ∧
      Answers bigEndian base offset width r := by
  obtain ⟨i, hi, hle, hb, hmin⟩ := byte_firstBit bigEndian _ _ h
  have hz : base (offset / 8) ≠ 0 := by
    intro hz
    simp [hz] at hb
  have hsum : offset % 8 + (i - offset % 8) = i := by omega
  have hbit : ∀ k, offset % 8 + k < 8 → bitAt bigEndian base (offset + k) =
      (base (offset / 8) &&& BIT_SET_N bigEndian (offset % 8 + k) != 0) := by
    intro k hk
    rw [← bitAt_byte _ _ hk]
    congr 1
    omega
  have hfound := @searchByte_finds bigEndian _ width (i - offset % 8)
    (offset % 8) fuel 0 (by omega) (by rwa [hsum])
    (fun j hj hn => hmin j (by omega) hn) (by decide) (by omega)
  have hto : toW (0 + ((i - offset % 8 : Nat) : Int)) = ((0 + (i - offset % 8) : Nat) : Int) := by
    have hlt : 0 + (i - offset % 8) < 2 ^ 31 := by omega
    exact_mod_cast toW_of_lt hlt
  obtain ⟨f, rfl⟩ : ∃ f, fuel = f + 1 := ⟨fuel - 1, by omega⟩
  rw [bitsearch1_start, searchFrom, if_pos (by exact_mod_cast hw), if_pos hz, hfound, hto]
  refine ⟨_, rfl, fun cp hcp => ?_, firstSet_here (fun k hk => ?_) ?_⟩
  · rw [List.mem_singleton.1 hcp]
    omega
  · rw [hbit k (by omega), hmin (offset % 8 + k) (by omega) (by omega)]
    rfl
  · rw [hbit _ (by omega), Nat.zero_add, hsum]
    simpa using hb

/-- The search answers, in a number of rounds that the width bounds. -/
theorem bitsearch1_answers (hstray : width = 0 ∨ ¬StrayLow bigEndian base offset)
    (hover : ¬Overruns bigEndian base offset width) {fuel : Nat} (hf : width + 9 ≤ fuel) :
    ∃ r, knlBitsearch1 bigEndian base offset width fuel = some r ∧
      Answers bigEndian base offset width r := by
  obtain ⟨f, rfl⟩ : ∃ f, fuel = f + 1 := ⟨fuel - 1, by omega⟩
  by_cases hw : width = 0
  · subst hw
    rw [bitsearch1_start, searchFrom, if_neg (by simp)]
    exact ⟨_, rfl, by simp, Or.inl ⟨rfl, fun k hk => absurd hk (Nat.not_lt_zero k)⟩⟩
  · have hstray' := hstray.resolve_left hw
    by_cases hz : base (offset / 8) = 0
    · have hclear : ∀ k < 8 - offset % 8, bitAt bigEndian base (offset + k) = false := by
        intro k hk
        have hcp : (offset + k) / 8 = offset / 8 := by omega
        exact bitAt_zero _ (by rw [hcp, hz])
      obtain ⟨r, hr, hans⟩ := @searchFrom_answers _ _ _ _ hover hz (8 - offset % 8)
        f (by omega) (by omega) (by omega) hclear (by omega)
      have hcp : (offset + (8 - offset % 8)) / 8 = offset / 8 + 1 := by omega
      have hpos : ((8 - offset % 8 : Nat) : Int) = 8 - (offset : Int) % 8 := by omega
      rw [hcp, hpos] at hr
      rw [bitsearch1_start, searchFrom, if_pos (by omega), if_neg (by simpa using hz),
        if_neg (by simp), hr]
      exact ⟨_, rfl, hans.cons (by omega) (by omega)⟩
    · apply searchFirst (by omega) (by omega)
      by_contra hnone
      refine hstray' ⟨hz, fun i hi hle => ?_⟩
      rw [bitAt_byte _ i hi]
      by_contra hb
      exact hnone ⟨i, hi, hle, by simpa using hb⟩

/-! ## Where it fails -/

theorem bitsearch1_endless (hw : 0 < width) (h : StrayLow bigEndian base offset) (fuel : Nat) :
    knlBitsearch1 bigEndian base offset width fuel = none := by
  rw [bitsearch1_start]
  cases fuel with
  | zero => rfl
  | succ fuel =>
    have hbyte := @searchByte_endless bigEndian (base (offset / 8))
      width (offset % 8) (Nat.mod_lt _ (by omega))
      (fun i hi hle => by
        have hb := h.2 i hi hle
        rw [bitAt_byte _ i hi] at hb
        simpa using hb) (fuel + 1) 0
    rw [searchFrom, if_pos (by exact_mod_cast hw), if_pos h.1, hbyte]
    rfl

/-- Once the position is negative, the byte there is read. -/
theorem searchFrom_reads {wid position : Int} {cp fuel : Nat} {mask : UB} {r : Int × List Nat}
    (hlt : position < wid)
    (h : searchFrom bigEndian base offset wid fuel cp mask position = some r) : cp ∈ r.2 := by
  cases fuel with
  | zero => simp [searchFrom] at h
  | succ fuel =>
    rw [searchFrom, if_pos hlt] at h
    split at h
    · obtain ⟨k, -, rfl⟩ := Option.map_eq_some_iff.1 h
      simp
    · split at h
      · obtain ⟨q, -, rfl⟩ := Option.map_eq_some_iff.1 h
        simp
      · obtain ⟨q, -, rfl⟩ := Option.map_eq_some_iff.1 h
        simp

/-- From a stop with all that a `W` can count to clear, it reads on past the string or
answers with a wrapped position. -/
theorem searchFrom_overruns (hw : width < 2 ^ 31) (h : Overruns bigEndian base offset width)
    {position fuel : Nat} (h0 : 0 < position) (hp : position ≤ lastStop offset)
    (hal : (offset + position) % 8 = 0) {r : Int × List Nat}
    (hr : searchFrom bigEndian base offset width fuel ((offset + position) / 8)
      (BIT_SET_N bigEndian 0) position = some r) :
    r.1 < -1 ∨ ∃ cp ∈ r.2, offset + width ≤ 8 * cp := by
  have hlast : lastStop offset < 2 ^ 31 := by
    unfold lastStop
    omega
  have hstop : (offset + lastStop offset) % 8 = 0 ∧ 2 ^ 31 ≤ lastStop offset + 8 := by
    unfold lastStop
    omega
  induction fuel generalizing position r with
  | zero => simp [searchFrom] at hr
  | succ fuel ih =>
    have hlt : position < width := Nat.lt_of_le_of_lt hp h.1
    have hnz : (position : Int) ≠ 0 := by omega
    rw [searchFrom, if_pos (by exact_mod_cast hlt)] at hr
    have hcp : (offset + (position + 8)) / 8 = (offset + position) / 8 + 1 := by omega
    by_cases hz : base ((offset + position) / 8) = 0
    · rw [if_neg (by simpa using hz), if_pos hnz] at hr
      obtain ⟨q, hq, rfl⟩ := Option.map_eq_some_iff.1 hr
      by_cases hend : position = lastStop offset
      · -- the position wraps, and the next byte is beyond the string
        have hneg : toW ((position : Int) + 8) < width := by
          unfold toW
          omega
        refine Or.inr ⟨_, List.mem_cons_of_mem _ (searchFrom_reads hneg hq), ?_⟩
        omega
      · have hnext : position + 8 ≤ lastStop offset := by omega
        have hto : toW ((position : Int) + 8) = ((position + 8 : Nat) : Int) := by
          exact_mod_cast toW_of_lt (by omega : position + 8 < 2 ^ 31)
        rw [hto, ← hcp] at hq
        rcases ih (by omega) hnext (by omega) hq with hneg | ⟨cp, hmem, hle⟩
        · exact Or.inl hneg
        · exact Or.inr ⟨cp, List.mem_cons_of_mem _ hmem, hle⟩
    · obtain ⟨i, hi, hb⟩ := byte_bit bigEndian _ hz
      obtain ⟨i, hi, -, hb, hmin⟩ := byte_firstBit bigEndian _ 0 ⟨i, hi, by omega, hb⟩
      have hge : 2 ^ 31 ≤ position + i := by
        by_contra hlt'
        have hc := h.2.2 (position + i) (by omega)
        rw [bit_stop hal i hi] at hc
        exact hb (by simpa using hc)
      rw [if_pos hz] at hr
      obtain ⟨k, hk, rfl⟩ := Option.map_eq_some_iff.1 hr
      have hfound := @searchByte_finds bigEndian _ width i
        0 (fuel + 1 + 8) position (by omega)
        (by simpa using hb) (fun j hj hle => hmin j (by omega) hle)
        (toW_of_lt (by omega)) (by omega)
      have hneg : toW ((position : Int) + i) < -1 := by
        unfold toW
        omega
      have hlt' : toW ((position : Int) + i) < width := Int.lt_trans hneg (by omega)
      have hval := (searchByte_mono 8 hk).symm.trans hfound
      rw [if_pos hlt', Option.some.injEq] at hval
      exact Or.inl (hval ▸ hneg)

theorem not_answers_overruns (hw : width < 2 ^ 31) (h : Overruns bigEndian base offset width)
    {fuel : Nat} {r : Int × List Nat}
    (hr : knlBitsearch1 bigEndian base offset width fuel = some r) :
    ¬Answers bigEndian base offset width r := by
  have hend : ∀ q : Int × List Nat, (q.1 < -1 ∨ ∃ cp ∈ q.2, offset + width ≤ 8 * cp) →
      ¬Answers bigEndian base offset width q := by
    intro q hq hans
    rcases hq with hneg | ⟨cp, hmem, hle⟩
    · rcases hans.2 with ⟨heq, -⟩ | ⟨k, heq, -⟩
      · omega
      · omega
    · have hin := (hans.1 cp hmem).2
      omega
  rw [bitsearch1_start] at hr
  cases fuel with
  | zero => simp [searchFrom] at hr
  | succ fuel =>
    have hpos : 0 < width := Nat.lt_of_le_of_lt (Nat.zero_le _) h.1
    rw [searchFrom, if_pos (by exact_mod_cast hpos), if_neg (by simpa using h.2.1),
      if_neg (by simp)] at hr
    obtain ⟨q, hq, rfl⟩ := Option.map_eq_some_iff.1 hr
    have hcp : (offset + (8 - offset % 8)) / 8 = offset / 8 + 1 := by omega
    have hfirst : ((8 - offset % 8 : Nat) : Int) = 8 - (offset : Int) % 8 := by omega
    have hle : 8 - offset % 8 ≤ lastStop offset := by
      unfold lastStop
      omega
    rw [← hcp, ← hfirst] at hq
    apply hend
    rcases searchFrom_overruns hw h (by omega) hle (by omega) hq with hneg | ⟨cp, hmem, hin⟩
    · exact Or.inl hneg
    · exact Or.inr ⟨cp, List.mem_cons_of_mem _ hmem, hin⟩

/-- `knl_bitsearch1` terminates with the first set bit, reading the bytes of the string
only, unless the first byte has bits below the offset alone or the position overruns. -/
theorem bitsearch1_iff (bigEndian : Bool) (base : Nat → UB) (offset width : Nat)
    (hw : width < 2 ^ 31) :
    (∃ fuel r, knlBitsearch1 bigEndian base offset width fuel = some r ∧
        Answers bigEndian base offset width r) ↔
      (width = 0 ∨ ¬StrayLow bigEndian base offset) ∧
        ¬Overruns bigEndian base offset width := by
  constructor
  · rintro ⟨fuel, r, hr, hans⟩
    refine ⟨?_, fun hover => not_answers_overruns hw hover hr hans⟩
    by_contra hbad
    rw [not_or, not_not] at hbad
    rw [bitsearch1_endless (by omega) hbad.2] at hr
    cases hr
  · rintro ⟨hstray, hover⟩
    obtain ⟨r, hr, hans⟩ := bitsearch1_answers hstray hover (Nat.le_refl _)
    exact ⟨_, r, hr, hans⟩

/-- Bits 0, 12 and 13 set, searched from bit 9. -/
theorem bitsearch1_small :
    (∃ fuel r, knlBitsearch1 false (fun cp => if cp = 0 then 1 else 0x30) 9 7 fuel = some r ∧
        Answers false (fun cp => if cp = 0 then 1 else 0x30) 9 7 r) ↔
      (7 = 0 ∨ ¬StrayLow false (fun cp => if cp = 0 then 1 else 0x30) 9) ∧
        ¬Overruns false (fun cp => if cp = 0 then 1 else 0x30) 9 7 :=
  bitsearch1_iff false _ 9 7 (by decide)

/-- With bit 0 alone set, a search of bit 1 never ends. -/
theorem not_bitsearch1 :
    ¬∃ fuel r, knlBitsearch1 false (fun _ => 1) (1 : Nat) (1 : Nat) fuel = some r ∧
      Answers false (fun _ => 1) 1 1 r := by
  rintro ⟨fuel, r, hr, -⟩
  have hstray : StrayLow false (fun _ => 1) 1 := by
    unfold StrayLow
    decide
  rw [bitsearch1_endless (by decide) hstray] at hr
  cases hr

end Mtk3Smp
