import Mathlib.Data.List.Count
import Mathlib.Data.List.Nodup
import Mathlib.Data.List.Range
import Mathlib.Logic.Function.Basic

/-!
# Counting processes by phase

`census n pc p` is the number of the processes `0 … n - 1` whose phase has the property `p`. When
one of them moves on, the number changes by what it was and what it is.
-/

universe u

def census {φ : Type u} (n : Nat) (pc : Nat → φ) (p : φ → Bool) : Nat :=
  (List.range n).countP fun t => p (pc t)

namespace Census

variable {φ : Type u} {n t u : Nat} {pc pc' : Nat → φ} {p q : φ → Bool} {v : φ}

theorem census_succ : census (n + 1) pc p = census n pc p + (p (pc n)).toNat := by
  unfold census
  rw [List.range_succ, List.countP_append, List.countP_singleton]
  cases p (pc n) <;> rfl

theorem census_congr (h : ∀ t < n, p (pc' t) = p (pc t)) : census n pc' p = census n pc p := by
  induction n with
  | zero => rfl
  | succ n ih =>
    rw [census_succ, census_succ, ih fun t ht => h t (Nat.lt_succ_of_lt ht),
      h n (Nat.lt_succ_self n)]

/-- One process moves on to `v`. -/
theorem census_update (ht : t < n) :
    census n (Function.update pc t v) p + (p (pc t)).toNat = census n pc p + (p v).toNat := by
  induction n with
  | zero => cases ht
  | succ n ih =>
    rw [census_succ, census_succ]
    by_cases last : t = n
    · subst last
      have below : census t (Function.update pc t v) p = census t pc p :=
        census_congr fun u hu => by rw [Function.update_of_ne (Nat.ne_of_lt hu)]
      rw [below, Function.update_self]
      omega
    · have hlt : t < n := Nat.lt_of_le_of_ne (Nat.le_of_lt_succ ht) last
      have := ih hlt
      rw [Function.update_of_ne (Ne.symm last)]
      omega

theorem census_pos : 0 < census n pc p ↔ ∃ t < n, p (pc t) = true := by
  unfold census
  rw [List.countP_pos_iff]
  simp [List.mem_range]

theorem census_eq_zero (h : ∀ t < n, p (pc t) = false) : census n pc p = 0 := by
  by_contra hne
  obtain ⟨t, ht, hp⟩ := census_pos.1 (Nat.pos_of_ne_zero hne)
  rw [h t ht] at hp
  cases hp

/-- Disjoint properties. -/
theorem census_add (h : ∀ v, p v = true → q v = false) :
    census n pc p + census n pc q = census n pc fun v => p v || q v := by
  induction n with
  | zero => rfl
  | succ n ih =>
    rw [census_succ, census_succ, census_succ, ← ih]
    have := h (pc n)
    cases hp : p (pc n) <;> cases hq : q (pc n) <;> simp_all <;> omega

theorem census_le : census n pc p ≤ n := by
  have := List.countP_le_length (p := fun t => p (pc t)) (l := List.range n)
  rwa [List.length_range] at this

/-- Distinct processes with the property. -/
theorem length_le_census {l : List Nat} (hl : l.Nodup) (h : ∀ t ∈ l, t < n ∧ p (pc t) = true) :
    l.length ≤ census n pc p := by
  have hsub : l ⊆ (List.range n).filter fun t => p (pc t) := fun t ht => by
    obtain ⟨hlt, hp⟩ := h t ht
    exact List.mem_filter.2 ⟨List.mem_range.2 hlt, hp⟩
  unfold census
  rw [List.countP_eq_length_filter]
  exact (List.subperm_of_subset hl hsub).length_le

/-- All of the processes with the property. -/
theorem census_le_length {l : List Nat} (h : ∀ t < n, p (pc t) = true → t ∈ l) :
    census n pc p ≤ l.length := by
  have hsub : (List.range n).filter (fun t => p (pc t)) ⊆ l := fun t ht => by
    obtain ⟨hlt, hp⟩ := List.mem_filter.1 ht
    exact h t (List.mem_range.1 hlt) hp
  have hnd : ((List.range n).filter fun t => p (pc t)).Nodup := List.nodup_range.filter _
  unfold census
  rw [List.countP_eq_length_filter]
  exact (List.subperm_of_subset hnd hsub).length_le

/-- Of the processes with the property there is at most one. -/
theorem eq_of_census_le_one (h : census n pc p ≤ 1) (ht : t < n) (hu : u < n)
    (hpt : p (pc t) = true) (hpu : p (pc u) = true) : t = u := by
  induction n with
  | zero => cases ht
  | succ n ih =>
    rw [census_succ] at h
    by_cases last : p (pc n) = true
    · rw [last] at h
      have hzero : census n pc p = 0 := by
        simp only [Bool.toNat_true] at h
        omega
      have hnone : ∀ w < n, p (pc w) = true → False := fun w hw hpw => by
        have := census_pos.2 ⟨w, hw, hpw⟩
        omega
      have htn : t = n := by
        by_contra hne
        exact hnone t (by omega) hpt
      have hun : u = n := by
        by_contra hne
        exact hnone u (by omega) hpu
      rw [htn, hun]
    · have hne : ∀ w, p (pc w) = true → w ≠ n := fun w hw he => last (he ▸ hw)
      have h1 := hne t hpt
      have h2 := hne u hpu
      exact ih (by omega) (by omega) (by omega)

end Census
