import Mathlib.Data.List.Count
import Mathlib.Data.List.Nodup
import Mathlib.Data.Set.Card

/-!
# How many there are

`Tally n p`: the property `p` holds of exactly `n` elements of a type that need not be finite. One
element at a time gains the property or loses it.
-/

universe u v

def Tally {α : Type u} (n : Nat) (p : α → Prop) : Prop := Set.encard {a | p a} = n

namespace Tally

variable {α : Type u} {ι : Type v} {n m : Nat} {p q : α → Prop} {a b : α}

theorem congr (h : Tally n p) (hq : ∀ b, q b ↔ p b) : Tally n q := by
  have heq : q = p := funext fun b => propext (hq b)
  rwa [heq]

theorem unique (h : Tally n p) (h' : Tally m p) : n = m := by
  have heq : (n : ℕ∞) = m := Eq.trans (Eq.symm h) h'
  exact Nat.cast_injective heq

theorem zero : Tally 0 p ↔ ∀ a, ¬ p a := by
  unfold Tally
  rw [Nat.cast_zero, Set.encard_eq_zero, Set.eq_empty_iff_forall_notMem]
  rfl

theorem pos (h : Tally n p) (ha : p a) : 0 < n := by
  apply Nat.pos_of_ne_zero
  rintro rfl
  exact zero.1 h a ha

/-- There is one, the element `a`. -/
theorem one (h : ∀ b, p b ↔ b = a) : Tally 1 p := by
  have hset : {b | p b} = {a} := Set.ext h
  show Set.encard {b | p b} = ((1 : Nat) : ℕ∞)
  rw [hset, Set.encard_singleton, Nat.cast_one]

/-- `a` gains the property. -/
theorem enter (h : Tally n p) (ha : ¬ p a) (hq : ∀ b, q b ↔ p b ∨ b = a) : Tally (n + 1) q := by
  have hset : {b | q b} = insert a {b | p b} :=
    Set.ext fun b => (hq b).trans Or.comm
  have hn : Set.encard {b | p b} = n := h
  have hnot : a ∉ {b | p b} := ha
  show Set.encard {b | q b} = ((n + 1 : Nat) : ℕ∞)
  rw [hset, Set.encard_insert_of_notMem hnot, hn, Nat.cast_add, Nat.cast_one]

/-- `a` loses the property. -/
theorem leave (h : Tally n p) (ha : p a) (hq : ∀ b, q b ↔ p b ∧ b ≠ a) : Tally (n - 1) q := by
  have hset : {b | q b} = {b | p b} \ {a} := Set.ext hq
  have hn : Set.encard {b | p b} = n := h
  have hmem : a ∈ {b | p b} := ha
  show Set.encard {b | q b} = ((n - 1 : Nat) : ℕ∞)
  rw [hset, Set.encard_sdiff_singleton_of_mem hmem, hn, ENat.natCast_sub, Nat.cast_one]

/-- The elements that are assigned to the entries of a list, no two entries to one element. -/
theorem countP {f : ι → Option α} {l : List ι} (hl : l.Nodup)
    (hf : ∀ i ∈ l, ∀ j ∈ l, ∀ a, f i = some a → f j = some a → i = j) :
    Tally (l.countP fun i => (f i).isSome) fun a => ∃ i ∈ l, f i = some a := by
  induction l with
  | nil =>
    apply zero.2
    rintro a ⟨i, hi, -⟩
    cases hi
  | cons i l ih =>
    obtain ⟨hnot, hl⟩ := List.nodup_cons.1 hl
    have hrest := ih hl fun j hj k hk =>
      hf j (List.mem_cons_of_mem _ hj) k (List.mem_cons_of_mem _ hk)
    rw [List.countP_cons]
    cases hi : f i with
    | none =>
      apply hrest.congr
      intro a
      simp [hi]
    | some b =>
      refine hrest.enter (a := b) ?_ ?_
      · rintro ⟨j, hj, hb⟩
        obtain rfl := hf i List.mem_cons_self j (List.mem_cons_of_mem _ hj) b hi hb
        exact hnot hj
      · intro a
        simp [hi, or_comm, eq_comm]

end Tally
