import Mathlib.Data.List.Sort

/-!
# Lists ordered by a key

A queue in which every element stands before those with larger keys: a new element goes in
front of the first one whose key is larger, that is, behind those with its own key.
-/

universe u v

namespace KeyOrder

variable {α : Type u} {κ : Type v} [LinearOrder κ] (key : α → κ)

/-- The keys do not decrease. -/
def Sorted (l : List α) : Prop := l.Pairwise fun x y => key x ≤ key y

/-- Puts `x` in front of the first element whose key is larger. -/
def insert (x : α) (l : List α) : List α := l.orderedInsert (fun x y => key x < key y) x

variable {key} {l : List α} {x y : α}

theorem perm_insert (x : α) (l : List α) : (insert key x l).Perm (x :: l) :=
  List.perm_orderedInsert _ x l

@[simp] theorem mem_insert : y ∈ insert key x l ↔ y = x ∨ y ∈ l :=
  List.mem_orderedInsert _

theorem insert_nil : insert key x [] = [x] := rfl

theorem insert_cons_of_lt (h : key x < key y) : insert key x (y :: l) = x :: y :: l :=
  List.orderedInsert_cons_of_le _ l h

theorem insert_cons_of_le (h : key y ≤ key x) :
    insert key x (y :: l) = y :: insert key x l :=
  List.orderedInsert_of_not_le _ l (not_lt.2 h)

/-- An element that none exceeds goes to the end. -/
theorem insert_of_le (h : ∀ y ∈ l, key y ≤ key x) : insert key x l = l ++ [x] := by
  induction l with
  | nil => rfl
  | cons y l ih =>
    rw [insert_cons_of_le (h y List.mem_cons_self), ih fun z hz => h z (List.mem_cons_of_mem _ hz)]
    rfl

/-- Only the keys of the elements matter. -/
theorem insert_congr {key' : α → κ} (hx : key' x = key x) (hl : ∀ y ∈ l, key' y = key y) :
    insert key' x l = insert key x l := by
  induction l with
  | nil => rfl
  | cons y l ih =>
    have hy := hl y List.mem_cons_self
    by_cases h : key x < key y
    · rw [insert_cons_of_lt h, insert_cons_of_lt (by rwa [hx, hy])]
    · have hle := not_lt.1 h
      rw [insert_cons_of_le hle, insert_cons_of_le (by rwa [hx, hy]),
        ih fun z hz => hl z (List.mem_cons_of_mem _ hz)]

/-- Only the order of the new element and the others matters. -/
theorem insert_congr_lt {μ : Type*} [LinearOrder μ] {key' : α → μ}
    (h : ∀ y ∈ l, key' x < key' y ↔ key x < key y) : insert key' x l = insert key x l := by
  induction l with
  | nil => rfl
  | cons y l ih =>
    have hy := h y List.mem_cons_self
    by_cases hlt : key x < key y
    · rw [insert_cons_of_lt hlt, insert_cons_of_lt (hy.2 hlt)]
    · have hle' := not_lt.1 fun hlt' => hlt (hy.1 hlt')
      rw [insert_cons_of_le (not_lt.1 hlt), insert_cons_of_le hle',
        ih fun z hz => h z (List.mem_cons_of_mem _ hz)]

/-- An element that is not smaller than the head leaves the head where it is. -/
theorem head?_insert_of_le (hy : l.head? = some y) (h : key y ≤ key x) :
    (insert key x l).head? = some y := by
  cases l with
  | nil => cases hy
  | cons z l =>
    obtain rfl : z = y := Option.some.inj hy
    rw [insert_cons_of_le h]
    rfl

theorem head?_insert_of_lt (h : ∀ y, l.head? = some y → key x < key y) :
    (insert key x l).head? = some x := by
  cases l with
  | nil => rfl
  | cons z l => rw [insert_cons_of_lt (h z rfl)]; rfl

theorem Sorted.insert (h : Sorted key l) (x : α) : Sorted key (insert key x l) := by
  induction l with
  | nil => exact List.pairwise_singleton _ _
  | cons y l ih =>
    obtain ⟨hy, hl⟩ := List.pairwise_cons.1 h
    by_cases hlt : key x < key y
    · rw [insert_cons_of_lt hlt]
      refine List.pairwise_cons.2 ⟨fun z hz => ?_, h⟩
      rcases List.mem_cons.1 hz with rfl | hz
      · exact hlt.le
      · exact hlt.le.trans (hy z hz)
    · rw [insert_cons_of_le (not_lt.1 hlt)]
      refine List.pairwise_cons.2 ⟨fun z hz => ?_, ih hl⟩
      rcases mem_insert.1 hz with rfl | hz
      · exact not_lt.1 hlt
      · exact hy z hz

theorem Sorted.congr {key' : α → κ} (h : Sorted key l) (hl : ∀ y ∈ l, key' y = key y) :
    Sorted key' l := by
  refine List.Pairwise.imp_of_mem ?_ h
  intro y z hy hz hle
  rwa [hl y hy, hl z hz]

theorem Sorted.sublist {l' : List α} (h : Sorted key l) (hs : l'.Sublist l) : Sorted key l' :=
  List.Pairwise.sublist hs h

/-- The elements that a property picks out keep their order; `x` is the last of its key. -/
theorem filter_insert (p : α → Bool) (hp : ∀ y ∈ l, p y = true → key y ≤ key x) (hx : p x = true)
    (h : Sorted key l) : (insert key x l).filter p = l.filter p ++ [x] := by
  induction l with
  | nil => simp [insert_nil, hx]
  | cons y l ih =>
    obtain ⟨hy, hl⟩ := List.pairwise_cons.1 h
    by_cases hlt : key x < key y
    · rw [insert_cons_of_lt hlt]
      have hnone : (y :: l).filter p = [] := by
        refine List.filter_eq_nil_iff.2 fun z hz hpz => ?_
        have hle := hp z hz hpz
        have hyz : key y ≤ key z := by
          rcases List.mem_cons.1 hz with rfl | hz
          · exact le_rfl
          · exact hy z hz
        exact absurd (hlt.trans_le (hyz.trans hle)) (lt_irrefl _)
      rw [List.filter_cons_of_pos hx, hnone]
      rfl
    · rw [insert_cons_of_le (not_lt.1 hlt), List.filter_cons, List.filter_cons,
        ih (fun z hz => hp z (List.mem_cons_of_mem _ hz)) hl]
      split <;> rfl

/-! ## The order of insertion -/

/-- The keys do not decrease, and elements with equal keys are in the order of their stamps. -/
def Stable (key : α → κ) (stamp : α → Nat) (l : List α) : Prop :=
  l.Pairwise fun x y => key x < key y ∨ key x = key y ∧ stamp x < stamp y

variable {stamp stamp' : α → Nat} {key' : α → κ} {pre post : List α}

theorem Stable.sublist {l' : List α} (h : Stable key stamp l) (hs : l'.Sublist l) :
    Stable key stamp l' :=
  List.Pairwise.sublist hs h

theorem Stable.congr (h : Stable key stamp l) (hk : ∀ y ∈ l, key' y = key y)
    (hs : ∀ y ∈ l, stamp' y = stamp y) : Stable key' stamp' l := by
  refine List.Pairwise.imp_of_mem ?_ h
  intro y z hy hz hle
  rwa [hk y hy, hk z hz, hs y hy, hs z hz]

/-- A new element goes in front of the first one whose key is larger. -/
theorem Stable.insert (h : Stable key stamp (pre ++ post)) (hpre : ∀ y ∈ pre, key y ≤ key x)
    (hpost : ∀ y, post.head? = some y → key x < key y) (hnew : ∀ y ∈ pre, stamp y < stamp x) :
    Stable key stamp (pre ++ x :: post) := by
  obtain ⟨hl, hr, hlr⟩ := List.pairwise_append.1 h
  have hafter : ∀ y ∈ post, key x < key y := by
    cases post with
    | nil => simp
    | cons z post =>
      intro y hy
      have hz := hpost z rfl
      rcases List.mem_cons.1 hy with rfl | hy
      · exact hz
      · rcases (List.pairwise_cons.1 hr).1 y hy with hlt | ⟨he, -⟩
        · exact hz.trans hlt
        · rwa [← he]
  refine List.pairwise_append.2 ⟨hl, List.pairwise_cons.2 ⟨fun y hy => .inl (hafter y hy), hr⟩, ?_⟩
  intro y hy z hz
  rcases List.mem_cons.1 hz with rfl | hz
  · rcases (hpre y hy).lt_or_eq with hlt | he
    · exact .inl hlt
    · exact .inr ⟨he, hnew y hy⟩
  · exact hlr y hy z hz

end KeyOrder
