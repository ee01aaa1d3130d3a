import Mathlib.Data.Set.Function
import Mathlib.Data.List.Nodup

/-!
# Greedy choice of what can be placed

Each element may be placed on some of the places, and no two on one. The elements are offered in
order, and each is taken that can still be placed along with all that were taken before it,
whatever the placement of those: the choice is the first of all that can be placed, in the
lexicographic order.
-/

universe u v

variable {τ : Type u} {κ : Type v} (adm : τ → κ → Prop)

/-- `f` puts the elements of `S` on places that admit them, and no two on one. -/
def Placement (S : Set τ) (f : τ → κ) : Prop := (∀ t ∈ S, adm t (f t)) ∧ S.InjOn f

/-- The elements of `S` can be placed together. -/
def Placeable (S : Set τ) : Prop := ∃ f, Placement adm S f

/-- Of the elements in order, `S` has those that can be placed with what it has before them. -/
def TakesGreedily (order : List τ) (S : Set τ) : Prop :=
  ∀ pre t post, order = pre ++ t :: post →
    (t ∈ S ↔ Placeable adm (insert t (S ∩ {u | u ∈ pre})))

variable {adm} {S S' : Set τ} {f : τ → κ} {order pre post : List τ} {t : τ} {c : κ}

theorem Placeable.mono (h : Placeable adm S) (hsub : S' ⊆ S) : Placeable adm S' := by
  obtain ⟨f, hadm, hinj⟩ := h
  exact ⟨f, fun u hu => hadm u (hsub hu), hinj.mono hsub⟩

/-- A free place that admits one more element. -/
theorem Placement.insert [DecidableEq τ] (h : Placement adm S f) (hadm : adm t c)
    (hfree : ∀ u ∈ S, f u ≠ c) : Placement adm (insert t S) (Function.update f t c) := by
  have other : ∀ u ∈ S, u ≠ t → Function.update f t c u = f u := fun u _ hu =>
    Function.update_of_ne hu ..
  constructor
  · rintro u (rfl | hu)
    · rwa [Function.update_self]
    · by_cases hut : u = t
      · subst hut
        rwa [Function.update_self]
      · rw [other u hu hut]
        exact h.1 u hu
  · intro u hu v hv heq
    by_cases hut : u = t
    · by_cases hvt : v = t
      · rw [hut, hvt]
      · have hv' := hv.resolve_left hvt
        rw [hut, Function.update_self, other v hv' hvt] at heq
        exact absurd heq.symm (hfree v hv')
    · have hu' := hu.resolve_left hut
      by_cases hvt : v = t
      · rw [hvt, Function.update_self, other u hu' hut] at heq
        exact absurd heq (hfree u hu')
      · have hv' := hv.resolve_left hvt
        rw [other u hu' hut, other v hv' hvt] at heq
        exact h.2 hu' hv' heq

/-- An element that is passed over finds every place that admits it taken, however the elements
taken before it are placed. -/
theorem TakesGreedily.taken [DecidableEq τ] (h : TakesGreedily adm order S)
    (ho : order = pre ++ t :: post) (ht : t ∉ S) (hf : Placement adm (S ∩ {u | u ∈ pre}) f)
    (hc : adm t c) : ∃ u ∈ S, u ∈ pre ∧ f u = c := by
  by_contra hnone
  refine ht ((h pre t post ho).2 ⟨_, hf.insert hc ?_⟩)
  intro u hu heq
  exact hnone ⟨u, hu.1, hu.2, heq⟩

/-- Where a choice that can be placed first differs, it has left an element out. -/
theorem TakesGreedily.best (h : TakesGreedily adm order S) (hS : Placeable adm S')
    (ho : order = pre ++ t :: post) (hsame : ∀ u ∈ pre, u ∈ S' ↔ u ∈ S) (ht : t ∈ S') :
    t ∈ S := by
  refine (h pre t post ho).2 (hS.mono ?_)
  rintro u (rfl | ⟨hu, hpre⟩)
  · exact ht
  · exact (hsame u hpre).2 hu
