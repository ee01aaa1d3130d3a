import Mtk3Smp.Lib.SChain

/-!
# Things held by owners

Each owner holds things in a list that goes through the things themselves, and each thing points
back to its owner. A thing is in the list of its owner and in no other, but for the things that
are passing from one owner to the next.
-/

universe u v

structure Holdings {α : Type u} {ι : Type v} (head : ι → Option α) (link : α → Option α)
    (owner : α → Option ι) (passing : Set α) (held : ι → List α) : Prop where
  chain : ∀ i, SChain link (head i) (held i)
  nodup : ∀ i, (held i).Nodup
  owned : ∀ i, ∀ a ∈ held i, owner a = some i
  listed : ∀ a i, owner a = some i → a ∈ held i ∨ a ∈ passing

namespace Holdings

variable {α : Type u} {ι : Type v} {head head' : ι → Option α} {link link' : α → Option α}
  {owner owner' : α → Option ι} {passing passing' : Set α} {held : ι → List α} {i j : ι} {a : α}
  {pre post : List α}

theorem unique (h : Holdings head link owner passing held) (hi : a ∈ held i) (hj : a ∈ held j) :
    i = j := by
  have he : some i = some j := (h.owned i a hi).symm.trans (h.owned j a hj)
  exact Option.some.inj he

/-- Nothing held changes. -/
theorem congr (h : Holdings head link owner passing held)
    (hhead : ∀ i, head' i = head i) (hlink : ∀ i, ∀ a ∈ held i, link' a = link a)
    (howned : ∀ i, ∀ a ∈ held i, owner' a = owner a)
    (hlisted : ∀ a i, owner' a = some i → owner a = some i ∧ (a ∈ passing → a ∈ passing')
      ∨ a ∈ passing') :
    Holdings head' link' owner' passing' held where
  chain i := by
    rw [hhead]
    exact (h.chain i).congr (hlink i)
  nodup := h.nodup
  owned i a ha := (howned i a ha).trans (h.owned i a ha)
  listed a i ho := by
    rcases hlisted a i ho with ⟨ho, hp⟩ | hp
    · exact (h.listed a i ho).imp_right hp
    · exact .inr hp

variable [DecidableEq α] [DecidableEq ι]

/-- `i` takes a thing that nobody has in a list. -/
theorem take (h : Holdings head link owner passing held) (ha : ∀ j, a ∉ held j)
    (hp : ∀ b ∈ passing, b ≠ a → b ∈ passing') :
    Holdings (Function.update head i (some a)) (Function.update link a (head i))
      (Function.update owner a (some i)) passing' (Function.update held i (a :: held i)) where
  chain j := by
    by_cases hj : j = i
    · subst j
      rw [Function.update_self, Function.update_self]
      exact (h.chain i).push (ha i)
    · rw [Function.update_of_ne hj, Function.update_of_ne hj]
      refine (h.chain j).congr fun b hb => Function.update_of_ne ?_ _ _
      rintro rfl
      exact ha j hb
  nodup j := by
    by_cases hj : j = i
    · subst j
      rw [Function.update_self]
      exact List.nodup_cons.2 ⟨ha i, h.nodup i⟩
    · rw [Function.update_of_ne hj]
      exact h.nodup j
  owned j b hb := by
    by_cases hba : b = a
    · subst b
      rw [Function.update_self]
      by_cases hj : j = i
      · rw [hj]
      · rw [Function.update_of_ne hj] at hb
        exact absurd hb (ha j)
    · rw [Function.update_of_ne hba]
      by_cases hj : j = i
      · subst j
        rw [Function.update_self] at hb
        exact h.owned i b ((List.mem_cons.1 hb).resolve_left hba)
      · rw [Function.update_of_ne hj] at hb
        exact h.owned j b hb
  listed b j hb := by
    by_cases hba : b = a
    · subst b
      rw [Function.update_self] at hb
      obtain rfl := Option.some.inj hb
      rw [Function.update_self]
      exact .inl List.mem_cons_self
    · rw [Function.update_of_ne hba] at hb
      refine (h.listed b j hb).imp (fun hm => ?_) fun hm => hp b hm hba
      by_cases hj : j = i
      · subst j
        rw [Function.update_self]
        exact List.mem_cons_of_mem _ hm
      · rwa [Function.update_of_ne hj]

/-- A thing that is passing is taken out of the list of `i`. -/
theorem unlist (h : Holdings head link owner passing held) (hi : held i = pre ++ a :: post)
    (hp : a ∈ passing) :
    Holdings (if pre.getLast? = none then Function.update head i (link a) else head)
      (unlinkBehind link pre.getLast? a) owner passing
      (Function.update held i (pre ++ post)) := by
  have hchain := h.chain i
  have hnd := h.nodup i
  rw [hi] at hchain hnd
  have hunlink := hchain.unlink hnd
  have hsub : (pre ++ post).Sublist (held i) := by
    rw [hi]
    exact List.Sublist.append_left (List.sublist_cons_self a post) pre
  refine ⟨fun j => ?_, fun j => ?_, fun j b hb => ?_, fun b j hb => ?_⟩
  · by_cases hj : j = i
    · subst j
      rw [Function.update_self]
      split at hunlink
      · rename_i hlast
        rw [if_pos hlast, Function.update_self]
        exact hunlink
      · rename_i hlast
        rw [if_neg hlast]
        exact hunlink
    · rw [Function.update_of_ne hj]
      have hhead : (if pre.getLast? = none then Function.update head i (link a) else head) j =
          head j := by
        split
        · exact Function.update_of_ne hj _ _
        · rfl
      rw [hhead]
      refine (h.chain j).congr fun b hb => ?_
      cases hlast : pre.getLast? with
      | none => rfl
      | some p =>
        have hne : b ≠ p := by
          rintro rfl
          have hbi : b ∈ held i := by
            rw [hi]
            exact List.mem_append_left _ (List.mem_of_getLast? hlast)
          exact hj (h.unique hb hbi)
        exact Function.update_of_ne hne _ _
  · by_cases hj : j = i
    · subst j
      rw [Function.update_self]
      exact (h.nodup i).sublist hsub
    · rw [Function.update_of_ne hj]
      exact h.nodup j
  · by_cases hj : j = i
    · subst j
      rw [Function.update_self] at hb
      exact h.owned i b (hsub.subset hb)
    · rw [Function.update_of_ne hj] at hb
      exact h.owned j b hb
  · by_cases hba : b = a
    · subst b
      exact .inr hp
    · refine (h.listed b j hb).imp_left fun hm => ?_
      by_cases hj : j = i
      · subst j
        rw [Function.update_self]
        rw [hi] at hm
        simpa [hba] using hm
      · rwa [Function.update_of_ne hj]

/-- `i` drops the first thing of its list, which passes on or has no owner any more. -/
theorem drop (h : Holdings head link owner passing held) (hi : held i = a :: post)
    (howner : ∀ b, b ≠ a → owner' b = owner b) (hsub : passing ⊆ passing')
    (ha : owner' a = none ∨ a ∈ passing') :
    Holdings (Function.update head i (link a)) link owner' passing'
      (Function.update held i post) where
  chain j := by
    by_cases hj : j = i
    · subst j
      rw [Function.update_self, Function.update_self]
      have hchain := h.chain i
      rw [hi] at hchain
      exact hchain.2
    · rw [Function.update_of_ne hj, Function.update_of_ne hj]
      exact h.chain j
  nodup j := by
    by_cases hj : j = i
    · subst j
      rw [Function.update_self]
      have hnd := h.nodup i
      rw [hi] at hnd
      exact (List.nodup_cons.1 hnd).2
    · rw [Function.update_of_ne hj]
      exact h.nodup j
  owned j b hb := by
    have hba : b ≠ a := by
      rintro rfl
      have hbi : b ∈ held i := by
        rw [hi]
        exact List.mem_cons_self
      by_cases hj : j = i
      · subst j
        rw [Function.update_self] at hb
        have hnd := h.nodup i
        rw [hi] at hnd
        exact (List.nodup_cons.1 hnd).1 hb
      · rw [Function.update_of_ne hj] at hb
        exact hj (h.unique hb hbi)
    rw [howner b hba]
    by_cases hj : j = i
    · subst j
      rw [Function.update_self] at hb
      refine h.owned i b ?_
      rw [hi]
      exact List.mem_cons_of_mem _ hb
    · rw [Function.update_of_ne hj] at hb
      exact h.owned j b hb
  listed b j hb := by
    by_cases hba : b = a
    · subst b
      rcases ha with ha | ha
      · rw [ha] at hb
        cases hb
      · exact .inr ha
    · rw [howner b hba] at hb
      refine (h.listed b j hb).imp (fun hm => ?_) fun hm => hsub hm
      by_cases hj : j = i
      · subst j
        rw [Function.update_self]
        rw [hi] at hm
        exact (List.mem_cons.1 hm).resolve_left hba
      · rwa [Function.update_of_ne hj]

end Holdings
