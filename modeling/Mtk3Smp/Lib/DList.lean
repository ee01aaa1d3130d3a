import Mathlib.Data.List.Nodup
import Mathlib.Data.List.GetD

/-!
# Circular doubly linked lists

`next` and `prev` are the links of all nodes. `Seg next prev x xs y` says that the links lead
from `x` over `xs` to `y` and back, and `Ring next prev h xs` that they close a circle at the
head `h`. A node is linked in between two neighbours, or unlinked, by rewriting the links of
the neighbours; the rest of the ring does not change.
-/

namespace DList

variable {α : Type*}

def Seg (next prev : α → α) : α → List α → α → Prop
  | x, [], y => next x = y ∧ prev y = x
  | x, z :: zs, y => next x = z ∧ prev z = x ∧ Seg next prev z zs y

def Ring (next prev : α → α) (h : α) (xs : List α) : Prop := Seg next prev h xs h

variable {next prev next' prev' : α → α} {x y z e h : α} {l r xs : List α}

theorem seg_append : Seg next prev x (l ++ z :: r) y ↔
    Seg next prev x l z ∧ Seg next prev z r y := by
  induction l generalizing x with
  | nil => simp only [List.nil_append, Seg, and_assoc]
  | cons a l ih => simp only [List.cons_append, Seg, ih, and_assoc]

theorem Seg.next_first (s : Seg next prev x xs y) : next x = xs.headD y := by
  cases xs with
  | nil => exact s.1
  | cons a rest => exact s.1

theorem Seg.prev_first (s : Seg next prev x xs y) : prev (xs.headD y) = x := by
  cases xs with
  | nil => exact s.2
  | cons a rest => exact s.2.1

theorem Seg.next_last (s : Seg next prev x xs y) : next (xs.getLastD x) = y := by
  induction xs generalizing x with
  | nil => exact s.1
  | cons a rest ih =>
    rw [List.getLastD_cons]
    exact ih s.2.2

theorem Seg.prev_last (s : Seg next prev x xs y) : prev y = xs.getLastD x := by
  induction xs generalizing x with
  | nil => exact s.2
  | cons a rest ih =>
    rw [List.getLastD_cons]
    exact ih s.2.2

/-- A segment depends on the forward links of all its nodes but the last, and on the backward
links of all but the first. -/
theorem Seg.congr (s : Seg next prev x xs y) (hn : ∀ a ∈ x :: xs, next' a = next a)
    (hp : ∀ a ∈ y :: xs, prev' a = prev a) : Seg next' prev' x xs y := by
  induction xs generalizing x with
  | nil => exact ⟨(hn x (by simp)).trans s.1, (hp y (by simp)).trans s.2⟩
  | cons a rest ih =>
    refine ⟨(hn x (by simp)).trans s.1, (hp a (by simp)).trans s.2.1, ih s.2.2 ?_ ?_⟩
    · exact fun b hb => hn b (List.mem_cons_of_mem _ hb)
    · intro b hb
      refine hp b ?_
      rcases List.mem_cons.1 hb with rfl | hb
      · exact List.mem_cons_self
      · exact List.mem_cons_of_mem _ (List.mem_cons_of_mem _ hb)

theorem getLastD_mem (x : α) (xs : List α) : xs.getLastD x ∈ x :: xs := by
  induction xs generalizing x with
  | nil => simp
  | cons a rest ih =>
    rw [List.getLastD_cons]
    exact List.mem_cons_of_mem _ (ih a)

theorem headD_mem (y : α) (xs : List α) : xs.headD y ∈ y :: xs := by
  cases xs <;> simp

/-- The last link of a segment is bent to another node. -/
theorem Seg.retarget (s : Seg next prev x xs z) (nodup : (x :: xs).Nodup)
    (hn : ∀ a ∈ x :: xs, a ≠ xs.getLastD x → next' a = next a) (hp : ∀ a ∈ xs, prev' a = prev a)
    (hlast : next' (xs.getLastD x) = y) (hfirst : prev' y = xs.getLastD x) :
    Seg next' prev' x xs y := by
  induction xs generalizing x with
  | nil => exact ⟨hlast, hfirst⟩
  | cons a rest ih =>
    rw [List.getLastD_cons] at hn hlast hfirst
    have hne : x ≠ rest.getLastD a := by
      intro hx
      exact (List.nodup_cons.1 nodup).1 (hx ▸ getLastD_mem a rest)
    refine ⟨(hn x (by simp) hne).trans s.1, (hp a (by simp)).trans s.2.1,
      ih s.2.2 (List.nodup_cons.1 nodup).2 ?_ ?_ hlast hfirst⟩
    · exact fun b hb => hn b (List.mem_cons_of_mem _ hb)
    · exact fun b hb => hp b (List.mem_cons_of_mem _ hb)

/-- `e` is linked in between `l` and `r`. -/
theorem Ring.insert (ring : Ring next prev h (l ++ r)) (nodup : (h :: (l ++ r)).Nodup)
    (fresh : e ∉ h :: (l ++ r))
    (hn : ∀ a, a ≠ l.getLastD h → a ≠ e → next' a = next a)
    (hp : ∀ a, a ≠ r.headD h → a ≠ e → prev' a = prev a)
    (hn1 : next' (l.getLastD h) = e) (hn2 : next' e = r.headD h)
    (hp1 : prev' e = l.getLastD h) (hp2 : prev' (r.headD h) = e) :
    Ring next' prev' h (l ++ e :: r) := by
  have hl : (h :: l).Nodup := nodup.sublist (List.sublist_append_left (h :: l) r)
  have hfresh : ∀ a ∈ h :: (l ++ r), a ≠ e := fun a ha hae => fresh (hae ▸ ha)
  unfold Ring
  rw [seg_append]
  cases r with
  | nil =>
    rw [List.append_nil] at ring hfresh
    refine ⟨Seg.retarget ring hl ?_ ?_ hn1 hp1, hn2, hp2⟩
    · exact fun a ha hne => hn a hne (hfresh a ha)
    · intro a ha
      refine hp a ?_ (hfresh a (List.mem_cons_of_mem _ ha))
      rintro rfl
      exact (List.nodup_cons.1 hl).1 ha
  | cons q r =>
    obtain ⟨first, second⟩ := seg_append.1 ring
    rw [← List.cons_append] at nodup
    have hdis : ∀ a ∈ h :: l, ∀ b ∈ q :: r, a ≠ b := (List.nodup_append.1 nodup).2.2
    refine ⟨first.retarget hl ?_ ?_ hn1 hp1, hn2, hp2, second.congr ?_ ?_⟩
    · refine fun a ha hne => hn a hne (hfresh a ?_)
      rw [← List.cons_append]
      exact List.mem_append_left _ ha
    · intro a ha
      refine hp a ?_ (hfresh a (List.mem_cons_of_mem _ (List.mem_append_left _ ha)))
      exact hdis a (List.mem_cons_of_mem _ ha) q List.mem_cons_self
    · intro a ha
      refine hn a ?_ (hfresh a (List.mem_cons_of_mem _ (List.mem_append_right _ ha)))
      exact (hdis _ (getLastD_mem h l) a ha).symm
    · intro a ha
      have hqr : (q :: r).Nodup := (List.nodup_append.1 nodup).2.1
      rcases List.mem_cons.1 ha with rfl | ha
      · exact hp a (hdis a List.mem_cons_self q List.mem_cons_self) (hfresh a List.mem_cons_self)
      · refine hp a ?_ (hfresh a ?_)
        · rintro rfl
          exact (List.nodup_cons.1 hqr).1 ha
        · exact List.mem_cons_of_mem _ (List.mem_append_right _ (List.mem_cons_of_mem _ ha))

/-- `e` is unlinked. -/
theorem Ring.remove (ring : Ring next prev h (l ++ e :: r)) (nodup : (h :: (l ++ e :: r)).Nodup)
    (hn : ∀ a ∈ h :: (l ++ r), a ≠ l.getLastD h → next' a = next a)
    (hp : ∀ a ∈ h :: (l ++ r), a ≠ r.headD h → prev' a = prev a)
    (hn1 : next' (l.getLastD h) = r.headD h) (hp1 : prev' (r.headD h) = l.getLastD h) :
    Ring next' prev' h (l ++ r) := by
  have hl : (h :: l).Nodup := nodup.sublist (List.sublist_append_left (h :: l) _)
  rw [← List.cons_append] at nodup
  have hdis : ∀ a ∈ h :: l, ∀ b ∈ e :: r, a ≠ b := (List.nodup_append.1 nodup).2.2
  obtain ⟨first, second⟩ := seg_append.1 ring
  cases r with
  | nil =>
    rw [List.append_nil] at hn hp ⊢
    refine first.retarget hl hn ?_ hn1 hp1
    intro a ha
    refine hp a (List.mem_cons_of_mem _ ha) ?_
    rintro rfl
    exact (List.nodup_cons.1 hl).1 ha
  | cons q r =>
    obtain ⟨-, -, second⟩ := second
    unfold Ring
    rw [seg_append]
    refine ⟨first.retarget hl ?_ ?_ hn1 hp1, second.congr ?_ ?_⟩
    · intro a ha
      refine hn a ?_
      rw [← List.cons_append]
      exact List.mem_append_left _ ha
    · intro a ha
      refine hp a (List.mem_cons_of_mem _ (List.mem_append_left _ ha)) ?_
      exact hdis a (List.mem_cons_of_mem _ ha) q (by simp)
    · intro a ha
      refine hn a (List.mem_cons_of_mem _ (List.mem_append_right _ ha)) ?_
      exact (hdis _ (getLastD_mem h l) a (List.mem_cons_of_mem _ ha)).symm
    · intro a ha
      have hqr : (q :: r).Nodup := ((List.nodup_append.1 nodup).2.1).of_cons
      rcases List.mem_cons.1 ha with rfl | ha
      · exact hp a List.mem_cons_self (hdis a List.mem_cons_self q (by simp))
      · refine hp a ?_ ?_
        · exact List.mem_cons_of_mem _ (List.mem_append_right _ (List.mem_cons_of_mem _ ha))
        · rintro rfl
          exact (List.nodup_cons.1 hqr).1 ha

theorem Ring.congr (ring : Ring next prev h xs) (hn : ∀ a ∈ h :: xs, next' a = next a)
    (hp : ∀ a ∈ h :: xs, prev' a = prev a) : Ring next' prev' h xs :=
  Seg.congr ring hn hp

/-- The neighbours of the nodes of a ring. -/
theorem Ring.next_at (ring : Ring next prev h (l ++ e :: r)) : next e = r.headD h :=
  (seg_append.1 ring).2.next_first

theorem Ring.prev_at (ring : Ring next prev h (l ++ e :: r)) : prev e = l.getLastD h :=
  (seg_append.1 ring).1.prev_last

end DList
