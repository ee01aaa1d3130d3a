import Mathlib.Data.List.Nodup
import Mathlib.Logic.Function.Basic

/-!
# A pool of blocks

Blocks are in the free queue, in the queue of one owner, or with somebody who has taken them
out. A block comes from the head of the free queue and goes back to its end.
-/

universe u v

variable {ι : Type u} {δ : Type v} {free rest : List ι} {queue : δ → List ι} {d d' : δ} {i j : ι}

structure FreePool (free : List ι) (queue : δ → List ι) : Prop where
  freeNodup : free.Nodup
  nodup : ∀ d, (queue d).Nodup
  apart : ∀ d, ∀ i ∈ queue d, i ∉ free
  unique : ∀ d d' i, i ∈ queue d → i ∈ queue d' → d = d'

namespace FreePool

theorem start (h : free.Nodup) : FreePool free (fun _ : δ => []) where
  freeNodup := h
  nodup _ := List.nodup_nil
  apart _ _ hi := by cases hi
  unique _ _ _ hi := by cases hi

/-- A block that is in no queue goes to the end of the free queue. -/
theorem giveBack (h : FreePool free queue) (hfree : i ∉ free) (hqueue : ∀ e, i ∉ queue e) :
    FreePool (free ++ [i]) queue := by
  constructor
  case freeNodup => exact List.nodup_append_comm.1 (List.nodup_cons.2 ⟨hfree, h.freeNodup⟩)
  case nodup => exact h.nodup
  case apart =>
    intro e j hj hf
    rcases List.mem_append.1 hf with hf | hf
    · exact h.apart e j hj hf
    · obtain rfl := List.mem_singleton.1 hf
      exact hqueue e hj
  case unique => exact h.unique

variable [DecidableEq δ]

theorem mem_append :
    j ∈ Function.update queue d (queue d ++ [i]) d' ↔ j ∈ queue d' ∨ d' = d ∧ j = i := by
  by_cases hd : d' = d
  · subst hd
    rw [Function.update_self, List.mem_append, List.mem_singleton]
    simp
  · rw [Function.update_of_ne hd]
    simp [hd]

theorem mem_erase [DecidableEq ι] (h : FreePool free queue) (hi : i ∈ queue d) :
    j ∈ Function.update queue d ((queue d).erase i) d' ↔ j ∈ queue d' ∧ j ≠ i := by
  by_cases hd : d' = d
  · subst hd
    rw [Function.update_self, (h.nodup d').mem_erase_iff]
    exact and_comm
  · rw [Function.update_of_ne hd]
    constructor
    · intro hj
      refine ⟨hj, ?_⟩
      rintro rfl
      exact hd (h.unique d' d j hj hi)
    · exact fun hj => hj.1

/-- The head of the free queue goes to the end of an owner's queue. -/
theorem take (h : FreePool (i :: rest) queue) :
    FreePool rest (Function.update queue d (queue d ++ [i])) := by
  have hi : ∀ e, i ∉ queue e := fun e he => h.apart e i he List.mem_cons_self
  have hrest := List.nodup_cons.1 h.freeNodup
  constructor
  case freeNodup => exact hrest.2
  case nodup =>
    intro e
    by_cases he : e = d
    · subst he
      rw [Function.update_self]
      exact List.nodup_append_comm.1 (List.nodup_cons.2 ⟨hi e, h.nodup e⟩)
    · rw [Function.update_of_ne he]
      exact h.nodup e
  case apart =>
    intro e j hj hr
    rcases mem_append.1 hj with hj | ⟨-, rfl⟩
    · exact h.apart e j hj (List.mem_cons_of_mem _ hr)
    · exact hrest.1 hr
  case unique =>
    intro e e' j hj hj'
    rcases mem_append.1 hj with hq | ⟨rfl, rfl⟩
    · rcases mem_append.1 hj' with hq' | ⟨-, rfl⟩
      · exact h.unique e e' j hq hq'
      · exact absurd hq (hi e)
    · rcases mem_append.1 hj' with hq' | ⟨rfl, -⟩
      · exact absurd hq' (hi e')
      · rfl

/-- A block leaves the queue of its owner. -/
theorem drop [DecidableEq ι] (h : FreePool free queue) (hi : i ∈ queue d) :
    FreePool free (Function.update queue d ((queue d).erase i)) := by
  constructor
  case freeNodup => exact h.freeNodup
  case nodup =>
    intro e
    by_cases he : e = d
    · subst he
      rw [Function.update_self]
      exact (h.nodup e).erase i
    · rw [Function.update_of_ne he]
      exact h.nodup e
  case apart => exact fun e j hj => h.apart e j ((h.mem_erase hi).1 hj).1
  case unique =>
    exact fun e e' j hj hj' =>
      h.unique e e' j ((h.mem_erase hi).1 hj).1 ((h.mem_erase hi).1 hj').1

end FreePool
