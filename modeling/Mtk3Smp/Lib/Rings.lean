import Mathlib.Logic.Function.Basic
import Mathlib.Data.List.Nodup
import Mathlib.Data.List.InsertIdx
import Mathlib.Data.List.Sort

/-!
# Intrusive rings

A family of doubly linked rings, indexed by `κ`, over nodes `ν` that each carry a single
link: a node is in at most one ring. Removing a node leaves its own link as it was, so a
removed node is `loose`: its neighbours no longer point to it, and removing it again, or
inserting a node that is in a ring, rewrites other nodes' links. The registry records such
an operation in `corrupt` instead of following the pointers; `WF` is the state in which
links and rings agree and nothing of the kind has happened.
-/

universe u v

/-- Where the link of a node leads. -/
inductive Link (κ : Type u)
  /-- the node is in no ring and its link is stale -/
  | loose
  /-- the node is a ring of its own -/
  | selfRing
  /-- the node is in ring `q` -/
  | member (q : κ)
  deriving DecidableEq

structure Rings (κ : Type u) (ν : Type v) where
  /-- the nodes of each ring, from the one after the head -/
  que : κ → List ν
  link : ν → Link κ
  corrupt : Bool

set_option linter.unusedSectionVars false

namespace Rings

variable {κ : Type u} {ν : Type v} [DecidableEq κ] [DecidableEq ν]

/-- No node linked. -/
def empty : Rings κ ν := { que := fun _ => [], link := fun _ => .loose, corrupt := false }

/-- Links `x` into ring `q`, before the node at position `i`. -/
def insertAt (r : Rings κ ν) (q : κ) (i : Nat) (x : ν) : Rings κ ν :=
  match r.link x with
  | .member _ => { r with corrupt := true }
  | _ =>
    { r with
      que := Function.update r.que q ((r.que q).insertIdx i x)
      link := Function.update r.link x (.member q) }

/-- Links `x` in as the last node of `q`. -/
def insertLast (r : Rings κ ν) (q : κ) (x : ν) : Rings κ ν :=
  r.insertAt q (r.que q).length x

/-- Links `x` in as the first node of `q`. -/
def insertFirst (r : Rings κ ν) (q : κ) (x : ν) : Rings κ ν := r.insertAt q 0 x

/-- Links `x` in before the first node that `after` holds of, or as the last node. -/
def insertBefore (r : Rings κ ν) (q : κ) (after : ν → Bool) (x : ν) : Rings κ ν :=
  r.insertAt q ((r.que q).findIdx after) x

/-- Unlinks `x` from the ring it is in. -/
def remove (r : Rings κ ν) (x : ν) : Rings κ ν :=
  match r.link x with
  | .loose => { r with corrupt := true }
  | .selfRing => r
  | .member q =>
    { r with
      que := Function.update r.que q ((r.que q).erase x)
      link := Function.update r.link x .loose }

/-- Makes `x` a ring of its own. -/
def selfLink (r : Rings κ ν) (x : ν) : Rings κ ν :=
  match r.link x with
  | .member _ => { r with corrupt := true }
  | _ => { r with link := Function.update r.link x .selfRing }

/-- Links and rings agree. -/
structure WF (r : Rings κ ν) : Prop where
  mem_iff : ∀ x q, x ∈ r.que q ↔ r.link x = .member q
  nodup : ∀ q, (r.que q).Nodup
  sound : r.corrupt = false

/-- In no ring other than its own. -/
def Free (r : Rings κ ν) (x : ν) : Prop := ∀ q, r.link x ≠ .member q

theorem wf_empty : (empty : Rings κ ν).WF where
  mem_iff := by simp [empty]
  nodup := by simp [empty]
  sound := rfl

section

variable {r : Rings κ ν} {q : κ} {x y : ν} {i : Nat}

theorem insertAt_eq (h : r.Free x) :
    r.insertAt q i x =
      { r with
        que := Function.update r.que q ((r.que q).insertIdx i x)
        link := Function.update r.link x (.member q) } := by
  unfold insertAt
  cases hl : r.link x with
  | member p => exact absurd hl (h p)
  | loose => rfl
  | selfRing => rfl

theorem WF.insertAt (wf : r.WF) (h : r.Free x) (hi : i ≤ (r.que q).length) :
    (r.insertAt q i x).WF := by
  rw [insertAt_eq h]
  have fresh : x ∉ r.que q := fun hx => h q ((wf.mem_iff x q).1 hx)
  refine ⟨fun y p => ?_, fun p => ?_, wf.sound⟩
  · by_cases hp : p = q
    · subst p
      by_cases hy : y = x
      · subst hy; simp [List.mem_insertIdx hi]
      · simp [List.mem_insertIdx hi, hy, wf.mem_iff]
    · by_cases hy : y = x
      · subst hy; simpa [hp, Ne.symm hp, wf.mem_iff] using h p
      · simp [hp, hy, wf.mem_iff]
  · by_cases hp : p = q
    · subst p
      simp only [Function.update_self, (List.perm_insertIdx x _ hi).nodup_iff]
      exact List.nodup_cons.2 ⟨fresh, wf.nodup q⟩
    · simpa [hp] using wf.nodup p

theorem WF.insertLast (wf : r.WF) (h : r.Free x) : (r.insertLast q x).WF :=
  wf.insertAt h le_rfl

theorem WF.insertFirst (wf : r.WF) (h : r.Free x) : (r.insertFirst q x).WF :=
  wf.insertAt h (Nat.zero_le _)

theorem WF.insertBefore {after : ν → Bool} (wf : r.WF) (h : r.Free x) :
    (r.insertBefore q after x).WF :=
  wf.insertAt h List.findIdx_le_length

theorem link_insertAt (h : r.Free x) :
    (r.insertAt q i x).link = Function.update r.link x (.member q) := by
  rw [insertAt_eq h]

theorem que_insertAt (h : r.Free x) :
    (r.insertAt q i x).que = Function.update r.que q ((r.que q).insertIdx i x) := by
  rw [insertAt_eq h]

/-- Nodes already in rings stay where they are. -/
theorem link_insertAt_ne (hy : y ≠ x) : (r.insertAt q i x).link y = r.link y := by
  unfold Rings.insertAt
  split <;> simp [hy]

theorem WF.remove (wf : r.WF) (h : r.link x ≠ .loose) : (r.remove x).WF := by
  unfold Rings.remove
  cases hl : r.link x with
  | loose => exact absurd hl h
  | selfRing => exact wf
  | member q =>
    refine ⟨fun y p => ?_, fun p => ?_, wf.sound⟩
    · by_cases hp : p = q
      · subst p
        by_cases hy : y = x
        · subst hy; simp [(wf.nodup q).mem_erase_iff]
        · simp [(wf.nodup q).mem_erase_iff, hy, wf.mem_iff]
      · by_cases hy : y = x
        · subst hy
          simp only [ne_eq, hp, not_false_eq_true, Function.update_of_ne, Function.update_self,
            reduceCtorEq, iff_false, wf.mem_iff, hl, Link.member.injEq]
          exact Ne.symm hp
        · simp [hp, hy, wf.mem_iff]
    · by_cases hp : p = q
      · subst p; simpa using (wf.nodup q).erase x
      · simpa [hp] using wf.nodup p

theorem free_remove : (r.remove x).Free x := by
  unfold Free Rings.remove
  cases hl : r.link x <;> simp [hl]

/-- A removal links no node. -/
theorem Free.remove (h : r.Free y) : (r.remove x).Free y := by
  unfold Free Rings.remove at *
  by_cases same : y = x
  · subst same
    cases hl : r.link y <;> simp [hl]
  · cases hl : r.link x <;> simp [same, h]

theorem link_remove_ne (hy : y ≠ x) : (r.remove x).link y = r.link y := by
  unfold Rings.remove
  split <;> simp [hy]

theorem que_remove_of_member (h : r.link x = .member q) :
    (r.remove x).que = Function.update r.que q ((r.que q).erase x) := by
  simp [Rings.remove, h]

theorem WF.selfLink (wf : r.WF) (h : r.Free x) : (r.selfLink x).WF := by
  unfold Rings.selfLink
  cases hl : r.link x with
  | member q => exact absurd hl (h q)
  | loose | selfRing =>
    refine ⟨fun y p => ?_, wf.nodup, wf.sound⟩
    by_cases hy : y = x
    · subst hy; simp [wf.mem_iff, hl]
    · simp [hy, wf.mem_iff]

theorem link_selfLink (h : r.Free x) : (r.selfLink x).link x = .selfRing := by
  unfold Rings.selfLink
  cases hl : r.link x with
  | member q => exact absurd hl (h q)
  | loose | selfRing => simp

theorem link_selfLink_ne (hy : y ≠ x) : (r.selfLink x).link y = r.link y := by
  unfold Rings.selfLink
  split <;> simp [hy]

/-- The first node of a ring is linked into it. -/
theorem WF.link_head (wf : r.WF) {rest : List ν} (h : r.que q = x :: rest) :
    r.link x = .member q :=
  (wf.mem_iff x q).1 (by simp [h])

end

end Rings
