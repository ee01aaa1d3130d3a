import Mathlib.Data.List.Perm.Basic
import Mathlib.Data.List.Nodup

/-!
# A ledger of numbered calls

Calls get their numbers in order. Each is open until it is closed with a result, at most once.
`Ledger n opened closed` ties the open calls and the results together, so that the calls closed
with one result are distinct and none of them is still open.
-/

/-- `n` calls have been made, those in `opened` are open and `closed` lists the results. -/
structure Ledger {ρ : Type*} (n : Nat) (opened : List Nat) (closed : List (Nat × ρ)) : Prop where
  nodup : (opened ++ closed.map Prod.fst).Nodup
  lt : ∀ i ∈ opened ++ closed.map Prod.fst, i < n

namespace Ledger

variable {ρ : Type*} {n i : Nat} {opened opened' : List Nat} {closed : List (Nat × ρ)}

theorem nil (n : Nat) : Ledger (ρ := ρ) n [] [] := ⟨by simp, by simp⟩

theorem mono {m : Nat} (h : Ledger n opened closed) (hle : n ≤ m) : Ledger m opened closed :=
  ⟨h.nodup, fun i hi => Nat.lt_of_lt_of_le (h.lt i hi) hle⟩

theorem perm (h : Ledger n opened closed) (hp : opened.Perm opened') : Ledger n opened' closed := by
  have hall := hp.append_right (closed.map Prod.fst)
  exact ⟨hall.nodup_iff.1 h.nodup, fun i hi => h.lt i (hall.mem_iff.2 hi)⟩

/-- Some of the open calls will never be closed. -/
theorem sublist (h : Ledger n opened closed) (hs : opened'.Sublist opened) :
    Ledger n opened' closed := by
  have hall := hs.append_right (closed.map Prod.fst)
  exact ⟨h.nodup.sublist hall, fun i hi => h.lt i (hall.subset hi)⟩

/-- The next call is opened. -/
theorem start (h : Ledger n opened closed) : Ledger (n + 1) (n :: opened) closed := by
  refine ⟨?_, ?_⟩
  · rw [List.cons_append, List.nodup_cons]
    exact ⟨fun hn => Nat.lt_irrefl n (h.lt n hn), h.nodup⟩
  · intro i hi
    rw [List.cons_append, List.mem_cons] at hi
    rcases hi with rfl | hi
    · exact Nat.lt_succ_self i
    · exact Nat.lt_succ_of_lt (h.lt i hi)

/-- An open call is closed. -/
theorem close (h : Ledger n (i :: opened) closed) (r : ρ) :
    Ledger n opened (closed ++ [(i, r)]) := by
  have hall : (opened ++ (closed ++ [(i, r)]).map Prod.fst).Perm
      (i :: opened ++ closed.map Prod.fst) := by
    rw [List.map_append, ← List.append_assoc]
    exact List.perm_append_comm
  exact ⟨hall.nodup_iff.2 h.nodup, fun j hj => h.lt j (hall.mem_iff.1 hj)⟩

/-- All open calls are closed with the same result. -/
theorem closeAll (h : Ledger n opened closed) (r : ρ) :
    Ledger n [] (closed ++ opened.map fun i => (i, r)) := by
  induction opened generalizing closed with
  | nil => simpa using h
  | cons i rest ih =>
    have := ih (h.close r)
    rwa [List.append_assoc] at this

theorem not_closed (h : Ledger n opened closed) (hi : i ∈ opened) (r : ρ) : (i, r) ∉ closed := by
  intro hc
  have hdis := (List.nodup_append.1 h.nodup).2.2
  exact hdis i hi i (List.mem_map.2 ⟨(i, r), hc, rfl⟩) rfl

theorem nodup_closed (h : Ledger n opened closed) : (closed.map Prod.fst).Nodup :=
  (List.nodup_append.1 h.nodup).2.1

end Ledger
