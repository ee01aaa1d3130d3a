import Mathlib.Data.List.Nodup
import Mathlib.Logic.Function.Basic

/-!
# Custody of numbered things

Things are numbered as they are made. Each is with one holder, or gone for good.
-/

universe u

variable {η : Type u} [DecidableEq η] {n b : Nat} {hold : η → Option Nat} {gone : List Nat}
  {h h' : η}

/-- `n` things have been made; `hold` is what each holder has and `gone` what nobody has. -/
structure Custody (n : Nat) (hold : η → Option Nat) (gone : List Nat) : Prop where
  unique : ∀ h h' b, hold h = some b → hold h' = some b → h = h'
  kept : ∀ h b, hold h = some b → b ∉ gone
  nodup : gone.Nodup
  made : ∀ h b, hold h = some b → b < n
  goneMade : ∀ b ∈ gone, b < n
  all : ∀ b < n, (∃ h, hold h = some b) ∨ b ∈ gone

namespace Custody

omit [DecidableEq η] in
theorem nobody (hnone : ∀ h, hold h = none) : Custody 0 hold [] where
  unique h h' b hb _ := by rw [hnone h] at hb; cases hb
  kept h b hb := by rw [hnone h] at hb; cases hb
  nodup := List.nodup_nil
  made h b hb := by rw [hnone h] at hb; cases hb
  goneMade b hb := by cases hb
  all b hb := by cases hb

/-- The next thing is given to a holder that has none. -/
theorem make (c : Custody n hold gone) (hh : hold h = none) :
    Custody (n + 1) (Function.update hold h (some n)) gone where
  unique := by
    have other : ∀ x, x ≠ h → Function.update hold h (some n) x ≠ some n := by
      intro x hx he
      rw [Function.update_of_ne hx] at he
      exact Nat.lt_irrefl n (c.made x n he)
    intro x y b hx hy
    by_cases hxh : x = h
    · by_cases hyh : y = h
      · rw [hxh, hyh]
      · subst hxh
        rw [Function.update_self] at hx
        exact absurd (hx ▸ hy) (other y hyh)
    · by_cases hyh : y = h
      · subst hyh
        rw [Function.update_self] at hy
        exact absurd (hy ▸ hx) (other x hxh)
      · rw [Function.update_of_ne hxh] at hx
        rw [Function.update_of_ne hyh] at hy
        exact c.unique x y b hx hy
  kept := by
    intro x b hx hb
    by_cases hxh : x = h
    · subst hxh
      rw [Function.update_self] at hx
      obtain rfl := Option.some.inj hx
      exact Nat.lt_irrefl n (c.goneMade n hb)
    · rw [Function.update_of_ne hxh] at hx
      exact c.kept x b hx hb
  nodup := c.nodup
  made := by
    intro x b hx
    by_cases hxh : x = h
    · subst hxh
      rw [Function.update_self] at hx
      obtain rfl := Option.some.inj hx
      exact Nat.lt_succ_self n
    · rw [Function.update_of_ne hxh] at hx
      exact Nat.lt_succ_of_lt (c.made x b hx)
  goneMade b hb := Nat.lt_succ_of_lt (c.goneMade b hb)
  all := by
    intro b hb
    rcases Nat.lt_succ_iff_lt_or_eq.1 hb with hlt | rfl
    · rcases c.all b hlt with ⟨x, hx⟩ | hg
      · have hxh : x ≠ h := by
          rintro rfl
          rw [hh] at hx
          cases hx
        exact .inl ⟨x, by rw [Function.update_of_ne hxh]; exact hx⟩
      · exact .inr hg
    · exact .inl ⟨h, Function.update_self ..⟩

/-- A holder hands what it has, if anything, to one that has nothing. -/
theorem move (c : Custody n hold gone) (hne : h ≠ h') (hh' : hold h' = none) :
    Custody n (Function.update (Function.update hold h none) h' (hold h)) gone := by
  -- the holder before the move
  have before : ∀ x b, Function.update (Function.update hold h none) h' (hold h) x = some b →
      hold (if x = h' then h else x) = some b ∧ x ≠ h := by
    intro x b hx
    by_cases hxh' : x = h'
    · subst hxh'
      rw [Function.update_self] at hx
      exact ⟨by rw [if_pos rfl]; exact hx, hne.symm⟩
    · rw [Function.update_of_ne hxh'] at hx
      by_cases hxh : x = h
      · subst hxh
        rw [Function.update_self] at hx
        cases hx
      · rw [Function.update_of_ne hxh] at hx
        exact ⟨by rw [if_neg hxh']; exact hx, hxh⟩
  constructor
  case unique =>
    intro x y b hx hy
    obtain ⟨hx', hxh⟩ := before x b hx
    obtain ⟨hy', hyh⟩ := before y b hy
    have heq := c.unique _ _ b hx' hy'
    by_cases hxn : x = h'
    · by_cases hyn : y = h'
      · rw [hxn, hyn]
      · rw [if_pos hxn, if_neg hyn] at heq
        exact absurd heq.symm hyh
    · by_cases hyn : y = h'
      · rw [if_neg hxn, if_pos hyn] at heq
        exact absurd heq hxh
      · rw [if_neg hxn, if_neg hyn] at heq
        exact heq
  case kept => exact fun x b hx => c.kept _ b (before x b hx).1
  case nodup => exact c.nodup
  case made => exact fun x b hx => c.made _ b (before x b hx).1
  case goneMade => exact c.goneMade
  case all =>
    intro b hb
    rcases c.all b hb with ⟨x, hx⟩ | hg
    · by_cases hxh : x = h
      · subst hxh
        exact .inl ⟨h', by rw [Function.update_self]; exact hx⟩
      · have hxn : x ≠ h' := by
          rintro rfl
          rw [hh'] at hx
          cases hx
        exact .inl ⟨x, by rw [Function.update_of_ne hxn, Function.update_of_ne hxh]; exact hx⟩
    · exact .inr hg

/-- A holder gives up what it has. -/
theorem release (c : Custody n hold gone) (hh : hold h = some b) :
    Custody n (Function.update hold h none) (b :: gone) := by
  have before : ∀ x a, Function.update hold h none x = some a → x ≠ h ∧ hold x = some a := by
    intro x a hx
    by_cases hxh : x = h
    · subst hxh
      rw [Function.update_self] at hx
      cases hx
    · rw [Function.update_of_ne hxh] at hx
      exact ⟨hxh, hx⟩
  constructor
  case unique => exact fun x y a hx hy => c.unique x y a (before x a hx).2 (before y a hy).2
  case kept =>
    intro x a hx ha
    obtain ⟨hxh, hx'⟩ := before x a hx
    rcases List.mem_cons.1 ha with rfl | ha
    · exact hxh (c.unique x h a hx' hh)
    · exact c.kept x a hx' ha
  case nodup => exact List.nodup_cons.2 ⟨c.kept h b hh, c.nodup⟩
  case made => exact fun x a hx => c.made x a (before x a hx).2
  case goneMade =>
    intro a ha
    rcases List.mem_cons.1 ha with rfl | ha
    · exact c.made h a hh
    · exact c.goneMade a ha
  case all =>
    intro a ha
    rcases c.all a ha with ⟨x, hx⟩ | hg
    · by_cases hxh : x = h
      · subst hxh
        rw [hh] at hx
        obtain rfl := Option.some.inj hx
        exact .inr List.mem_cons_self
      · exact .inl ⟨x, by rw [Function.update_of_ne hxh]; exact hx⟩
    · exact .inr (List.mem_cons_of_mem _ hg)

end Custody
