import Mathlib.Data.Option.Basic

/-!
# Monitors of a history

A protocol as an automaton over the records of a history, which is a list with the newest record
first. A step to `none` is a record that the protocol does not allow there.
-/

universe u v

structure Monitor (σ : Type u) (ρ : Type v) where
  start : σ
  next : σ → ρ → Option σ

namespace Monitor

variable {σ : Type u} {ρ : Type v}

/-- Where the protocol is after a history that it allows. -/
def after (M : Monitor σ ρ) : List ρ → Option σ
  | [] => some M.start
  | r :: log => (M.after log).bind fun x => M.next x r

variable {M : Monitor σ ρ} {log : List ρ} {r : ρ} {x y : σ}

@[simp] theorem after_nil : M.after [] = some M.start := rfl

theorem after_cons (h : M.after log = some x) (hn : M.next x r = some y) :
    M.after (r :: log) = some y := by
  show (M.after log).bind _ = _
  rw [h]
  exact hn

/-- A record that is none of the protocol's business. -/
theorem after_cons_other (h : ∀ x, M.next x r = some x) : M.after (r :: log) = M.after log := by
  show (M.after log).bind _ = _
  cases M.after log with
  | none => rfl
  | some x => exact h x

end Monitor
