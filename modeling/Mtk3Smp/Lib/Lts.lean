import Mathlib.Logic.Basic
import Mathlib.Data.Option.Basic
import Mathlib.Order.Basic
import Mathlib.Data.Nat.Init

/-!
# Runs of an event-driven transition system

A system is a type of states, a predicate for the initial ones and a partial step
function labelled by events: `step s e = none` says that `e` cannot happen in `s`.
`RunIf cond` are the finite runs in which `cond` holds of the state and the event before
every step, so that a guarantee under an assumption on the steps is an induction like a
plain invariant. `exec` runs a list of events and checks each step, for concrete traces.
-/

universe u v

/-- A labelled transition system with a partial, deterministic step for every event. -/
structure Lts (σ : Type u) (ε : Type v) where
  init : σ → Prop
  step : σ → ε → Option σ

namespace Lts

variable {σ : Type u} {ε : Type v} (L : Lts σ ε)

/-- Finite runs in which every step `(s, e)` meets `cond`. -/
inductive RunIf (cond : σ → ε → Prop) : σ → σ → Prop
  | refl (s) : RunIf cond s s
  | tail {s t u e} : RunIf cond s t → cond t e → L.step t e = some u → RunIf cond s u

/-- All finite runs. -/
abbrev Run : σ → σ → Prop := L.RunIf fun _ _ => True

/-- The states reached from an initial one by steps that meet `cond`. -/
def ReachableIf (cond : σ → ε → Prop) (s : σ) : Prop := ∃ s₀, L.init s₀ ∧ L.RunIf cond s₀ s

/-- The reachable states. -/
abbrev Reachable : σ → Prop := L.ReachableIf fun _ _ => True

variable {L}

theorem RunIf.mono {p q : σ → ε → Prop} (h : ∀ s e, p s e → q s e) {s t : σ}
    (run : L.RunIf p s t) : L.RunIf q s t := by
  induction run with
  | refl => exact .refl _
  | tail _ hp hs ih => exact .tail ih (h _ _ hp) hs

theorem RunIf.trans {p : σ → ε → Prop} {s t u : σ}
    (first : L.RunIf p s t) (second : L.RunIf p t u) : L.RunIf p s u := by
  induction second with
  | refl => exact first
  | tail _ hp hs ih => exact .tail ih hp hs

theorem ReachableIf.mono {p q : σ → ε → Prop} (h : ∀ s e, p s e → q s e) {s : σ}
    (reach : L.ReachableIf p s) : L.ReachableIf q s := by
  obtain ⟨s₀, h₀, run⟩ := reach
  exact ⟨s₀, h₀, run.mono h⟩

theorem ReachableIf.step {p : σ → ε → Prop} {s t : σ} {e : ε} (reach : L.ReachableIf p s)
    (hp : p s e) (hs : L.step s e = some t) : L.ReachableIf p t := by
  obtain ⟨s₀, h₀, run⟩ := reach
  exact ⟨s₀, h₀, .tail run hp hs⟩

theorem ReachableIf.run {p : σ → ε → Prop} {s t : σ} (reach : L.ReachableIf p s)
    (run : L.RunIf p s t) : L.ReachableIf p t := by
  obtain ⟨s₀, h₀, first⟩ := reach
  exact ⟨s₀, h₀, first.trans run⟩

/-- What holds initially and is preserved by every step that meets `cond` holds in every
state reached by such steps. -/
theorem ReachableIf.invariant {cond : σ → ε → Prop} (inv : σ → Prop)
    (start : ∀ s, L.init s → inv s)
    (keep : ∀ s e t, inv s → cond s e → L.step s e = some t → inv t)
    {s : σ} (reach : L.ReachableIf cond s) : inv s := by
  obtain ⟨s₀, h₀, run⟩ := reach
  induction run with
  | refl => exact start _ h₀
  | tail _ hc hs ih => exact keep _ _ _ ih hc hs

/-- The same from an intermediate state: `inv` is only assumed where the run starts. -/
theorem RunIf.invariant {cond : σ → ε → Prop} (inv : σ → Prop)
    (keep : ∀ s e t, inv s → cond s e → L.step s e = some t → inv t)
    {s t : σ} (run : L.RunIf cond s t) (start : inv s) : inv t := by
  induction run with
  | refl => exact start
  | tail _ hc hs ih => exact keep _ _ _ ih hc hs

/-- An infinite run from an initial state. -/
structure Path (L : Lts σ ε) where
  state : Nat → σ
  event : Nat → ε
  start : L.init (state 0)
  next : ∀ n, L.step (state n) (event n) = some (state (n + 1))

theorem Path.reachable (p : L.Path) (n : Nat) : L.Reachable (p.state n) := by
  induction n with
  | zero => exact ⟨_, p.start, .refl _⟩
  | succ n ih => exact ih.step trivial (p.next n)

/-- A stretch of a path along which every step meets `cond` is a run. -/
theorem Path.run (p : L.Path) (cond : σ → ε → Prop) {n m : Nat} (hle : n ≤ m)
    (h : ∀ i, n ≤ i → i < m → cond (p.state i) (p.event i)) :
    L.RunIf cond (p.state n) (p.state m) := by
  induction m, hle using Nat.le_induction with
  | base => exact .refl _
  | succ m hm ih =>
    have first := ih fun i hi hlt => h i hi (Nat.lt_succ_of_lt hlt)
    exact .tail first (h m hm (Nat.lt_succ_self m)) (p.next m)

/-- Runs a list of events; `none` as soon as one of them cannot happen or fails `ok`. -/
def exec (L : Lts σ ε) (ok : σ → ε → Bool) : σ → List ε → Option σ
  | s, [] => some s
  | s, e :: es =>
    match ok s e, L.step s e with
    | true, some t => L.exec ok t es
    | _, _ => none

theorem run_of_exec {cond : σ → ε → Prop} {ok : σ → ε → Bool}
    (sound : ∀ s e, ok s e = true → cond s e) {es : List ε} {s t : σ}
    (h : L.exec ok s es = some t) : L.RunIf cond s t := by
  induction es generalizing s with
  | nil =>
    obtain rfl : s = t := by simpa [exec] using h
    exact .refl _
  | cons e es ih =>
    simp only [exec] at h
    split at h
    · rename_i next hok hs
      exact (RunIf.tail (.refl s) (sound _ _ hok) hs).trans (ih h)
    · cases h

/-- A concrete trace goes on from a reached state to one of which `p` holds. -/
theorem ReachableIf.exec {cond : σ → ε → Prop} {ok : σ → ε → Bool} {p : σ → Bool} {s : σ}
    (reach : L.ReachableIf cond s) (sound : ∀ s e, ok s e = true → cond s e) (es : List ε)
    (h : (L.exec ok s es).any p = true) : ∃ t, L.ReachableIf cond t ∧ p t = true := by
  cases hx : L.exec ok s es with
  | none => simp [hx] at h
  | some t => exact ⟨t, reach.run (run_of_exec sound hx), by simpa [hx] using h⟩

/-- A concrete trace from an initial state reaches a state of which `p` holds. -/
theorem reachable_of_exec {cond : σ → ε → Prop} {ok : σ → ε → Bool} {p : σ → Bool}
    (sound : ∀ s e, ok s e = true → cond s e) {s : σ} (es : List ε) (h₀ : L.init s)
    (h : (L.exec ok s es).any p = true) : ∃ t, L.ReachableIf cond t ∧ p t = true :=
  ReachableIf.exec ⟨s, h₀, .refl s⟩ sound es h

/-- The same for a trace whose steps meet no condition. -/
theorem reachable_of_trace {p : σ → Bool} {s : σ} (es : List ε) (h₀ : L.init s)
    (h : (L.exec (fun _ _ => true) s es).any p = true) : ∃ t, L.Reachable t ∧ p t = true :=
  reachable_of_exec (fun _ _ _ => trivial) es h₀ h

/-- A rank that never grows while `P` holds, and that keeps falling, ends `P`. -/
theorem Path.leaves (p : L.Path) (P : σ → Prop) (rank : σ → Nat)
    (keep : ∀ n, P (p.state n) → P (p.state (n + 1)) →
      rank (p.state (n + 1)) ≤ rank (p.state n))
    (fall : ∀ n, P (p.state n) → ∃ m, n ≤ m ∧ (P (p.state m) → P (p.state (m + 1)) →
      rank (p.state (m + 1)) < rank (p.state m)))
    (n : Nat) : ∃ m, n ≤ m ∧ ¬ P (p.state m) := by
  by_contra hall
  have hP : ∀ m, n ≤ m → P (p.state m) := by
    intro m hm
    by_contra hn
    exact hall ⟨m, hm, hn⟩
  have mono : ∀ a b, n ≤ a → a ≤ b → rank (p.state b) ≤ rank (p.state a) := by
    intro a b ha hab
    induction b, hab using Nat.le_induction with
    | base => exact Nat.le_refl _
    | succ b hb ih => exact Nat.le_trans (keep b (hP b (by omega)) (hP (b + 1) (by omega))) ih
  have below : ∀ r m, n ≤ m → rank (p.state m) ≤ r → False := by
    intro r
    induction r with
    | zero =>
      intro m hm hr
      obtain ⟨j, hj, hlt⟩ := fall m (hP m hm)
      have h1 := hlt (hP j (by omega)) (hP (j + 1) (by omega))
      have h2 := mono m j hm hj
      omega
    | succ r ih =>
      intro m hm hr
      obtain ⟨j, hj, hlt⟩ := fall m (hP m hm)
      have h1 := hlt (hP j (by omega)) (hP (j + 1) (by omega))
      have h2 := mono m j hm hj
      exact ih (j + 1) (by omega) (by omega)
  exact below _ n (Nat.le_refl n) (Nat.le_refl _)

theorem exec_concat {ok : σ → ε → Bool} (es : List ε) (e : ε) (s : σ) :
    L.exec ok s (es ++ [e]) = (L.exec ok s es).bind fun t => L.exec ok t [e] := by
  induction es generalizing s with
  | nil => rfl
  | cons x xs ih =>
    simp only [List.cons_append, exec]
    split
    · exact ih _
    · rfl

theorem exec_prefix {ok : σ → ε → Bool} {xs ys : List ε} {s : σ}
    (h : (L.exec ok s (xs ++ ys)).isSome) : (L.exec ok s xs).isSome := by
  induction xs generalizing s with
  | nil => rfl
  | cons x xs ih =>
    simp only [List.cons_append, exec] at h ⊢
    cases hok : ok s x with
    | false => simp [hok] at h
    | true =>
      cases hs : L.step s x with
      | none => simp [hok, hs] at h
      | some t =>
        simp only [hok, hs] at h ⊢
        exact ih h

/-- A trace, after which the system idles for ever. -/
def Path.ofTrace {s : σ} (start : L.init s) (es : List ε) (idle : ε)
    (ends : ∃ t, L.exec (fun _ _ => true) s es = some t ∧ L.step t idle = some t) : L.Path where
  state n := (L.exec (fun _ _ => true) s (es.take n)).getD s
  event n := es[n]?.getD idle
  start := start
  next n := by
    obtain ⟨t, ht, hidle⟩ := ends
    by_cases hn : n < es.length
    · have hsome : (L.exec (fun _ _ => true) s (es.take (n + 1))).isSome := by
        have hall : (L.exec (fun _ _ => true) s (es.take (n + 1) ++ es.drop (n + 1))).isSome := by
          rw [List.take_append_drop, ht]
          rfl
        exact exec_prefix hall
      rw [List.take_succ_eq_append_getElem hn, exec_concat] at hsome ⊢
      cases hx : L.exec (fun _ _ => true) s (es.take n) with
      | none => simp [hx] at hsome
      | some u =>
        simp only [hx, Option.bind_some, exec, Option.getD_some, List.getElem?_eq_getElem hn]
          at hsome ⊢
        cases hy : L.step u es[n] with
        | none => simp [hy] at hsome
        | some w => rfl
    · rw [List.take_of_length_le (by omega), List.take_of_length_le (by omega), ht,
        List.getElem?_eq_none (by omega)]
      exact hidle

theorem Path.ofTrace_state {s : σ} {start : L.init s} {es : List ε} {idle : ε}
    {ends : ∃ t, L.exec (fun _ _ => true) s es = some t ∧ L.step t idle = some t} (n : Nat) :
    (Path.ofTrace start es idle ends).state n =
      (Path.ofTrace start es idle ends).state (min n es.length) := by
  by_cases hn : n ≤ es.length
  · rw [Nat.min_eq_left hn]
  · simp only [Path.ofTrace]
    rw [List.take_of_length_le (by omega), List.take_of_length_le (by omega)]

end Lts
