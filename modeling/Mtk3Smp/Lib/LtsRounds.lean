import Mtk3Smp.Lib.Lts
import Mathlib.Data.Set.Card
import Mathlib.Order.Interval.Finset.Nat

/-!
# Counting events on infinite runs

A rank that falls at every event of a kind, and never grows until an event that ends the count,
bounds the number of events of that kind; and a run that follows a schedule for ever.
-/

universe u v

namespace Lts

variable {σ : Type u} {ε : Type v} {L : Lts σ ε}

/-- The events of a kind that follow the one at `n`, before the next that ends the count. -/
def Path.rounds (p : L.Path) (kind stop : ε → Prop) (n : Nat) : Set Nat :=
  {i | n < i ∧ kind (p.event i) ∧ ∀ j, n < j → j < i → ¬stop (p.event j)}

variable {p : L.Path} {kind stop : ε → Prop} (rank : σ → Nat) {n : Nat}

/-- The rank along a stretch in which the count does not end. -/
theorem Path.rank_le (keep : ∀ i, n < i → ¬stop (p.event i) →
      rank (p.state (i + 1)) ≤ rank (p.state i)) {a b : Nat} (hn : n < a) (hab : a ≤ b)
    (h : ∀ j, a ≤ j → j < b → ¬stop (p.event j)) : rank (p.state b) ≤ rank (p.state a) := by
  induction b, hab using Nat.le_induction with
  | base => exact Nat.le_refl _
  | succ b hb ih =>
    have hlast := keep b (by omega) (h b hb (Nat.lt_succ_self b))
    exact Nat.le_trans hlast (ih fun j hj hlt => h j hj (by omega))

theorem Path.rounds_bounded
    (keep : ∀ i, n < i → ¬stop (p.event i) → rank (p.state (i + 1)) ≤ rank (p.state i))
    (fall : ∀ i, n < i → kind (p.event i) → rank (p.state (i + 1)) < rank (p.state i)) :
    (p.rounds kind stop n).Finite ∧
      (p.rounds kind stop n).ncard ≤ rank (p.state (n + 1)) := by
  -- the ranks before the events are different
  have hlt : ∀ i ∈ p.rounds kind stop n, ∀ j ∈ p.rounds kind stop n, i < j →
      rank (p.state j) < rank (p.state i) := by
    rintro i ⟨hi, hki, -⟩ j ⟨-, -, hj⟩ hij
    have hstep := fall i hi hki
    have hrest : rank (p.state j) ≤ rank (p.state (i + 1)) :=
      Path.rank_le rank keep (Nat.lt_succ_of_lt hi) hij fun x hx hlt => hj x (by omega) hlt
    omega
  have hinj : Set.InjOn (fun i => rank (p.state i)) (p.rounds kind stop n) := by
    intro i hi j hj he
    dsimp only at he
    rcases Nat.lt_trichotomy i j with hij | hij | hij
    · have := hlt i hi j hj hij
      omega
    · exact hij
    · have := hlt j hj i hi hij
      omega
  have hmap : ∀ i ∈ p.rounds kind stop n,
      rank (p.state i) ∈ (Finset.Icc 1 (rank (p.state (n + 1))) : Set Nat) := by
    rintro i ⟨hi, hki, hq⟩
    have hstep := fall i hi hki
    have hstart : rank (p.state i) ≤ rank (p.state (n + 1)) :=
      Path.rank_le rank keep (Nat.lt_succ_self n) hi fun x hx hlt => hq x (by omega) hlt
    rw [Finset.mem_coe, Finset.mem_Icc]
    omega
  have hfin := Finset.finite_toSet (Finset.Icc 1 (rank (p.state (n + 1))))
  refine ⟨Set.Finite.of_injOn hmap hinj hfin, ?_⟩
  have hcard := Set.ncard_le_ncard_of_injOn _ hmap hinj hfin
  rwa [Set.ncard_coe_finset, Nat.card_Icc, Nat.add_sub_cancel] at hcard

/-- The run that follows the schedule `ev`, along which `P` can be kept. -/
theorem Path.of_schedule {s : σ} (start : L.init s) (ev : Nat → ε) (P : Nat → σ → Prop)
    (hs : P 0 s) (next : ∀ n s, P n s → ∃ t, L.step s (ev n) = some t ∧ P (n + 1) t) :
    ∃ p : L.Path, p.event = ev ∧ ∀ n, P n (p.state n) := by
  let state : Nat → σ := fun n => Nat.rec s (fun n t => (L.step t (ev n)).getD t) n
  have hP : ∀ n, P n (state n) := by
    intro n
    induction n with
    | zero => exact hs
    | succ n ih =>
      obtain ⟨t, ht, hPt⟩ := next n _ ih
      show P (n + 1) ((L.step (state n) (ev n)).getD (state n))
      rwa [ht]
  refine ⟨⟨state, ev, start, fun n => ?_⟩, rfl, hP⟩
  obtain ⟨t, ht, -⟩ := next n _ (hP n)
  show L.step (state n) (ev n) = some ((L.step (state n) (ev n)).getD (state n))
  rw [ht]
  rfl

/-- A trace, after which the run follows the schedule. -/
theorem Path.of_trace {s t : σ} (start : L.init s) (es : List ε)
    (hes : L.exec (fun _ _ => true) s es = some t) (ev : Nat → ε) (P : Nat → σ → Prop)
    (ht : P 0 t) (next : ∀ n s, P n s → ∃ t, L.step s (ev n) = some t ∧ P (n + 1) t) :
    ∃ p : L.Path, p.event = fun n => es[n]?.getD (ev (n - es.length)) := by
  let Q : Nat → σ → Prop := fun n u =>
    (n ≤ es.length → L.exec (fun _ _ => true) s (es.take n) = some u) ∧
      (es.length ≤ n → P (n - es.length) u)
  have hlast : ∀ n u, L.exec (fun _ _ => true) s (es.take n) = some u → es.length ≤ n →
      P 0 u := by
    intro n u hu hle
    rw [List.take_of_length_le hle, hes] at hu
    rwa [← Option.some.inj hu]
  have hQ : ∀ n u, Q n u → ∃ v, L.step u (es[n]?.getD (ev (n - es.length))) = some v ∧
      Q (n + 1) v := by
    rintro n u ⟨htrace, hP⟩
    by_cases hn : n < es.length
    · have hall : (L.exec (fun _ _ => true) s (es.take (n + 1) ++ es.drop (n + 1))).isSome := by
        rw [List.take_append_drop, hes]
        rfl
      have hsome := exec_prefix hall
      have hcat : L.exec (fun _ _ => true) s (es.take (n + 1)) =
          L.exec (fun _ _ => true) u [es[n]] := by
        rw [List.take_succ_eq_append_getElem hn, exec_concat, htrace hn.le, Option.bind_some]
      rw [hcat] at hsome
      rw [List.getElem?_eq_getElem hn, Option.getD_some]
      cases hy : L.step u es[n] with
      | none => simp [exec, hy] at hsome
      | some v =>
        have hv : L.exec (fun _ _ => true) s (es.take (n + 1)) = some v := by
          rw [hcat]
          simp [exec, hy]
        refine ⟨v, rfl, fun _ => hv, fun hle => ?_⟩
        rw [Nat.sub_eq_zero_of_le (by omega)]
        exact hlast (n + 1) v hv hle
    · have hle : es.length ≤ n := Nat.le_of_not_lt hn
      obtain ⟨v, hv, hPv⟩ := next _ u (hP hle)
      rw [List.getElem?_eq_none hle, Option.getD_none]
      refine ⟨v, hv, fun h => absurd h (by omega), fun _ => ?_⟩
      rwa [Nat.sub_add_comm hle]
  have hzero : Q 0 s := by
    refine ⟨fun _ => rfl, fun hle => ?_⟩
    rw [Nat.zero_sub]
    exact hlast 0 s rfl hle
  obtain ⟨p, hp, -⟩ := Path.of_schedule start _ Q hzero hQ
  exact ⟨p, hp⟩

end Lts
