import Mathlib.Data.List.Basic
import Mathlib.Data.List.Nodup
import Mathlib.Logic.Function.Basic

/-!
# Singly linked lists

`SChain nxt head l`: the links from `head` on lead through `l` to the end. The link is kept in the
element itself, so that an element can be in one such list only.
-/

universe u

def SChain {α : Type u} (nxt : α → Option α) : Option α → List α → Prop
  | head, [] => head = none
  | head, a :: l => head = some a ∧ SChain nxt (nxt a) l

section

variable {α : Type u} {nxt nxt' : α → Option α} {head prev b : Option α} {l l' r : List α} {a m : α}

theorem SChain.eq_head? (h : SChain nxt head l) : head = l.head? := by
  cases l with
  | nil => exact h
  | cons a l => exact h.1

theorem SChain.congr (h : SChain nxt head l) (hs : ∀ a ∈ l, nxt' a = nxt a) :
    SChain nxt' head l := by
  induction l generalizing head with
  | nil => exact h
  | cons a l ih =>
    refine ⟨h.1, ?_⟩
    rw [hs a List.mem_cons_self]
    exact ih h.2 fun c hc => hs c (List.mem_cons_of_mem _ hc)

/-- The links determine the list. -/
theorem SChain.unique (h : SChain nxt head l) (h' : SChain nxt head l') : l = l' := by
  induction l generalizing head l' with
  | nil =>
    cases l' with
    | nil => rfl
    | cons a l' =>
      have hnone : head = none := h
      rw [h'.1] at hnone
      cases hnone
  | cons a l ih =>
    cases l' with
    | nil =>
      have hnone : head = none := h'
      rw [h.1] at hnone
      cases hnone
    | cons a' l' =>
      have he : some a = some a' := h.1.symm.trans h'.1
      obtain rfl := Option.some.inj he
      rw [ih h.2 h'.2]

/-- What leads on behind `l`: the head, or the link of its last element. -/
def linkAfter (nxt : α → Option α) (head : Option α) (l : List α) : Option α :=
  match l.getLast? with
  | none => head
  | some p => nxt p

theorem SChain.linkAfter_eq (h : SChain nxt head (l ++ r)) : linkAfter nxt head l = r.head? := by
  induction l generalizing head with
  | nil => exact h.eq_head?
  | cons a l ih =>
    have hrest := ih h.2
    cases l with
    | nil => exact hrest
    | cons b l =>
      unfold linkAfter at hrest ⊢
      rw [List.getLast?_cons_cons]
      exact hrest

variable [DecidableEq α]

/-- An element that is in no list goes in front. -/
theorem SChain.push (h : SChain nxt head l) (ha : a ∉ l) :
    SChain (Function.update nxt a head) (some a) (a :: l) := by
  refine ⟨rfl, ?_⟩
  rw [Function.update_self]
  refine h.congr fun c hc => ?_
  have hne : c ≠ a := fun he => ha (he ▸ hc)
  exact Function.update_of_ne hne _ _

/-- The writes that put `m` behind `prev`, where none is the head, and `b` behind `m`. -/
def linkBehind (nxt : α → Option α) (prev : Option α) (m : α) (b : Option α) : α → Option α :=
  let nxt := Function.update nxt m b
  match prev with
  | none => nxt
  | some p => Function.update nxt p (some m)

theorem linkBehind_of_ne (hm : a ≠ m) (hp : prev ≠ some a) : linkBehind nxt prev m b a = nxt a := by
  cases prev with
  | none => exact Function.update_of_ne hm _ _
  | some p =>
    have hne : a ≠ p := fun he => hp (he ▸ rfl)
    calc linkBehind nxt (some p) m b a = Function.update nxt m b a := Function.update_of_ne hne _ _
      _ = nxt a := Function.update_of_ne hm _ _

theorem linkBehind_self (hp : prev ≠ some m) : linkBehind nxt prev m b m = b := by
  cases prev with
  | none => exact Function.update_self _ _ _
  | some p =>
    have hne : m ≠ p := fun he => hp (he ▸ rfl)
    calc linkBehind nxt (some p) m b m = Function.update nxt m b m := Function.update_of_ne hne _ _
      _ = b := Function.update_self _ _ _

theorem linkBehind_prev {p : α} : linkBehind nxt (some p) m b p = some m :=
  Function.update_self _ _ _

/-- `m` comes between the elements of `l` and those of `r`. -/
theorem SChain.link (h : SChain nxt head (l ++ r)) (hnd : (l ++ r).Nodup) (hm : m ∉ l ++ r) :
    SChain (linkBehind nxt l.getLast? m r.head?)
      (if l.getLast? = none then some m else head) (l ++ m :: r) := by
  induction l generalizing head with
  | nil =>
    refine ⟨rfl, ?_⟩
    rw [linkBehind_self (by simp)]
    rw [List.nil_append] at h hm
    have hr := h.eq_head?
    rw [← hr]
    refine h.congr fun a ha => linkBehind_of_ne (fun he => hm (he ▸ ha)) (by simp)
  | cons a l ih =>
    obtain ⟨ha, hrest⟩ := h
    obtain ⟨hnot, hnd'⟩ := List.nodup_cons.1 hnd
    have hma : a ≠ m := fun he => hm (he ▸ List.mem_cons_self)
    have hm' : m ∉ l ++ r := fun hx => hm (List.mem_cons_of_mem _ hx)
    have hih := ih hrest hnd' hm'
    rw [if_neg (by simp), List.cons_append]
    refine ⟨ha, ?_⟩
    cases l with
    | nil =>
      -- `a` is the last one before `m`
      have hself : linkBehind nxt [a].getLast? m r.head? a = some m := linkBehind_prev
      rw [hself]
      refine ⟨rfl, ?_⟩
      have hsome : [a].getLast? ≠ some m := fun he => hma (Option.some.inj he)
      rw [linkBehind_self hsome]
      have hrest : SChain nxt (nxt a) r := hrest
      have hm' : m ∉ r := hm'
      rw [← hrest.eq_head?]
      refine hrest.congr fun y hy => linkBehind_of_ne (fun he => hm' (he ▸ hy)) fun he => ?_
      obtain rfl : a = y := Option.some.inj he
      exact hnot hy
    | cons a' l =>
      have hlast : (a :: a' :: l).getLast? = (a' :: l).getLast? := List.getLast?_cons_cons
      have hne : (a' :: l).getLast? ≠ some a := fun he =>
        hnot (List.mem_append_left _ (List.mem_of_getLast? he))
      rw [hlast, linkBehind_of_ne hma hne]
      rwa [if_neg (by simp)] at hih

/-- The write that takes `m` out behind `prev`, where none is the head. -/
def unlinkBehind (nxt : α → Option α) (prev : Option α) (m : α) : α → Option α :=
  match prev with
  | none => nxt
  | some p => Function.update nxt p (nxt m)

theorem SChain.unlink (h : SChain nxt head (l ++ m :: r)) (hnd : (l ++ m :: r).Nodup) :
    SChain (unlinkBehind nxt l.getLast? m) (if l.getLast? = none then nxt m else head)
      (l ++ r) := by
  induction l generalizing head with
  | nil => exact h.2
  | cons a l ih =>
    obtain ⟨ha, hrest⟩ := h
    obtain ⟨hnot, hnd'⟩ := List.nodup_cons.1 hnd
    have hih := ih hrest hnd'
    rw [if_neg (by simp), List.cons_append]
    refine ⟨ha, ?_⟩
    cases l with
    | nil =>
      -- `a` is the one before `m`
      show SChain (Function.update nxt a (nxt m)) (Function.update nxt a (nxt m) a) r
      rw [Function.update_self]
      refine SChain.congr hrest.2 fun y hy => ?_
      have hne : y ≠ a := by
        rintro rfl
        exact hnot (List.mem_cons_of_mem _ hy)
      exact Function.update_of_ne hne _ _
    | cons b l =>
      have hlast : (a :: b :: l).getLast? = (b :: l).getLast? := List.getLast?_cons_cons
      have hne : unlinkBehind nxt (b :: l).getLast? m a = nxt a := by
        cases hp : (b :: l).getLast? with
        | none => rfl
        | some p =>
          have hpa : a ≠ p := by
            rintro rfl
            exact hnot (List.mem_append_left _ (List.mem_of_getLast? hp))
          exact Function.update_of_ne hpa _ _
      rw [hlast, hne]
      rwa [if_neg (by simp)] at hih

end
