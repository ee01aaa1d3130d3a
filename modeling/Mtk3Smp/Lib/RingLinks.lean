import Mtk3Smp.Lib.DList
import Mtk3Smp.Lib.Rings

/-!
# The links of intrusive rings

The pointers under a family of rings: every head and every node has a `next` and a `prev`.
An operation rewrites a few of them whatever they are, so a node that is inserted while it is
in a ring, or removed twice, has the effect that the pointers give it. `Represents l r` says
that the pointers `l` spell out the rings `r`, and each operation on `r` that keeps `r`
well formed is matched by the one on `l`.
-/

universe u v

inductive RingNode (κ : Type u) (ν : Type v)
  | head (q : κ)
  | node (x : ν)
  deriving DecidableEq

structure RingLinks (κ : Type u) (ν : Type v) where
  next : RingNode κ ν → RingNode κ ν
  prev : RingNode κ ν → RingNode κ ν

namespace RingLinks

variable {κ : Type u} {ν : Type v}

/-- Every ring empty. -/
def empty : RingLinks κ ν := { next := fun a => a, prev := fun a => a }

/-- The node behind the head. -/
def first (l : RingLinks κ ν) (q : κ) : Option ν :=
  match l.next (.head q) with
  | .node x => some x
  | .head _ => none

/-- The node `n` places behind `a`. -/
def walk (l : RingLinks κ ν) : Nat → RingNode κ ν → Option ν
  | 0, a =>
    match l.next a with
    | .node x => some x
    | .head _ => none
  | n + 1, a =>
    match l.next a with
    | .node x => l.walk n (.node x)
    | .head _ => none

/-- The pointers spell out the rings. -/
structure Represents (l : RingLinks κ ν) (r : Rings κ ν) : Prop where
  ring : ∀ q, DList.Ring l.next l.prev (.head q) ((r.que q).map .node)
  self : ∀ x, r.link x = .selfRing → l.next (.node x) = .node x

theorem represents_empty : (empty : RingLinks κ ν).Represents .empty where
  ring _ := ⟨rfl, rfl⟩
  self _ h := nomatch h

variable [DecidableEq κ] [DecidableEq ν] (l : RingLinks κ ν)

def setNext (a b : RingNode κ ν) : RingLinks κ ν := { l with next := Function.update l.next a b }
def setPrev (a b : RingNode κ ν) : RingLinks κ ν := { l with prev := Function.update l.prev a b }

@[simp] theorem setNext_next (a b : RingNode κ ν) :
    (l.setNext a b).next = Function.update l.next a b := rfl
@[simp] theorem setNext_prev (a b : RingNode κ ν) : (l.setNext a b).prev = l.prev := rfl
@[simp] theorem setPrev_next (a b : RingNode κ ν) : (l.setPrev a b).next = l.next := rfl
@[simp] theorem setPrev_prev (a b : RingNode κ ν) :
    (l.setPrev a b).prev = Function.update l.prev a b := rfl

/-- Makes `x` a ring of its own. -/
def init (x : ν) : RingLinks κ ν := (l.setNext (.node x) (.node x)).setPrev (.node x) (.node x)

/-- Links `x` in before `a`. -/
def insert (x : ν) (a : RingNode κ ν) : RingLinks κ ν :=
  let l := l.setPrev (.node x) (l.prev a)
  let l := l.setNext (.node x) a
  let l := l.setNext (l.prev a) (.node x)
  l.setPrev a (.node x)

/-- Unlinks `x`. -/
def remove (x : ν) : RingLinks κ ν :=
  if l.next (.node x) ≠ .node x then
    let l := l.setNext (l.prev (.node x)) (l.next (.node x))
    l.setPrev (l.next (.node x)) (l.prev (.node x))
  else l

/-- Unlinks the node behind the head of `q`, and gives it, if there is one. -/
def removeNext (q : κ) : RingLinks κ ν × Option ν :=
  match l.next (.head q) with
  | .head _ => (l, none)
  | .node x =>
    let l := l.setNext (.head q) (l.next (.node x))
    (l.setPrev (l.next (.node x)) (.head q), some x)

end RingLinks

namespace Rings

variable {κ : Type u} {ν : Type v} {r : Rings κ ν} {q p : κ} {x y : ν}

/-- The head and the nodes of a ring. -/
def nodes (r : Rings κ ν) (q : κ) : List (RingNode κ ν) := .head q :: (r.que q).map .node

theorem WF.nodup_nodes (wf : r.WF) (q : κ) : (r.nodes q).Nodup := by
  refine List.nodup_cons.2 ⟨by simp, ?_⟩
  refine (wf.nodup q).map fun x y h => ?_
  injection h

/-- A node is in one ring only. -/
theorem WF.nodes_disjoint (wf : r.WF) (hne : p ≠ q) {a : RingNode κ ν} (ha : a ∈ r.nodes q) :
    a ∉ r.nodes p := by
  intro hp
  cases a with
  | head c =>
    have hq : c = q := by simpa [nodes] using ha
    have hc : c = p := by simpa [nodes] using hp
    exact hne (hc.symm.trans hq)
  | node x =>
    have hq : x ∈ r.que q := by simpa [nodes] using ha
    have hx : x ∈ r.que p := by simpa [nodes] using hp
    have hl := ((wf.mem_iff x p).1 hx).symm.trans ((wf.mem_iff x q).1 hq)
    injection hl with he
    exact hne he

theorem node_notMem_nodes (wf : r.WF) (h : r.link x ≠ .member q) : .node x ∉ r.nodes q := by
  intro hx
  have hq : x ∈ r.que q := by simpa [nodes] using hx
  exact h ((wf.mem_iff x q).1 hq)

end Rings

namespace RingLinks

variable {κ : Type u} {ν : Type v} {l : RingLinks κ ν} {r : Rings κ ν} {q : κ} {x y : ν}
  {pre post : List ν}

/-- Where the part `post` of the ring `q` begins, and where `pre` ends. -/
def place (q : κ) (post : List ν) : RingNode κ ν := (post.map .node).headD (.head q)
def last (q : κ) (pre : List ν) : RingNode κ ν := (pre.map .node).getLastD (.head q)

theorem place_mem (h : r.que q = pre ++ post) : place q post ∈ r.nodes q := by
  cases post with
  | nil => exact List.mem_cons_self
  | cons x post =>
    refine List.mem_cons_of_mem _ ?_
    simp [place, h]

theorem last_eq_or_mem (q : κ) (pre : List ν) :
    last q pre = .head q ∨ ∃ x ∈ pre, last q pre = .node x := by
  rcases List.mem_cons.1 (DList.getLastD_mem (RingNode.head q) (pre.map .node)) with he | hm
  · exact .inl he
  · obtain ⟨x, hx, he⟩ := List.mem_map.1 hm
    exact .inr ⟨x, hx, he.symm⟩

theorem last_mem (h : r.que q = pre ++ post) : last q pre ∈ r.nodes q := by
  rcases last_eq_or_mem q pre with he | ⟨x, hx, he⟩
  · rw [he]
    exact List.mem_cons_self
  · rw [he]
    refine List.mem_cons_of_mem _ (List.mem_map_of_mem ?_)
    rw [h]
    exact List.mem_append_left _ hx

theorem Represents.first_eq (h : l.Represents r) (q : κ) : l.first q = (r.que q).head? := by
  have hring := (h.ring q).next_first
  unfold first
  cases hq : r.que q with
  | nil =>
    rw [hq] at hring
    rw [hring]
    rfl
  | cons x rest =>
    rw [hq] at hring
    rw [hring]
    rfl

theorem walk_of_seg {a b : RingNode κ ν} {xs : List ν} {n : Nat}
    (h : DList.Seg l.next l.prev a (xs.map .node) b) (hn : n < xs.length) :
    l.walk n a = xs[n]? := by
  induction xs generalizing a n with
  | nil => cases hn
  | cons x xs ih =>
    cases n with
    | zero =>
      unfold walk
      rw [h.1]
      rfl
    | succ n =>
      unfold walk
      rw [h.1]
      exact ih h.2.2 (Nat.lt_of_succ_lt_succ hn)

/-- The walk that reaches a node before it is back at a head finds a node of the ring. -/
theorem Represents.mem_of_walk (h : l.Represents r) {n : Nat} (hw : l.walk n (.head q) = some x) :
    x ∈ r.que q := by
  suffices hs : ∀ (xs : List ν) (a : RingNode κ ν) (n : Nat),
      DList.Seg l.next l.prev a (xs.map .node) (.head q) → l.walk n a = some x → x ∈ xs from
    hs _ _ n (h.ring q) hw
  intro xs
  induction xs with
  | nil =>
    intro a n hseg hw
    cases n <;> simp [walk, hseg.1] at hw
  | cons y xs ih =>
    intro a n hseg hw
    cases n with
    | zero =>
      simp only [walk, hseg.1, Option.some.injEq] at hw
      exact hw ▸ List.mem_cons_self
    | succ n =>
      simp only [walk, hseg.1] at hw
      exact List.mem_cons_of_mem _ (ih _ n hseg.2.2 hw)

/-- Behind a node of a ring comes the next one, or the head. -/
theorem Represents.next_node (h : l.Represents r) (hq : r.que q = pre ++ x :: post) :
    l.next (.node x) = place q post := by
  have hring := h.ring q
  rw [hq, List.map_append] at hring
  exact hring.next_at

theorem Represents.next_head (h : l.Represents r) (q : κ) :
    l.next (.head q) = place q (r.que q) :=
  (h.ring q).next_first

theorem insertIdx_append (x : ν) : (pre ++ post).insertIdx pre.length x = pre ++ x :: post := by
  induction pre with
  | nil => rfl
  | cons y pre ih => rw [List.cons_append, List.length_cons, List.insertIdx_succ_cons, ih]; rfl

variable [DecidableEq κ] [DecidableEq ν]

theorem Represents.init (wf : r.WF) (h : l.Represents r) (hx : r.Free x) :
    (l.init x).Represents (r.selfLink x) := by
  have hque : (r.selfLink x).que = r.que := by
    unfold Rings.selfLink
    split <;> rfl
  refine ⟨fun q => ?_, fun y hy => ?_⟩
  · rw [hque]
    have hnot : .node x ∉ r.nodes q := Rings.node_notMem_nodes wf (hx q)
    have hne : ∀ a ∈ r.nodes q, a ≠ .node x := fun a ha he => hnot (he ▸ ha)
    refine (h.ring q).congr (fun a ha => ?_) fun a ha => ?_
    · exact Function.update_of_ne (hne a ha) _ _
    · exact Function.update_of_ne (hne a ha) _ _
  · by_cases hyx : y = x
    · rw [hyx]
      exact Function.update_self _ _ _
    · rw [Rings.link_selfLink_ne hyx] at hy
      have hne : (RingNode.node y : RingNode κ ν) ≠ .node x := fun he => hyx (by injection he)
      exact (Function.update_of_ne hne _ _).trans (h.self y hy)

theorem Represents.insert (wf : r.WF) (h : l.Represents r) (hx : r.Free x)
    (hq : r.que q = pre ++ post) :
    (l.insert x (place q post)).Represents (r.insertAt q pre.length x) := by
  have hlink := Rings.link_insertAt (q := q) (i := pre.length) hx
  have hque := Rings.que_insertAt (q := q) (i := pre.length) hx
  have hnot : ∀ p, .node x ∉ r.nodes p := fun p => Rings.node_notMem_nodes wf (hx p)
  have hplace : place q post ∈ r.nodes q := place_mem hq
  have hlast := last_mem hq
  have hprev : l.prev (place q post) = last q pre := by
    have hring := h.ring q
    rw [hq, List.map_append] at hring
    cases post with
    | nil =>
      rw [List.map_nil, List.append_nil] at hring
      exact hring.prev_last
    | cons y post => exact hring.prev_at
  have hpx : place q post ≠ .node x := fun he => hnot q (he ▸ hplace)
  have hlx : last q pre ≠ .node x := fun he => hnot q (he ▸ hlast)
  have hnext' : (l.insert x (place q post)).next =
      Function.update (Function.update l.next (.node x) (place q post))
        (last q pre) (.node x) := by
    simp [RingLinks.insert, Function.update_of_ne hpx, hprev]
  have hprev' : (l.insert x (place q post)).prev =
      Function.update (Function.update l.prev (.node x) (last q pre))
        (place q post) (.node x) := by
    simp [RingLinks.insert, hprev]
  refine ⟨fun p => ?_, fun y hy => ?_⟩
  · rw [hque, hnext', hprev']
    by_cases hp : p = q
    · subst p
      rw [Function.update_self, hq, insertIdx_append, List.map_append, List.map_cons]
      have hring := h.ring q
      have hnd := wf.nodup_nodes q
      have hfresh := hnot q
      unfold Rings.nodes at hnd hfresh
      rw [hq, List.map_append] at hring hnd hfresh
      refine hring.insert hnd hfresh (fun a h1 h2 => ?_) (fun a h1 h2 => ?_) ?_ ?_ ?_ ?_
      · rw [Function.update_of_ne (show a ≠ last q pre from h1), Function.update_of_ne h2]
      · rw [Function.update_of_ne (show a ≠ place q post from h1), Function.update_of_ne h2]
      · exact Function.update_self _ _ _
      · rw [Function.update_of_ne hlx.symm, Function.update_self]
        rfl
      · rw [Function.update_of_ne hpx.symm, Function.update_self]
        rfl
      · exact Function.update_self _ _ _
    · rw [Function.update_of_ne hp]
      have hne : ∀ a ∈ r.nodes p, a ≠ .node x := fun a ha he => hnot p (he ▸ ha)
      refine (h.ring p).congr (fun a ha => ?_) fun a ha => ?_
      · have hal : a ≠ last q pre := fun he =>
          wf.nodes_disjoint hp hlast (he ▸ ha)
        rw [Function.update_of_ne hal, Function.update_of_ne (hne a ha)]
      · have hap : a ≠ place q post := fun he => wf.nodes_disjoint hp hplace (he ▸ ha)
        rw [Function.update_of_ne hap, Function.update_of_ne (hne a ha)]
  · rw [hlink] at hy
    have hyx : y ≠ x := by
      rintro rfl
      rw [Function.update_self] at hy
      cases hy
    rw [Function.update_of_ne hyx] at hy
    have hself : ∀ a, a ∈ r.nodes q → (RingNode.node y : RingNode κ ν) ≠ a := by
      rintro a ha rfl
      exact Rings.node_notMem_nodes wf (by rw [hy]; simp) ha
    have hne : (RingNode.node y : RingNode κ ν) ≠ .node x := fun he => hyx (by injection he)
    rw [hnext', Function.update_of_ne (hself _ hlast), Function.update_of_ne hne]
    exact h.self y hy

theorem Represents.remove (wf : r.WF) (h : l.Represents r) (hx : r.link x ≠ .loose) :
    (l.remove x).Represents (r.remove x) := by
  cases hl : r.link x with
  | loose => exact absurd hl hx
  | selfRing =>
    have hrem : r.remove x = r := by
      unfold Rings.remove
      rw [hl]
    have hsame : l.remove x = l := by
      unfold RingLinks.remove
      rw [if_neg (not_not.2 (h.self x hl))]
    rw [hrem, hsame]
    exact h
  | member q =>
    obtain ⟨pre, post, hq⟩ := List.append_of_mem ((wf.mem_iff x q).2 hl)
    have hring := h.ring q
    have hnd := wf.nodup_nodes q
    unfold Rings.nodes at hnd
    rw [hq, List.map_append, List.map_cons] at hring hnd
    have hnext : l.next (.node x) = place q post := hring.next_at
    have hprev : l.prev (.node x) = last q pre := hring.prev_at
    have hxpre : x ∉ pre := by
      have hnodup := wf.nodup q
      rw [hq] at hnodup
      exact fun hm => (List.nodup_append.1 hnodup).2.2 x hm x List.mem_cons_self rfl
    have hxpost : x ∉ post := by
      have hnodup := wf.nodup q
      rw [hq] at hnodup
      exact (List.nodup_cons.1 (List.nodup_append.1 hnodup).2.1).1
    have hpx : place q post ≠ .node x := by
      cases post with
      | nil => exact fun he => nomatch he
      | cons y post =>
        intro he
        injection he with he
        exact hxpost (he ▸ List.mem_cons_self)
    have hlx : last q pre ≠ .node x := by
      rcases last_eq_or_mem q pre with he | ⟨y, hy, he⟩
      · rw [he]
        exact fun hn => nomatch hn
      · rw [he]
        intro hn
        injection hn with hn
        exact hxpre (hn ▸ hy)
    have hplace : place q post ∈ r.nodes q := by
      have hq' : r.que q = (pre ++ [x]) ++ post := by simp [hq]
      exact place_mem hq'
    have hlast := last_mem hq
    have hnext' : (l.remove x).next =
        Function.update l.next (last q pre) (place q post) := by
      unfold RingLinks.remove
      rw [hnext, if_pos hpx, hprev]
      rfl
    have hprev' : (l.remove x).prev =
        Function.update l.prev (place q post) (last q pre) := by
      unfold RingLinks.remove
      rw [hnext, if_pos hpx, hprev]
      simp [Function.update_of_ne hlx.symm, hnext, hprev]
    have hque := Rings.que_remove_of_member hl
    refine ⟨fun p => ?_, fun y hy => ?_⟩
    · rw [hque, hnext', hprev']
      by_cases hp : p = q
      · subst p
        have herase : (r.que q).erase x = pre ++ post := by
          rw [hq, List.erase_append_right _ hxpre, List.erase_cons_head]
        rw [Function.update_self, herase, List.map_append]
        refine hring.remove hnd (fun a _ h1 => ?_) (fun a _ h1 => ?_) ?_ ?_
        · exact Function.update_of_ne h1 _ _
        · exact Function.update_of_ne h1 _ _
        · exact Function.update_self _ _ _
        · exact Function.update_self _ _ _
      · rw [Function.update_of_ne hp]
        refine (h.ring p).congr (fun a ha => ?_) fun a ha => ?_
        · have hal : a ≠ last q pre := fun he => wf.nodes_disjoint hp hlast (he ▸ ha)
          exact Function.update_of_ne hal _ _
        · have hap : a ≠ place q post := fun he => wf.nodes_disjoint hp hplace (he ▸ ha)
          exact Function.update_of_ne hap _ _
    · have hyx : y ≠ x := by
        rintro rfl
        exact absurd hy (by simp [Rings.remove, hl])
      rw [Rings.link_remove_ne hyx] at hy
      have hself : (RingNode.node y : RingNode κ ν) ≠ last q pre := by
        intro he
        exact Rings.node_notMem_nodes wf (by rw [hy]; simp) (he ▸ hlast)
      rw [hnext', Function.update_of_ne hself]
      exact h.self y hy

theorem Represents.removeNext_nil (h : l.Represents r) (hq : r.que q = []) :
    l.removeNext q = (l, none) := by
  have hnext := h.next_head q
  unfold removeNext
  rw [hnext, hq]
  rfl

theorem Represents.removeNext_cons (wf : r.WF) (h : l.Represents r) (hq : r.que q = x :: post) :
    l.removeNext q = (l.remove x, some x) := by
  have hring := h.ring q
  have hnext := h.next_head q
  have hnode : l.next (.node x) = place q post := h.next_node (show r.que q = [] ++ x :: post from hq)
  rw [hq] at hring hnext
  have hprev : l.prev (.node x) = .head q := hring.prev_first
  have hne : place q post ≠ .node x := by
    have hnd := wf.nodup q
    rw [hq] at hnd
    cases post with
    | nil => exact fun he => nomatch he
    | cons y post =>
      intro he
      injection he with he
      exact (List.nodup_cons.1 hnd).1 (he ▸ List.mem_cons_self)
  have hnext' : l.next (.head q) = .node x := hnext
  unfold removeNext RingLinks.remove
  rw [hnext', hnode, if_pos hne]
  simp [hprev, hnode]

end RingLinks
