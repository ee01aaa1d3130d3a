import Mtk3Smp.Mem.Queue
import Mathlib.Data.List.Pairwise
import Mathlib.Data.List.Perm.Lattice

/-!
# The free queue

`FreeRep m fq cs`: the free queue `fq` of the memory `m` holds the classes `cs`. A class is one
node of the ring in size order; the areas of the same size hang on it as a chain through their
second cells, whose first link stores the size.
-/

namespace Mtk3Smp

open DList Qmem

/-- The free areas of one size: the one in the ring and those chained to it. -/
structure Cls where
  size : Nat
  head : Nat
  tail : List Nat

def Cls.blks (c : Cls) : List Nat := c.head :: c.tail

/-- The free areas with their sizes. -/
def freePairs (cs : List Cls) : List (Nat × Nat) := cs.flatMap fun c => c.blks.map fun q => (q, c.size)

/-- The same-size chain behind the cell `p`. -/
def Chain (m : Qmem) : Nat → List Nat → Prop
  | p, [] => m.next p = NULL
  | p, q :: rest =>
    m.next p = q + QUEUESZ ∧ m.prev (q + QUEUESZ) = p ∧ m.next q = NULL ∧ Chain m (q + QUEUESZ) rest

def ClsRep (m : Qmem) (c : Cls) : Prop :=
  m.prev (c.head + QUEUESZ) = c.size ∧ Chain m (c.head + QUEUESZ) c.tail

/-- The two cells of one area are none of the other's. -/
def Apart (q q' : Nat) : Prop := q ≠ q' ∧ q + QUEUESZ ≠ q' ∧ q ≠ q' + QUEUESZ

theorem Apart.symm {q q' : Nat} (h : Apart q q') : Apart q' q :=
  ⟨h.1.symm, fun he => h.2.2 he.symm, fun he => h.2.1 he.symm⟩

instance : Std.Symm Apart := ⟨fun _ _ h => h.symm⟩

structure FreeRep (m : Qmem) (fq : Nat) (cs : List Cls) : Prop where
  ring : DList.Ring m.next m.prev fq (cs.map Cls.head)
  cls : ∀ c ∈ cs, ClsRep m c
  sorted : cs.Pairwise fun c d => c.size < d.size
  apart : ((freePairs cs).map Prod.fst).Pairwise Apart
  off : ∀ p ∈ freePairs cs, p.1 ≠ fq ∧ p.1 + QUEUESZ ≠ fq ∧ p.1 ≠ NULL
  fq_ne : fq ≠ NULL

/-- The cells of the free queue. -/
def FreeCell (fq : Nat) (cs : List Cls) (a : Nat) : Prop :=
  a = fq ∨ ∃ p ∈ freePairs cs, a = p.1 ∨ a = p.1 + QUEUESZ

/-- The cells outside `S` are unchanged. -/
def SameOff (S : Nat → Prop) (m m' : Qmem) : Prop :=
  ∀ a, ¬ S a → m'.next a = m.next a ∧ m'.prev a = m.prev a

section

variable {m m' : Qmem} {fq p q size : Nat} {cs l r : List Cls} {c : Cls} {t t₁ t₂ : List Nat}

theorem SameOff.trans {S T : Nat → Prop} {m₁ m₂ m₃ : Qmem} (h₁ : SameOff S m₁ m₂)
    (h₂ : SameOff T m₂ m₃) : SameOff (fun a => S a ∨ T a) m₁ m₃ := fun a ha => by
  have h1 := h₁ a fun hs => ha (.inl hs)
  have h2 := h₂ a fun hs => ha (.inr hs)
  exact ⟨h2.1.trans h1.1, h2.2.trans h1.2⟩

theorem SameOff.mono {S T : Nat → Prop} (h : SameOff S m m') (hs : ∀ a, S a → T a) :
    SameOff T m m' := fun a ha => h a fun hsa => ha (hs a hsa)

/-! ## Frames -/

theorem Chain.congr (h : Chain m p t) (hp : m'.next p = m.next p)
    (ht : ∀ q ∈ t, m'.next q = m.next q ∧ m'.next (q + QUEUESZ) = m.next (q + QUEUESZ) ∧
      m'.prev (q + QUEUESZ) = m.prev (q + QUEUESZ)) : Chain m' p t := by
  induction t generalizing p with
  | nil => exact hp.trans h
  | cons q rest ih =>
    obtain ⟨h1, h2, h3, h4⟩ := h
    obtain ⟨e1, e2, e3⟩ := ht q List.mem_cons_self
    exact ⟨hp.trans h1, e3.trans h2, e1.trans h3,
      ih h4 e2 fun x hx => ht x (List.mem_cons_of_mem _ hx)⟩

theorem ClsRep.congr (h : ClsRep m c)
    (hc : ∀ q ∈ c.blks, (q ∈ c.tail → m'.next q = m.next q) ∧
      m'.next (q + QUEUESZ) = m.next (q + QUEUESZ) ∧
      m'.prev (q + QUEUESZ) = m.prev (q + QUEUESZ)) : ClsRep m' c := by
  obtain ⟨-, e1, e2⟩ := hc c.head List.mem_cons_self
  refine ⟨e2.trans h.1, h.2.congr e1 fun q hq => ?_⟩
  obtain ⟨e0, e1, e2⟩ := hc q (List.mem_cons_of_mem _ hq)
  exact ⟨e0 hq, e1, e2⟩

theorem mem_freePairs {x : Nat × Nat} :
    x ∈ freePairs cs ↔ ∃ c ∈ cs, x.1 ∈ c.blks ∧ x.2 = c.size := by
  simp only [freePairs, List.mem_flatMap, List.mem_map]
  constructor
  · rintro ⟨c, hc, q, hq, rfl⟩
    exact ⟨c, hc, hq, rfl⟩
  · rintro ⟨c, hc, hq, hs⟩
    exact ⟨c, hc, x.1, hq, by rw [← hs]⟩

theorem freePairs_append : freePairs (l ++ r) = freePairs l ++ freePairs r := by
  simp [freePairs]

theorem freePairs_cons : freePairs (c :: r) = c.blks.map (fun q => (q, c.size)) ++ freePairs r := by
  simp [freePairs]

theorem head_mem_pairs (hc : c ∈ cs) : (c.head, c.size) ∈ freePairs cs :=
  mem_freePairs.2 ⟨c, hc, List.mem_cons_self, rfl⟩

theorem blk_mem_pairs (hc : c ∈ cs) (hq : q ∈ c.blks) : (q, c.size) ∈ freePairs cs :=
  mem_freePairs.2 ⟨c, hc, hq, rfl⟩

/-- A change outside the cells of the free queue. -/
theorem FreeRep.congr (h : FreeRep m fq cs)
    (hs : ∀ a, FreeCell fq cs a → m'.next a = m.next a ∧ m'.prev a = m.prev a) :
    FreeRep m' fq cs := by
  have hblk : ∀ c ∈ cs, ∀ q ∈ c.blks, FreeCell fq cs q ∧ FreeCell fq cs (q + QUEUESZ) :=
    fun c hc q hq => ⟨.inr ⟨_, blk_mem_pairs hc hq, .inl rfl⟩, .inr ⟨_, blk_mem_pairs hc hq, .inr rfl⟩⟩
  have hring : ∀ a ∈ fq :: cs.map Cls.head, FreeCell fq cs a := by
    intro a ha
    rcases List.mem_cons.1 ha with rfl | ha
    · exact .inl rfl
    · obtain ⟨c, hc, rfl⟩ := List.mem_map.1 ha
      exact (hblk c hc c.head List.mem_cons_self).1
  refine { h with ring := ?_, cls := ?_ }
  · exact h.ring.congr (fun a ha => (hs a (hring a ha)).1) fun a ha => (hs a (hring a ha)).2
  · intro c hc
    refine (h.cls c hc).congr fun q hq => ?_
    obtain ⟨h1, h2⟩ := hblk c hc q hq
    exact ⟨fun _ => (hs q h1).1, (hs _ h2).1, (hs _ h2).2⟩

/-! ## Consequences of the layout -/

theorem apart_ne_add {q q' : Nat} (h : Apart q q' ∨ q = q') : q + QUEUESZ ≠ q' := by
  rcases h with h | rfl
  · exact h.2.1
  · unfold QUEUESZ
    omega

theorem FreeRep.apart_of_mem (h : FreeRep m fq cs) {x y : Nat × Nat} (hx : x ∈ freePairs cs)
    (hy : y ∈ freePairs cs) : Apart x.1 y.1 ∨ x.1 = y.1 := by
  by_cases he : x.1 = y.1
  · exact .inr he
  · have := h.apart.forall (List.mem_map_of_mem hx) (List.mem_map_of_mem hy) he
    exact .inl this

theorem heads_sublist (cs : List Cls) :
    (cs.map Cls.head).Sublist ((freePairs cs).map Prod.fst) := by
  induction cs with
  | nil => exact List.Sublist.slnil
  | cons c rest ih =>
    rw [freePairs_cons, List.map_append, List.map_cons]
    have : c.blks.map (fun q => (q, c.size)) = (c.head, c.size) :: c.tail.map fun q => (q, c.size) :=
      rfl
    rw [this, List.map_cons, List.cons_append]
    refine List.Sublist.cons_cons _ (ih.trans ?_)
    exact List.sublist_append_right _ _

theorem FreeRep.ring_nodup (h : FreeRep m fq cs) : (fq :: cs.map Cls.head).Nodup := by
  rw [List.nodup_cons]
  constructor
  · intro hm
    obtain ⟨c, hc, hfq⟩ := List.mem_map.1 hm
    exact (h.off _ (head_mem_pairs hc)).1 hfq
  · exact (h.apart.sublist (heads_sublist cs)).imp fun hab => hab.1

/-- The second cells of the areas are not in the ring, nor are the first ones of a chain. -/
theorem FreeRep.not_ring (h : FreeRep m fq cs) {a : Nat} (ha : a ∈ fq :: cs.map Cls.head)
    (hc : c ∈ cs) (hq : q ∈ c.blks) : q + QUEUESZ ≠ a := by
  have hm := blk_mem_pairs hc hq
  rcases List.mem_cons.1 ha with rfl | ha
  · exact (h.off _ hm).2.1
  · obtain ⟨d, hd, rfl⟩ := List.mem_map.1 ha
    exact apart_ne_add (h.apart_of_mem hm (head_mem_pairs hd))

/-- One class apart from the others. -/
theorem FreeRep.apart_split (h : FreeRep m fq (l ++ c :: r)) :
    c.blks.Pairwise Apart ∧ ∀ d ∈ l ++ r, ∀ x ∈ d.blks, ∀ q ∈ c.blks, Apart x q := by
  have apart := h.apart
  have hblks : (c.blks.map fun q => (q, c.size)).map Prod.fst = c.blks := by
    simp [Function.comp_def]
  have hmem : ∀ (ds : List Cls), ∀ d ∈ ds, ∀ x ∈ d.blks, x ∈ (freePairs ds).map Prod.fst :=
    fun ds d hd x hx => List.mem_map_of_mem (f := Prod.fst) (blk_mem_pairs hd hx)
  rw [freePairs_append, freePairs_cons, List.map_append, List.map_append, hblks,
    List.pairwise_append, List.pairwise_append] at apart
  obtain ⟨-, ⟨hc, -, hright⟩, hleft⟩ := apart
  refine ⟨hc, fun d hd x hx q hq => ?_⟩
  rcases List.mem_append.1 hd with hd | hd
  · exact hleft x (hmem l d hd x hx) q (List.mem_append_left _ hq)
  · exact (hright q hq x (hmem r d hd x hx)).symm

theorem FreeRep.tail_not_head (h : FreeRep m fq cs) {a : Nat} (ha : a ∈ fq :: cs.map Cls.head)
    (hc : c ∈ cs) (hq : q ∈ c.tail) : q ≠ a := by
  have hm := blk_mem_pairs hc (List.mem_cons_of_mem _ hq)
  rcases List.mem_cons.1 ha with rfl | ha
  · exact (h.off _ hm).1
  · obtain ⟨d, hd, rfl⟩ := List.mem_map.1 ha
    obtain ⟨l, r, rfl⟩ := List.append_of_mem hc
    obtain ⟨hown, hother⟩ := h.apart_split
    have hmem : d = c ∨ d ∈ l ++ r := by
      simp only [List.mem_append, List.mem_cons] at hd ⊢
      tauto
    rcases hmem with rfl | hd
    · exact ((List.pairwise_cons.1 hown).1 q hq).1.symm
    · exact (hother d hd d.head List.mem_cons_self q (List.mem_cons_of_mem _ hq)).1.symm

/-- Rewriting links of the ring leaves the chains alone. -/
theorem FreeRep.cls_of_ring (h : FreeRep m fq cs) (hc : c ∈ cs)
    (hn : ∀ a, a ∉ fq :: cs.map Cls.head → m'.next a = m.next a)
    (hp : ∀ a, a ∉ fq :: cs.map Cls.head → m'.prev a = m.prev a) : ClsRep m' c := by
  refine (h.cls c hc).congr fun q hq => ?_
  have h2 : q + QUEUESZ ∉ fq :: cs.map Cls.head := fun hm => h.not_ring hm hc hq rfl
  refine ⟨fun hqt => hn q fun hm => h.tail_not_head hm hc hqt rfl, hn _ h2, hp _ h2⟩

/-! ## QueInsert and QueRemove on a ring -/

section

variable {h e : Nat} {xs ys : List Nat}

theorem first_mem (h : Nat) (xs ys : List Nat) : ys.headD h ∈ h :: (xs ++ ys) := by
  rcases List.mem_cons.1 (headD_mem h ys) with hq | hq
  · rw [hq]
    exact List.mem_cons_self
  · exact List.mem_cons_of_mem _ (List.mem_append_right _ hq)

theorem last_mem (h : Nat) (xs ys : List Nat) : xs.getLastD h ∈ h :: (xs ++ ys) := by
  rcases List.mem_cons.1 (getLastD_mem h xs) with hq | hq
  · rw [hq]
    exact List.mem_cons_self
  · exact List.mem_cons_of_mem _ (List.mem_append_left _ hq)

/-- The node before the seam of two parts of a ring. -/
theorem prev_seam (ring : DList.Ring m.next m.prev h (xs ++ ys)) :
    m.prev (ys.headD h) = xs.getLastD h := by
  cases ys with
  | nil =>
    rw [List.append_nil] at ring
    exact ring.prev_last
  | cons y ys => exact ring.prev_at

theorem queInsert_eq (hne : e ≠ q) : m.queInsert e q =
    ⟨Function.update (Function.update m.next e q) (m.prev q) e,
      Function.update (Function.update m.prev e (m.prev q)) q e⟩ := by
  simp [queInsert, setNext, setPrev, Function.update_of_ne hne.symm]

theorem queRemove_eq (h1 : m.next e ≠ e) (h2 : m.prev e ≠ e) : m.queRemove e =
    ⟨Function.update m.next (m.prev e) (m.next e), Function.update m.prev (m.next e) (m.prev e)⟩ := by
  simp [queRemove, setNext, setPrev, h1, Function.update_of_ne h2.symm]

theorem queInsert_ring (ys : List Nat) (ring : DList.Ring m.next m.prev h (xs ++ ys)) (nodup : (h :: (xs ++ ys)).Nodup)
    (fresh : e ∉ h :: (xs ++ ys)) :
    DList.Ring (m.queInsert e (ys.headD h)).next (m.queInsert e (ys.headD h)).prev h (xs ++ e :: ys) := by
  have hq : e ≠ ys.headD h := fun he => fresh (he ▸ first_mem h xs ys)
  have hp : e ≠ xs.getLastD h := fun he => fresh (he ▸ last_mem h xs ys)
  rw [queInsert_eq hq, prev_seam ring]
  refine ring.insert nodup fresh ?_ ?_ ?_ ?_ ?_ ?_
  · intro a ha hae
    simp only [Function.update_of_ne ha, Function.update_of_ne hae]
  · intro a ha hae
    simp only [Function.update_of_ne ha, Function.update_of_ne hae]
  · simp only [Function.update_self]
  · simp only [Function.update_of_ne hp, Function.update_self]
  · simp only [Function.update_of_ne hq, Function.update_self]
  · simp only [Function.update_self]

theorem queInsert_off (ys : List Nat) (ring : DList.Ring m.next m.prev h (xs ++ ys)) (fresh : e ∉ h :: (xs ++ ys)) :
    SameOff (fun a => a = e ∨ a ∈ h :: (xs ++ ys)) m (m.queInsert e (ys.headD h)) := by
  have hq : e ≠ ys.headD h := fun he => fresh (he ▸ first_mem h xs ys)
  intro a ha
  rw [not_or] at ha
  have h1 : a ≠ xs.getLastD h := fun he => ha.2 (he ▸ last_mem h xs ys)
  have h2 : a ≠ ys.headD h := fun he => ha.2 (he ▸ first_mem h xs ys)
  rw [queInsert_eq hq, prev_seam ring]
  simp only [Function.update_of_ne h1, Function.update_of_ne h2, Function.update_of_ne ha.1,
    and_self]

theorem ring_neighbours (ring : DList.Ring m.next m.prev h (xs ++ e :: ys))
    (nodup : (h :: (xs ++ e :: ys)).Nodup) :
    m.next e = ys.headD h ∧ m.prev e = xs.getLastD h ∧ m.next e ≠ e ∧ m.prev e ≠ e := by
  have hn := ring.next_at
  have hp := ring.prev_at
  rw [← List.cons_append] at nodup
  obtain ⟨-, hy, hdis⟩ := List.nodup_append.1 nodup
  refine ⟨hn, hp, ?_, ?_⟩
  · rw [hn]
    rcases List.mem_cons.1 (headD_mem h ys) with hq | hq
    · rw [hq]
      exact hdis h List.mem_cons_self e List.mem_cons_self
    · intro he
      exact (List.nodup_cons.1 hy).1 (he ▸ hq)
  · rw [hp]
    exact hdis _ (getLastD_mem h xs) e List.mem_cons_self

theorem queRemove_ring (ring : DList.Ring m.next m.prev h (xs ++ e :: ys))
    (nodup : (h :: (xs ++ e :: ys)).Nodup) :
    DList.Ring (m.queRemove e).next (m.queRemove e).prev h (xs ++ ys) := by
  obtain ⟨hn, hp, hne, hpe⟩ := ring_neighbours ring nodup
  rw [queRemove_eq hne hpe, hn, hp]
  refine ring.remove nodup ?_ ?_ ?_ ?_
  · exact fun a _ ha => Function.update_of_ne ha _ _
  · exact fun a _ ha => Function.update_of_ne ha _ _
  · simp only [Function.update_self]
  · simp only [Function.update_self]

theorem queRemove_off (ring : DList.Ring m.next m.prev h (xs ++ e :: ys))
    (nodup : (h :: (xs ++ e :: ys)).Nodup) :
    SameOff (· ∈ h :: (xs ++ ys)) m (m.queRemove e) := by
  obtain ⟨hn, hp, hne, hpe⟩ := ring_neighbours ring nodup
  intro a ha
  have h1 : a ≠ xs.getLastD h := fun he => ha (he ▸ last_mem h xs ys)
  have h2 : a ≠ ys.headD h := fun he => ha (he ▸ first_mem h xs ys)
  rw [queRemove_eq hne hpe, hn, hp]
  exact ⟨Function.update_of_ne h1 _ _, Function.update_of_ne h2 _ _⟩

end

end

/-! ## The search -/

section

variable {m : Qmem} {c : Imacb} {cs l r : List Cls} {blksz : Nat}

/-- The first class with areas of at least `blksz` bytes, or the head of the free queue. -/
def searchResult (fq blksz : Nat) (cs : List Cls) : Nat :=
  ((cs.dropWhile fun c => c.size < blksz).map Cls.head).headD fq

theorem FreeRep.next_seam (h : FreeRep m c.freeque (l ++ r)) :
    m.next ((l.map Cls.head).getLastD c.freeque) = (r.map Cls.head).headD c.freeque := by
  have ring := h.ring
  rw [List.map_append] at ring
  cases r with
  | nil =>
    rw [List.map_nil, List.append_nil] at ring
    exact ring.next_last
  | cons d r => exact (seg_append.1 ring).1.next_last

theorem FreeRep.prev_seam (h : FreeRep m c.freeque (l ++ r)) :
    m.prev ((r.map Cls.head).headD c.freeque) = (l.map Cls.head).getLastD c.freeque := by
  have ring := h.ring
  rw [List.map_append] at ring
  exact Mtk3Smp.prev_seam ring

theorem FreeRep.head_ne (h : FreeRep m c.freeque cs) {d : Cls} (hd : d ∈ cs) :
    d.head ≠ c.freeque := (h.off _ (head_mem_pairs hd)).1

theorem dropWhile_all {l r : List Cls} (hl : ∀ d ∈ l, d.size < blksz) :
    (l ++ r).dropWhile (fun d => d.size < blksz) = r.dropWhile fun d => d.size < blksz := by
  induction l with
  | nil => rfl
  | cons d l ih =>
    have hd := hl d List.mem_cons_self
    rw [List.cons_append, List.dropWhile_cons_of_pos (by simpa using hd)]
    exact ih fun x hx => hl x (List.mem_cons_of_mem _ hx)

theorem dropWhile_none {r : List Cls} (hr : ∀ d ∈ r, blksz ≤ d.size) :
    r.dropWhile (fun d => d.size < blksz) = r := by
  cases r with
  | nil => rfl
  | cons d r =>
    have hd := hr d List.mem_cons_self
    rw [List.dropWhile_cons_of_neg (by simpa using hd)]

theorem searchUp_eq {blksz : Nat} (fuel : Nat) (h : FreeRep m c.freeque (l ++ r)) (hf : r.length < fuel)
    (hl : ∀ d ∈ l, d.size < blksz) :
    m.searchUp c blksz fuel ((l.map Cls.head).getLastD c.freeque) =
      searchResult c.freeque blksz (l ++ r) := by
  induction fuel generalizing l r with
  | zero => cases hf
  | succ fuel ih =>
    rw [searchResult, dropWhile_all hl]
    unfold searchUp
    dsimp only
    rw [h.next_seam]
    cases r with
    | nil => exact if_pos rfl
    | cons d r =>
      have hd : d ∈ l ++ d :: r := by simp
      have hsize : m.freeSize d.head = d.size := (h.cls d hd).1
      rw [List.map_cons, List.headD_cons, if_neg (h.head_ne hd), hsize]
      by_cases big : blksz ≤ d.size
      · rw [if_pos big, List.dropWhile_cons_of_neg (by simpa using big)]
        rfl
      · rw [if_neg big]
        have hstep := ih (l := l ++ [d]) (r := r) (by simpa using h)
          (by simpa using hf) (fun x hx => ?_)
        · rw [searchResult, List.append_assoc, dropWhile_all hl] at hstep
          rw [List.map_append, List.map_cons, List.map_nil, List.getLastD_concat] at hstep
          exact hstep
        · rcases List.mem_append.1 hx with hx | hx
          · exact hl x hx
          · rw [List.mem_singleton.1 hx]
            omega

theorem searchDown_eq (fuel : Nat) (hpos : 0 < blksz) (h : FreeRep m c.freeque (l ++ r))
    (hf : l.length < fuel) (hr : ∀ d ∈ r, blksz < d.size) :
    m.searchDown c blksz fuel ((r.map Cls.head).headD c.freeque) ((r.map Cls.size).headD 0) =
      searchResult c.freeque blksz (l ++ r) := by
  induction fuel generalizing l r with
  | zero => cases hf
  | succ fuel ih =>
    unfold searchDown
    dsimp only
    rw [h.prev_seam]
    rcases List.eq_nil_or_concat' l with rfl | ⟨l, d, rfl⟩
    · rw [List.map_nil, List.getLastD_nil, if_pos rfl, searchResult, List.nil_append,
        dropWhile_none fun d hd => Nat.le_of_lt (hr d hd)]
      cases r with
      | nil => exact if_neg (Nat.not_le_of_lt hpos)
      | cons d r =>
        have hd := hr d List.mem_cons_self
        rw [if_pos (by simpa using Nat.le_of_lt hd)]
        exact h.next_seam (l := [])
    · have hd : d ∈ (l ++ [d]) ++ r := by simp
      have hsize : m.freeSize d.head = d.size := (h.cls d hd).1
      rw [List.map_append, List.map_cons, List.map_nil, List.getLastD_concat,
        if_neg (h.head_ne hd), hsize]
      have sorted := h.sorted
      rw [List.append_assoc, List.pairwise_append] at sorted
      have hbefore : ∀ x ∈ l, x.size < d.size := fun x hx => sorted.2.2 x hx d (by simp)
      by_cases small : d.size ≤ blksz
      · rw [if_pos small, searchResult]
        have hl : ∀ x ∈ l, x.size < blksz := fun x hx => Nat.lt_of_lt_of_le (hbefore x hx) small
        by_cases less : d.size < blksz
        · rw [if_pos less, dropWhile_all, dropWhile_none fun x hx => Nat.le_of_lt (hr x hx)]
          · have := h.next_seam
            rwa [List.map_append, List.map_cons, List.map_nil, List.getLastD_concat] at this
          · intro x hx
            rcases List.mem_append.1 hx with hx | hx
            · exact hl x hx
            · rw [List.mem_singleton.1 hx]
              exact less
        · rw [if_neg less, List.append_assoc, dropWhile_all hl, List.singleton_append,
            List.dropWhile_cons_of_neg (by simpa using less)]
          rfl
      · rw [if_neg small]
        have hstep := ih (l := l) (r := d :: r) (by simpa using h) ?_ ?_
        · rw [List.append_assoc]
          exact hstep
        · rw [List.length_append, List.length_singleton] at hf
          omega
        · intro x hx
          rcases List.mem_cons.1 hx with rfl | hx
          · omega
          · exact hr x hx

theorem knlSearchFreeArea_eq (h : FreeRep m c.freeque cs) (hf : cs.length ≤ c.memsz)
    (hpos : 0 < blksz) : m.knlSearchFreeArea c blksz = searchResult c.freeque blksz cs := by
  unfold knlSearchFreeArea
  split
  · have := searchDown_eq (l := cs) (r := []) (c.memsz + 1) hpos (by simpa using h)
      (by omega) (by simp)
    rwa [List.append_nil] at this
  · exact searchUp_eq (l := []) (r := cs) (c.memsz + 1) h (by omega) (by simp)

end

end Mtk3Smp
