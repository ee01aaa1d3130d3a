import Mtk3Smp.Mem.FreeQue
import Mathlib.Data.List.TakeWhile

/-!
# Updates of the free queue

`knl_removeFreeQue` takes an area out, from the head or the middle of its chain, and the
registration puts one in; the representation is kept in each case.
-/

namespace Mtk3Smp

open DList Qmem

section

variable {m m' : Qmem} {fq h q q' sz size : Nat} {cs l r : List Cls} {c d : Cls} {t t₁ t₂ : List Nat}

/-! ## Chains -/

theorem Chain.at (hc : Chain m (h + QUEUESZ) (t₁ ++ q :: t₂)) :
    m.next q = NULL ∧ m.prev (q + QUEUESZ) = t₁.getLastD h + QUEUESZ ∧
      Chain m (q + QUEUESZ) t₂ := by
  induction t₁ generalizing h with
  | nil => exact ⟨hc.2.2.1, hc.2.1, hc.2.2.2⟩
  | cons y t₁ ih =>
    rw [List.getLastD_cons]
    exact ih hc.2.2.2

theorem ne_add (q : Nat) : q ≠ q + QUEUESZ := by
  unfold QUEUESZ
  omega

theorem add_ne {q q' : Nat} (h : q ≠ q') : q + QUEUESZ ≠ q' + QUEUESZ := fun he =>
  h (Nat.add_right_cancel he)

/-- `q` is unlinked from a chain. -/
theorem Chain.unlink (hc : Chain m (h + QUEUESZ) (t₁ ++ q :: t₂))
    (apart : (h :: (t₁ ++ q :: t₂)).Pairwise Apart)
    (hn : ∀ a, a ≠ t₁.getLastD h + QUEUESZ → m'.next a = m.next a)
    (hn1 : m'.next (t₁.getLastD h + QUEUESZ) = m.next (q + QUEUESZ))
    (hp : ∀ a, (∀ x ∈ t₂.head?, a ≠ x + QUEUESZ) → m'.prev a = m.prev a)
    (hp1 : ∀ x ∈ t₂.head?, m'.prev (x + QUEUESZ) = t₁.getLastD h + QUEUESZ) :
    Chain m' (h + QUEUESZ) (t₁ ++ t₂) := by
  induction t₁ generalizing h with
  | nil =>
    obtain ⟨-, -, -, hrest⟩ := hc
    rw [List.nil_append] at apart ⊢
    rw [List.getLastD_nil] at hn hn1 hp1
    obtain ⟨hh, hq⟩ := List.pairwise_cons.1 apart
    cases t₂ with
    | nil => exact hn1.trans hrest
    | cons x rest =>
      obtain ⟨h1, h2, h3, h4⟩ := hrest
      have hx := hh x (by simp)
      have hxr := (List.pairwise_cons.1 (List.pairwise_cons.1 hq).2).1
      refine ⟨hn1.trans h1, hp1 x rfl, (hn x hx.2.1.symm).trans h3, h4.congr ?_ fun y hy => ?_⟩
      · exact hn _ (add_ne hx.1.symm)
      · have hy' := hh y (by simp [hy])
        refine ⟨hn y hy'.2.1.symm, hn _ (add_ne hy'.1.symm), hp _ ?_⟩
        rintro z hz
        obtain rfl : x = z := by simpa using hz
        exact add_ne (hxr y hy).1.symm
  | cons y t₁ ih =>
    obtain ⟨h1, h2, h3, h4⟩ := hc
    rw [List.getLastD_cons] at hn hn1 hp1
    obtain ⟨hh, hy⟩ := List.pairwise_cons.1 apart
    have hlast := getLastD_mem y t₁
    have hlast' : t₁.getLastD y ∈ y :: t₁ ++ q :: t₂ := List.mem_append_left _ hlast
    refine ⟨(hn _ (add_ne (hh _ hlast').1)).trans h1, (hp _ ?_).trans h2, (hn y ?_).trans h3,
      ih h4 hy hn hn1 hp1⟩
    · intro x hx
      have hmem : x ∈ t₁ ++ q :: t₂ := by
        have := List.mem_of_mem_head? hx
        simp [this]
      exact add_ne ((List.pairwise_cons.1 hy).1 x hmem).1
    · rcases List.mem_cons.1 hlast with he | hmem
      · rw [he]
        exact ne_add y
      · exact ((List.pairwise_cons.1 hy).1 _ (List.mem_append_left _ hmem)).2.2

/-! ## Removal -/

theorem FreeRep.head_next_ne (hr : FreeRep m fq (l ++ c :: r)) : m.next c.head ≠ NULL := by
  have ring := hr.ring
  rw [List.map_append, List.map_cons] at ring
  rw [ring.next_at]
  cases r with
  | nil => exact hr.fq_ne
  | cons d r => exact (hr.off _ (head_mem_pairs (by simp : d ∈ l ++ c :: d :: r))).2.2

/-- The representation with one class replaced. -/
theorem FreeRep.replace (hr : FreeRep m fq (l ++ c :: r)) (ds : List Cls)
    (ring : DList.Ring m'.next m'.prev fq ((l ++ ds ++ r).map Cls.head))
    (hother : ∀ d ∈ l ++ r, ClsRep m' d) (hnew : ∀ d ∈ ds, ClsRep m' d)
    (hds : ds.Pairwise fun c d => c.size < d.size) (hsize : ∀ d ∈ ds, d.size = c.size)
    (hsub : ((freePairs ds).map Prod.fst).Sublist c.blks) :
    FreeRep m' fq (l ++ ds ++ r) := by
  have hpairs : ((freePairs (l ++ ds ++ r)).map Prod.fst).Sublist
      ((freePairs (l ++ c :: r)).map Prod.fst) := by
    have hblks : (c.blks.map fun q => (q, c.size)).map Prod.fst = c.blks := by
      simp [Function.comp_def]
    rw [freePairs_append, freePairs_append, freePairs_append, freePairs_cons]
    simp only [List.map_append, hblks, List.append_assoc]
    exact (List.Sublist.refl _).append (hsub.append (List.Sublist.refl _))
  refine ⟨ring, ?_, ?_, hr.apart.sublist hpairs, ?_, hr.fq_ne⟩
  · intro d hd
    simp only [List.mem_append] at hd
    rcases hd with (hd | hd) | hd
    · exact hother d (List.mem_append_left _ hd)
    · exact hnew d hd
    · exact hother d (List.mem_append_right _ hd)
  · have sorted := hr.sorted
    rw [List.pairwise_append, List.pairwise_cons] at sorted
    obtain ⟨hl, ⟨hc, hrr⟩, hlr⟩ := sorted
    rw [List.pairwise_append, List.pairwise_append]
    refine ⟨⟨hl, hds, fun x hx d hd => ?_⟩, hrr, fun x hx d hd => ?_⟩
    · rw [hsize d hd]
      exact hlr x hx c List.mem_cons_self
    · rcases List.mem_append.1 hx with hx | hx
      · exact hlr x hx d (List.mem_cons_of_mem _ hd)
      · rw [hsize x hx]
        exact hc d hd
  · intro p hp
    have hmem := hpairs.subset (List.mem_map_of_mem (f := Prod.fst) hp)
    obtain ⟨p', hp', he⟩ := List.mem_map.1 hmem
    rw [← he]
    exact hr.off p' hp'

theorem freePairs_replace (l r : List Cls) (c : Cls) (ds : List Cls) {x : Nat × Nat}
    (h : (c.blks.map fun q => (q, c.size)).Perm (x :: freePairs ds)) :
    (freePairs (l ++ c :: r)).Perm (x :: freePairs (l ++ ds ++ r)) := by
  rw [freePairs_append, freePairs_append, freePairs_append, freePairs_cons, List.append_assoc]
  have h1 := (h.append_right (freePairs r)).append_left (freePairs l)
  exact h1.trans List.perm_middle

/-- The rest of a class does not see a change of the cells of `q` and of the ring. -/
theorem FreeRep.cls_other (hr : FreeRep m fq cs) (hd : d ∈ cs)
    (hq : ∀ x ∈ d.blks, Apart x q)
    (off : SameOff (fun a => a ∈ fq :: cs.map Cls.head ∨ a = q ∨ a = q + QUEUESZ) m m') :
    ClsRep m' d := by
  refine (hr.cls d hd).congr fun x hx => ?_
  have hx' := hq x hx
  have h2 := off (x + QUEUESZ) (by
    rintro (hm | hm | hm)
    · exact hr.not_ring hm hd hx rfl
    · exact hx'.2.1 hm
    · exact add_ne hx'.1 hm)
  refine ⟨fun ht => (off x ?_).1, h2.1, h2.2⟩
  rintro (hm | hm | hm)
  · exact hr.tail_not_head hm hd ht rfl
  · exact hx'.1 hm
  · exact hx'.2.2 hm

/-- What a removal says of the rest: the queue without `q`, and what it has not touched. -/
structure Removed (m m' : Qmem) (fq q sz : Nat) (cs cs' : List Cls) : Prop where
  rep : FreeRep m' fq cs'
  perm : (freePairs cs).Perm ((q, sz) :: freePairs cs')
  off : SameOff (FreeCell fq cs) m m'
  size : m'.prev (q + QUEUESZ) = m.prev (q + QUEUESZ)

theorem ring_cell (hr : FreeRep m fq cs) {a : Nat} (ha : a ∈ fq :: cs.map Cls.head) :
    FreeCell fq cs a := by
  rcases List.mem_cons.1 ha with rfl | ha
  · exact .inl rfl
  · obtain ⟨c, hc, rfl⟩ := List.mem_map.1 ha
    exact .inr ⟨_, head_mem_pairs hc, .inl rfl⟩

/-- The only area of its size. -/
theorem FreeRep.remove_single (hr : FreeRep m fq (l ++ c :: r)) (ht : c.tail = []) :
    Removed m (m.knlRemoveFreeQue c.head) fq c.head c.size (l ++ c :: r) (l ++ [] ++ r) := by
  have hc : c ∈ l ++ c :: r := by simp
  have hchain := (hr.cls c hc).2
  rw [ht] at hchain
  have hnext : m.next (c.head + QUEUESZ) = NULL := hchain
  have hcode : m.knlRemoveFreeQue c.head = m.queRemove c.head := by
    unfold knlRemoveFreeQue
    rw [if_neg hr.head_next_ne]
    simp [hnext]
  have ring := hr.ring
  have nodup := hr.ring_nodup
  rw [List.map_append, List.map_cons] at ring nodup
  have hoff := queRemove_off ring nodup
  rw [hcode]
  have hring : SameOff (· ∈ fq :: (l ++ c :: r).map Cls.head) m (m.queRemove c.head) := by
    refine hoff.mono fun a ha => ?_
    simp only [List.map_append, List.map_cons, List.mem_cons, List.mem_append] at ha ⊢
    tauto
  refine ⟨hr.replace [] ?_ ?_ (by simp) List.Pairwise.nil (by simp) (by simp [freePairs]),
    freePairs_replace l r c [] ?_, ?_, ?_⟩
  · have := queRemove_ring ring nodup
    simpa using this
  · intro d hd
    have hd' : d ∈ l ++ c :: r := by
      simp only [List.mem_append, List.mem_cons] at hd ⊢
      tauto
    exact hr.cls_of_ring hd' (fun a ha => (hring a ha).1) fun a ha => (hring a ha).2
  · simp [Cls.blks, ht, freePairs]
  · exact hring.mono fun a ha => ring_cell hr ha
  · exact (hring _ fun hm => hr.not_ring hm hc List.mem_cons_self rfl).2

/-- The area in the ring, with others of its size: the first of them takes its place. -/
theorem FreeRep.remove_head (hr : FreeRep m fq (l ++ c :: r)) (ht : c.tail = q' :: t) :
    Removed m (m.knlRemoveFreeQue c.head) fq c.head c.size (l ++ c :: r)
      (l ++ [⟨c.size, q', t⟩] ++ r) := by
  have hc : c ∈ l ++ c :: r := by simp
  obtain ⟨hsize, hchain⟩ := hr.cls c hc
  rw [ht] at hchain
  obtain ⟨h1, h2, h3, h4⟩ := hchain
  obtain ⟨hown, hother⟩ := hr.apart_split
  have hq' : q' ∈ c.tail := by simp [ht]
  have hq'b : q' ∈ c.blks := List.mem_cons_of_mem _ hq'
  have hblks : c.blks = c.head :: q' :: t := by rw [Cls.blks, ht]
  rw [hblks] at hown
  obtain ⟨hhead, hown'⟩ := List.pairwise_cons.1 hown
  have hht := (List.pairwise_cons.1 hown').1
  have ring := hr.ring
  have nodup := hr.ring_nodup
  rw [List.map_append, List.map_cons] at ring nodup
  have hnode : ∀ a ∈ fq :: (l ++ c :: r).map Cls.head, q' ≠ a ∧ q' + QUEUESZ ≠ a ∧
      c.head + QUEUESZ ≠ a := fun a ha =>
    ⟨hr.tail_not_head ha hc hq', hr.not_ring ha hc hq'b, hr.not_ring ha hc List.mem_cons_self⟩
  have hfresh : q' ∉ fq :: (l.map Cls.head ++ c.head :: r.map Cls.head) := fun hm =>
    (hnode q' (by simpa using hm)).1 rfl
  -- q' goes in before the head
  let m₁ := m.queInsert q' c.head
  have ring₁ : DList.Ring m₁.next m₁.prev fq (l.map Cls.head ++ q' :: c.head :: r.map Cls.head) :=
    queInsert_ring (c.head :: r.map Cls.head) ring nodup hfresh
  have off₁ : SameOff (fun a => a = q' ∨ a ∈ fq :: (l.map Cls.head ++ c.head :: r.map Cls.head))
      m m₁ := queInsert_off (c.head :: r.map Cls.head) ring hfresh
  have hsec : ∀ x ∈ c.blks, ¬ (x + QUEUESZ = q' ∨
      x + QUEUESZ ∈ fq :: (l.map Cls.head ++ c.head :: r.map Cls.head)) := by
    rintro x hx (he | hm)
    · rw [hblks] at hx
      rcases List.mem_cons.1 hx with rfl | hx
      · exact (hhead q' List.mem_cons_self).2.1 he
      · rcases List.mem_cons.1 hx with rfl | hx
        · exact ne_add x he.symm
        · exact (hht x hx).2.2 he.symm
    · exact hr.not_ring (by simpa using hm) hc hx rfl
  have hn₁ : m₁.next (c.head + QUEUESZ) = q' + QUEUESZ :=
    (off₁ _ (hsec _ List.mem_cons_self)).1.trans h1
  have hp₁ : m₁.prev (c.head + QUEUESZ) = c.size :=
    (off₁ _ (hsec _ List.mem_cons_self)).2.trans hsize
  -- it takes over the size
  let m₂ := m₁.setPrev (q' + QUEUESZ) c.size
  have hnodup₂ : (fq :: (l.map Cls.head ++ [q'] ++ c.head :: r.map Cls.head)).Nodup := by
    have hperm : (fq :: (l.map Cls.head ++ [q'] ++ c.head :: r.map Cls.head)).Perm
        (q' :: fq :: (l.map Cls.head ++ c.head :: r.map Cls.head)) := by
      rw [List.append_assoc, ← List.cons_append, ← List.cons_append]
      exact List.perm_middle
    rw [hperm.nodup_iff, List.nodup_cons]
    exact ⟨hfresh, nodup⟩
  have ring₂ : DList.Ring m₂.next m₂.prev fq (l.map Cls.head ++ [q'] ++ c.head :: r.map Cls.head) := by
    rw [List.append_assoc]
    refine ring₁.congr (fun a _ => rfl) fun a ha => Function.update_of_ne ?_ _ _
    rintro rfl
    have hm : q' + QUEUESZ = q' ∨ q' + QUEUESZ ∈ fq :: (l ++ c :: r).map Cls.head := by
      simp only [List.map_append, List.map_cons, List.mem_cons, List.mem_append] at ha ⊢
      tauto
    rcases hm with hm | hm
    · exact ne_add q' hm.symm
    · exact (hnode _ hm).2.1 rfl
  have hcode : m.knlRemoveFreeQue c.head = m₂.queRemove c.head := by
    unfold knlRemoveFreeQue
    have hnn : q' + QUEUESZ ≠ NULL := by
      unfold QUEUESZ NULL
      omega
    have hsub : q' + QUEUESZ - QUEUESZ = q' := Nat.add_sub_cancel _ _
    rw [if_neg hr.head_next_ne, h1, if_pos hnn]
    simp only [hsub]
    show ((m₁.setPrev (m₁.next (c.head + QUEUESZ)) (m₁.prev (c.head + QUEUESZ))).queRemove c.head) = _
    rw [hn₁, hp₁]
  have off₂ := queRemove_off ring₂ hnodup₂
  have hoff : SameOff (fun a => a ∈ fq :: (l ++ c :: r).map Cls.head ∨ a = q' ∨ a = q' + QUEUESZ) m
      (m₂.queRemove c.head) := by
    intro a ha
    simp only [List.map_append, List.map_cons, List.mem_cons, List.mem_append, not_or] at ha
    have e₁ := off₁ a (by simp only [List.mem_cons, List.mem_append]; tauto)
    have e₂ := off₂ a (by simp only [List.mem_cons, List.mem_append, List.not_mem_nil]; tauto)
    have e₃ : m₂.prev a = m₁.prev a := Function.update_of_ne ha.2.2 _ _
    exact ⟨e₂.1.trans e₁.1, (e₂.2.trans e₃).trans e₁.2⟩
  rw [hcode]
  refine ⟨hr.replace _ ?_ ?_ ?_ (List.pairwise_singleton _ _) (by simp) ?_,
    freePairs_replace l r c _ ?_, hoff.mono ?_, ?_⟩
  · have := queRemove_ring ring₂ hnodup₂
    simpa using this
  · intro d hd
    have hd' : d ∈ l ++ c :: r := by
      simp only [List.mem_append, List.mem_cons] at hd ⊢
      tauto
    exact hr.cls_other hd' (fun x hx => hother d hd x hx q' hq'b) hoff
  · intro d hd
    obtain rfl : d = ⟨c.size, q', t⟩ := by simpa using hd
    have hq2 : q' + QUEUESZ ∉ fq :: (l.map Cls.head ++ [q'] ++ r.map Cls.head) := by
      intro hm
      have hm : q' + QUEUESZ = q' ∨ q' + QUEUESZ ∈ fq :: (l ++ c :: r).map Cls.head := by
        simp only [List.map_append, List.map_cons, List.mem_cons, List.mem_append,
          List.not_mem_nil] at hm ⊢
        tauto
      rcases hm with hm | hm
      · exact ne_add q' hm.symm
      · exact (hnode _ hm).2.1 rfl
    refine ⟨(off₂ _ hq2).2.trans (Function.update_self ..), h4.congr ?_ fun x hx => ?_⟩
    · exact (off₂ _ hq2).1.trans (off₁ _ (hsec q' hq'b)).1
    · have hxt : x ∈ c.tail := by simp [ht, hx]
      have hx' := hht x hx
      have hxc : c.head ≠ x := (hhead x (by simp [hx])).1
      have e0 := hoff x (by
        rintro (hm | hm | hm)
        · exact hr.tail_not_head hm hc hxt rfl
        · exact hx'.1 hm.symm
        · exact hx'.2.1 hm.symm)
      have e1 := hoff (x + QUEUESZ) (by
        rintro (hm | hm | hm)
        · exact hr.not_ring hm hc (List.mem_cons_of_mem _ hxt) rfl
        · exact hx'.2.2 hm.symm
        · exact add_ne hx'.1 hm.symm)
      exact ⟨e0.1, e1.1, e1.2⟩
  · simp [freePairs, Cls.blks, ht, Function.comp_def]
  · simp [freePairs, Cls.blks, ht]
  · rintro a (ha | rfl | rfl)
    · exact ring_cell hr ha
    · exact .inr ⟨_, blk_mem_pairs hc hq'b, .inl rfl⟩
    · exact .inr ⟨_, blk_mem_pairs hc hq'b, .inr rfl⟩
  · refine (hoff _ ?_).2
    rintro (hm | hm | hm)
    · exact (hnode _ hm).2.2 rfl
    · exact (hhead q' List.mem_cons_self).2.1 hm
    · exact add_ne (hhead q' List.mem_cons_self).1 hm

/-- An area in the chain of its size. -/
theorem FreeRep.remove_member (hr : FreeRep m fq (l ++ c :: r)) (ht : c.tail = t₁ ++ q :: t₂) :
    Removed m (m.knlRemoveFreeQue q) fq q c.size (l ++ c :: r)
      (l ++ [⟨c.size, c.head, t₁ ++ t₂⟩] ++ r) := by
  have hc : c ∈ l ++ c :: r := by simp
  obtain ⟨hsize, hchain⟩ := hr.cls c hc
  rw [ht] at hchain
  obtain ⟨hnull, hprev, hrest⟩ := hchain.at
  obtain ⟨hown, hother⟩ := hr.apart_split
  have hqt : q ∈ c.tail := by simp [ht]
  have hblks : c.blks = c.head :: (t₁ ++ q :: t₂) := by rw [Cls.blks, ht]
  rw [hblks] at hown
  have hlast : t₁.getLastD c.head ∈ c.head :: t₁ := getLastD_mem _ _
  have hlastb : t₁.getLastD c.head ∈ c.blks := by
    rw [hblks]
    rw [← List.cons_append]
    exact List.mem_append_left _ hlast
  have hlastq : t₁.getLastD c.head ≠ q := by
    rw [← List.cons_append, List.pairwise_append] at hown
    exact (hown.2.2 _ hlast q List.mem_cons_self).1
  have hheadq : c.head ≠ q := ((List.pairwise_cons.1 hown).1 q (by simp)).1
  have hhead2 : ∀ x ∈ t₂.head?, x ∈ t₂ ∧ x ≠ q ∧ x ≠ c.head ∧ x ∈ c.blks := by
    intro x hx
    have hx := List.mem_of_mem_head? hx
    have h1 := (List.pairwise_cons.1 hown).1 x (by simp [hx])
    have h2 := (List.pairwise_cons.1 (List.pairwise_append.1 (List.pairwise_cons.1 hown).2).2.1).1 x hx
    exact ⟨hx, h2.1.symm, h1.1.symm, by rw [hblks]; simp [hx]⟩
  -- the chain behind q ends, or its first area points back over q
  have hcode : ∃ m', m.knlRemoveFreeQue q = m' ∧
      (∀ a, a ≠ t₁.getLastD c.head + QUEUESZ → m'.next a = m.next a) ∧
      m'.next (t₁.getLastD c.head + QUEUESZ) = m.next (q + QUEUESZ) ∧
      (∀ a, (∀ x ∈ t₂.head?, a ≠ x + QUEUESZ) → m'.prev a = m.prev a) ∧
      (∀ x ∈ t₂.head?, m'.prev (x + QUEUESZ) = t₁.getLastD c.head + QUEUESZ) := by
    refine ⟨_, rfl, ?_⟩
    unfold knlRemoveFreeQue
    rw [if_pos hnull, hprev]
    simp only [setNext_next, setNext_prev, hprev,
      Function.update_of_ne (add_ne hlastq.symm)]
    cases t₂ with
    | nil =>
      have hn : m.next (q + QUEUESZ) = NULL := hrest
      rw [if_neg (by simp [hn])]
      exact ⟨fun a ha => Function.update_of_ne ha _ _, Function.update_self .., fun a _ => rfl,
        by simp⟩
    | cons x t₂ =>
      have hn : m.next (q + QUEUESZ) = x + QUEUESZ := hrest.1
      have hnn : x + QUEUESZ ≠ NULL := by
        unfold QUEUESZ NULL
        omega
      rw [hn, if_pos hnn]
      refine ⟨fun a ha => Function.update_of_ne ha _ _, Function.update_self .., ?_, ?_⟩
      · exact fun a ha => Function.update_of_ne (ha x rfl) _ _
      · rintro y hy
        obtain rfl : x = y := by simpa using hy
        exact Function.update_self ..
  obtain ⟨m', hm', hn, hn1, hp, hp1⟩ := hcode
  rw [hm']
  have hnext : ∀ a, (∀ x ∈ c.blks, a ≠ x + QUEUESZ) → m'.next a = m.next a := fun a ha =>
    hn a (ha _ hlastb)
  have hprev' : ∀ a, (∀ x ∈ c.blks, a ≠ x + QUEUESZ) → m'.prev a = m.prev a := fun a ha =>
    hp a fun x hx => ha x (hhead2 x hx).2.2.2
  refine ⟨hr.replace _ ?_ ?_ ?_ (List.pairwise_singleton _ _) (by simp) ?_,
    freePairs_replace l r c _ ?_, fun a ha => ?_, ?_⟩
  · have ring' : DList.Ring m'.next m'.prev fq ((l ++ c :: r).map Cls.head) := hr.ring.congr
      (fun a ha => hnext a fun x hx he => hr.not_ring ha hc hx he.symm)
      (fun a ha => hprev' a fun x hx he => hr.not_ring ha hc hx he.symm)
    simpa using ring'
  · intro d hd
    have hd' : d ∈ l ++ c :: r := by
      simp only [List.mem_append, List.mem_cons] at hd ⊢
      tauto
    refine (hr.cls d hd').congr fun x hx => ?_
    have hap := hother d hd x hx
    exact ⟨fun _ => hnext x fun y hy => (hap y hy).2.2,
      hnext _ fun y hy => add_ne (hap y hy).1, hprev' _ fun y hy => add_ne (hap y hy).1⟩
  · intro d hd
    obtain rfl : d = ⟨c.size, c.head, t₁ ++ t₂⟩ := by simpa using hd
    refine ⟨(hp _ fun x hx => add_ne (hhead2 x hx).2.2.1.symm).trans hsize, ?_⟩
    exact hchain.unlink hown hn hn1 hp hp1
  · rw [hblks]
    simp [freePairs, Cls.blks, Function.comp_def]
  · rw [hblks]
    have hperm : (c.head :: (t₁ ++ q :: t₂)).Perm (q :: (c.head :: (t₁ ++ t₂))) := by
      rw [← List.cons_append]
      exact List.perm_middle
    have := hperm.map fun q => (q, c.size)
    simpa [freePairs, Cls.blks] using this
  · have hcell : ∀ x ∈ c.blks, a ≠ x + QUEUESZ := by
      rintro x hx rfl
      exact ha (.inr ⟨_, blk_mem_pairs hc hx, .inr rfl⟩)
    exact ⟨hnext a hcell, hprev' a hcell⟩
  · exact hp _ fun x hx => add_ne (hhead2 x hx).2.1.symm

/-- `knl_removeFreeQue` takes the free area `q` out of the queue. -/
theorem FreeRep.remove (hr : FreeRep m fq cs) (hq : (q, sz) ∈ freePairs cs) :
    ∃ cs', Removed m (m.knlRemoveFreeQue q) fq q sz cs cs' := by
  obtain ⟨c, hc, hqb, hs⟩ := mem_freePairs.1 hq
  obtain rfl : sz = c.size := hs
  obtain ⟨l, r, rfl⟩ := List.append_of_mem hc
  have hqb' : q = c.head ∨ q ∈ c.tail := List.mem_cons.1 hqb
  rcases hqb' with rfl | hqt
  · cases ht : c.tail with
    | nil => exact ⟨_, hr.remove_single ht⟩
    | cons q' t => exact ⟨_, hr.remove_head ht⟩
  · obtain ⟨t₁, t₂, ht⟩ := List.append_of_mem hqt
    exact ⟨_, hr.remove_member ht⟩

/-! ## Registration -/

/-- What a registration says: the queue with the area `q` of `size` bytes added. -/
structure Registered (m m' : Qmem) (fq q size : Nat) (cs cs' : List Cls) : Prop where
  rep : FreeRep m' fq cs'
  perm : (freePairs cs').Perm ((q, size) :: freePairs cs)
  off : SameOff (fun a => FreeCell fq cs a ∨ a = q ∨ a = q + QUEUESZ) m m'

/-- The area `q` can be added: its cells are new. -/
structure NewArea (fq q : Nat) (cs : List Cls) : Prop where
  apart : ∀ p ∈ freePairs cs, Apart q p.1
  off : q ≠ fq ∧ q + QUEUESZ ≠ fq ∧ q ≠ NULL

theorem NewArea.apart_blk (hnew : NewArea fq q cs) {x : Nat} (hc : c ∈ cs) (hx : x ∈ c.blks) :
    Apart q x := hnew.apart _ (blk_mem_pairs hc hx)

theorem NewArea.not_ring (hnew : NewArea fq q cs) {a : Nat} (ha : a ∈ fq :: cs.map Cls.head) :
    q ≠ a ∧ q + QUEUESZ ≠ a := by
  rcases List.mem_cons.1 ha with rfl | ha
  · exact ⟨hnew.off.1, hnew.off.2.1⟩
  · obtain ⟨c, hc, rfl⟩ := List.mem_map.1 ha
    have := hnew.apart_blk hc List.mem_cons_self
    exact ⟨this.1, this.2.1⟩

/-- The parts of the representation that do not depend on the memory, with `q` added. -/
theorem NewArea.rep (hnew : NewArea fq q cs) (hr : FreeRep m fq cs) {cs' : List Cls}
    (ring : DList.Ring m'.next m'.prev fq (cs'.map Cls.head)) (cls : ∀ c ∈ cs', ClsRep m' c)
    (sorted : cs'.Pairwise fun c d => c.size < d.size)
    (perm : (freePairs cs').Perm ((q, size) :: freePairs cs)) : FreeRep m' fq cs' := by
  refine ⟨ring, cls, sorted, ?_, ?_, hr.fq_ne⟩
  · have hp := perm.map Prod.fst
    rw [hp.pairwise_iff (fun {a b} h => Apart.symm h), List.map_cons, List.pairwise_cons]
    refine ⟨fun x hx => ?_, hr.apart⟩
    obtain ⟨p, hp, rfl⟩ := List.mem_map.1 hx
    exact hnew.apart p hp
  · intro p hp
    rcases List.mem_cons.1 (perm.mem_iff.1 hp) with rfl | hp
    · exact hnew.off
    · exact hr.off p hp

/-- There is an area of the same size: `q` is chained behind it. -/
theorem FreeRep.register_chain (hr : FreeRep m fq (l ++ d :: r)) (hnew : NewArea fq q (l ++ d :: r))
    {c : Imacb} (hfq : c.freeque = fq) :
    Registered m (m.registerFree c q d.size d.head) fq q d.size (l ++ d :: r)
      (l ++ ⟨d.size, d.head, q :: d.tail⟩ :: r) := by
  have hd : d ∈ l ++ d :: r := by simp
  obtain ⟨hsize, hchain⟩ := hr.cls d hd
  obtain ⟨hown, hother⟩ := hr.apart_split
  have hqd : Apart q d.head := hnew.apart_blk hd List.mem_cons_self
  have hqt : ∀ x ∈ d.tail, Apart q x := fun x hx => hnew.apart_blk hd (List.mem_cons_of_mem _ hx)
  have hdt : ∀ x ∈ d.tail, Apart d.head x := (List.pairwise_cons.1 hown).1
  have hhead : ∀ x ∈ d.tail.head?, x ∈ d.tail := fun x hx => List.mem_of_mem_head? hx
  -- the links written: the two of q, those of the head and of the first of the chain
  have hcode : ∃ m', m.registerFree c q d.size d.head = m' ∧
      m'.next q = NULL ∧ m'.next (d.head + QUEUESZ) = q + QUEUESZ ∧
      m'.next (q + QUEUESZ) = m.next (d.head + QUEUESZ) ∧
      (∀ a, a ≠ q → a ≠ d.head + QUEUESZ → a ≠ q + QUEUESZ → m'.next a = m.next a) ∧
      m'.prev (q + QUEUESZ) = d.head + QUEUESZ ∧
      (∀ x ∈ d.tail.head?, m'.prev (x + QUEUESZ) = q + QUEUESZ) ∧
      (∀ a, a ≠ q + QUEUESZ → (∀ x ∈ d.tail.head?, a ≠ x + QUEUESZ) → m'.prev a = m.prev a) := by
    refine ⟨_, rfl, ?_⟩
    have hne : d.head ≠ c.freeque := by
      rw [hfq]
      exact (hr.off _ (head_mem_pairs hd)).1
    have h1 : q + QUEUESZ ≠ d.head + QUEUESZ := add_ne hqd.1
    unfold registerFree
    rw [if_pos ⟨hne, hsize⟩]
    simp only [setNext_next, setNext_prev, setPrev_next, Function.update_of_ne h1,
      Function.update_self]
    cases ht : d.tail with
    | nil =>
      rw [ht] at hchain
      have hn : m.next (d.head + QUEUESZ) = NULL := hchain
      rw [if_neg (by simp [hn])]
      simp only [setPrev_next, setPrev_prev, setNext_next, setNext_prev, Function.update_self,
        Function.update_of_ne hqd.2.2.symm, Function.update_of_ne (ne_add q).symm,
        Function.update_of_ne h1, List.head?_nil, Option.mem_def, reduceCtorEq, false_implies,
        implies_true, forall_true_left, true_and]
      refine ⟨fun a h1 h2 h3 => ?_, fun a ha => Function.update_of_ne ha _ _⟩
      rw [Function.update_of_ne h1, Function.update_of_ne h2, Function.update_of_ne h3]
    | cons x t =>
      rw [ht] at hchain
      have hn : m.next (d.head + QUEUESZ) = x + QUEUESZ := hchain.1
      have hnn : x + QUEUESZ ≠ NULL := by
        unfold QUEUESZ NULL
        omega
      have hqx : q + QUEUESZ ≠ x + QUEUESZ := add_ne (hqt x (by simp [ht])).1
      rw [hn, if_pos hnn]
      simp only [setPrev_next, setPrev_prev, setNext_next, setNext_prev, Function.update_self,
        Function.update_of_ne hqd.2.2.symm, Function.update_of_ne (ne_add q).symm,
        Function.update_of_ne h1, Function.update_of_ne hqx, List.head?_cons, Option.mem_def,
        Option.some.injEq, forall_eq', true_and]
      refine ⟨fun a h1 h2 h3 => ?_, fun a h1 h2 => ?_⟩
      · rw [Function.update_of_ne h1, Function.update_of_ne h2, Function.update_of_ne h3]
      · rw [Function.update_of_ne h2, Function.update_of_ne h1]
  obtain ⟨m', hm', hn0, hn1, hn2, hn, hp1, hp2, hp⟩ := hcode
  rw [hm']
  have hperm : (freePairs (l ++ ⟨d.size, d.head, q :: d.tail⟩ :: r)).Perm
      ((q, d.size) :: freePairs (l ++ d :: r)) := by
    rw [freePairs_append, freePairs_append, freePairs_cons, freePairs_cons]
    have h1 : (Cls.blks ⟨d.size, d.head, q :: d.tail⟩).Perm (q :: d.blks) :=
      List.Perm.swap q d.head d.tail
    have h2 := ((h1.map fun q => (q, d.size)).append_right (freePairs r)).append_left (freePairs l)
    exact h2.trans List.perm_middle
  have hnode : ∀ a ∈ fq :: (l ++ d :: r).map Cls.head, m'.next a = m.next a ∧ m'.prev a = m.prev a :=
    fun a ha => by
      have hqa := hnew.not_ring ha
      have hda := hr.not_ring ha hd List.mem_cons_self
      refine ⟨hn a hqa.1.symm hda.symm hqa.2.symm, hp a hqa.2.symm fun x hx => ?_⟩
      exact (hr.not_ring ha hd (List.mem_cons_of_mem _ (hhead x hx))).symm
  refine ⟨hnew.rep hr ?_ ?_ ?_ hperm, hperm, fun a ha => ?_⟩
  · have ring' : DList.Ring m'.next m'.prev fq ((l ++ d :: r).map Cls.head) :=
      hr.ring.congr (fun a ha => (hnode a ha).1) fun a ha => (hnode a ha).2
    simpa using ring'
  · intro e he
    have hmem : e = ⟨d.size, d.head, q :: d.tail⟩ ∨ e ∈ l ++ r := by
      simp only [List.mem_append, List.mem_cons] at he ⊢
      tauto
    rcases hmem with rfl | he
    · refine ⟨(hp _ (add_ne hqd.1.symm) fun x hx => ?_).trans hsize, hn1, hp1, hn0, ?_⟩
      · exact add_ne (hdt x (hhead x hx)).1
      · show Chain m' (q + QUEUESZ) d.tail
        cases ht : d.tail with
        | nil =>
          rw [ht] at hchain
          exact hn2.trans hchain
        | cons x t =>
          rw [ht] at hchain hqt hdt
          rw [Cls.blks, ht] at hown
          obtain ⟨c1, c2, c3, c4⟩ := hchain
          have hx := hqt x List.mem_cons_self
          have hdx := hdt x List.mem_cons_self
          have hxt := (List.pairwise_cons.1 (List.pairwise_cons.1 hown).2).1
          refine ⟨hn2.trans c1, hp2 x (by simp [ht]), (hn x hx.1.symm hdx.2.1.symm hx.2.1.symm).trans c3,
            c4.congr ?_ fun y hy => ?_⟩
          · exact hn _ hx.2.2.symm (add_ne hdx.1.symm) (add_ne hx.1.symm)
          · have hy1 := hqt y (List.mem_cons_of_mem _ hy)
            have hy2 := hdt y (List.mem_cons_of_mem _ hy)
            refine ⟨hn y hy1.1.symm hy2.2.1.symm hy1.2.1.symm,
              hn _ hy1.2.2.symm (add_ne hy2.1.symm) (add_ne hy1.1.symm),
              hp _ (add_ne hy1.1.symm) fun z hz => ?_⟩
            obtain rfl : x = z := by simpa [ht] using hz
            exact add_ne (hxt y hy).1.symm
    · have he' : e ∈ l ++ d :: r := by
        simp only [List.mem_append, List.mem_cons] at he ⊢
        tauto
      refine (hr.cls e he').congr fun x hx => ?_
      have h1 := hother e he x hx
      have h2 := hnew.apart_blk he' hx
      have h3 := h1 d.head List.mem_cons_self
      refine ⟨fun _ => hn x h2.1.symm h3.2.2 h2.2.1.symm,
        hn _ h2.2.2.symm (add_ne h3.1) (add_ne h2.1.symm), hp _ (add_ne h2.1.symm) fun y hy => ?_⟩
      exact add_ne (h1 y (List.mem_cons_of_mem _ (hhead y hy))).1
  · have sorted := hr.sorted
    rw [List.pairwise_append, List.pairwise_cons] at sorted ⊢
    refine ⟨sorted.1, sorted.2.1, fun x hx e he => ?_⟩
    rcases List.mem_cons.1 he with rfl | he
    · exact sorted.2.2 x hx d List.mem_cons_self
    · exact sorted.2.2 x hx e (List.mem_cons_of_mem _ he)
  · rw [not_or, not_or] at ha
    have hcell : ∀ x ∈ d.blks, a ≠ x + QUEUESZ := by
      rintro x hx rfl
      exact ha.1 (.inr ⟨_, blk_mem_pairs hd hx, .inr rfl⟩)
    exact ⟨hn a ha.2.1 (hcell _ List.mem_cons_self) ha.2.2,
      hp a ha.2.2 fun x hx => hcell x (List.mem_cons_of_mem _ (hhead x hx))⟩

/-- No area of the same size: `q` gets a place in the ring. -/
theorem FreeRep.register_ring (hr : FreeRep m fq (l ++ r)) (hnew : NewArea fq q (l ++ r))
    {c : Imacb} (hfq : c.freeque = fq) (hl : ∀ d ∈ l, d.size < size) (hrr : ∀ d ∈ r, size < d.size) :
    Registered m (m.registerFree c q size ((r.map Cls.head).headD fq)) fq q size (l ++ r)
      (l ++ ⟨size, q, []⟩ :: r) := by
  have ring := hr.ring
  have nodup := hr.ring_nodup
  rw [List.map_append] at ring nodup
  have hfresh : q ∉ fq :: (l.map Cls.head ++ r.map Cls.head) := fun hm =>
    (hnew.not_ring (by simpa using hm)).1 rfl
  have hring := queInsert_ring _ ring nodup hfresh
  have hoff := queInsert_off _ ring hfresh
  have hcode : m.registerFree c q size ((r.map Cls.head).headD fq) =
      ((m.queInsert q ((r.map Cls.head).headD fq)).setNext (q + QUEUESZ) NULL).setPrev
        (q + QUEUESZ) size := by
    unfold registerFree
    rw [if_neg]
    rintro ⟨hne, hs⟩
    cases r with
    | nil => exact hne hfq.symm
    | cons d r =>
      have hd : d ∈ l ++ d :: r := by simp
      have hds : m.freeSize d.head = d.size := (hr.cls d hd).1
      have := hrr d List.mem_cons_self
      rw [List.map_cons, List.headD_cons, hds] at hs
      omega
  rw [hcode]
  generalize m.queInsert q ((r.map Cls.head).headD fq) = m₁ at hring hoff
  have hperm : (freePairs (l ++ ⟨size, q, []⟩ :: r)).Perm ((q, size) :: freePairs (l ++ r)) := by
    rw [freePairs_append, freePairs_append, freePairs_cons]
    exact List.perm_middle
  have hq2 : q + QUEUESZ ∉ fq :: (l ++ ⟨size, q, []⟩ :: r).map Cls.head := by
    intro hm
    have hm : q + QUEUESZ = q ∨ q + QUEUESZ ∈ fq :: (l ++ r).map Cls.head := by
      simp only [List.map_append, List.map_cons, List.mem_cons, List.mem_append] at hm ⊢
      tauto
    rcases hm with hm | hm
    · exact ne_add q hm.symm
    · exact (hnew.not_ring hm).2 rfl
  have hall : SameOff (fun a => a ∈ fq :: (l ++ r).map Cls.head ∨ a = q ∨ a = q + QUEUESZ) m
      ((m₁.setNext (q + QUEUESZ) NULL).setPrev (q + QUEUESZ) size) := by
    intro a ha
    simp only [not_or] at ha
    have e := hoff a (by
      rintro (hm | hm)
      · exact ha.2.1 hm
      · exact ha.1 (by simpa using hm))
    simp only [setPrev_next, setPrev_prev, setNext_next, setNext_prev,
      Function.update_of_ne ha.2.2]
    exact e
  refine ⟨hnew.rep hr ?_ ?_ ?_ hperm, hperm, hall.mono ?_⟩
  · rw [List.map_append, List.map_cons]
    refine hring.congr (fun a ha => Function.update_of_ne ?_ _ _) fun a ha => Function.update_of_ne ?_ _ _
    · rintro rfl
      exact hq2 (by simpa using ha)
    · rintro rfl
      exact hq2 (by simpa using ha)
  · intro e he
    have hmem : e = ⟨size, q, []⟩ ∨ e ∈ l ++ r := by
      simp only [List.mem_append, List.mem_cons] at he ⊢
      tauto
    rcases hmem with rfl | he
    · exact ⟨Function.update_self .., Function.update_self ..⟩
    · exact hr.cls_other he (fun x hx => (hnew.apart_blk he hx).symm) hall
  · have sorted := hr.sorted
    rw [List.pairwise_append] at sorted ⊢
    rw [List.pairwise_cons]
    refine ⟨sorted.1, ⟨hrr, sorted.2.1⟩, fun x hx e he => ?_⟩
    rcases List.mem_cons.1 he with rfl | he
    · exact hl x hx
    · exact sorted.2.2 x hx e he
  · rintro a (ha | ha)
    · exact .inl (ring_cell hr ha)
    · exact .inr ha

/-- Registration behind a search puts the area `q` into the free queue. -/
theorem FreeRep.register {c : Imacb} (hr : FreeRep m c.freeque cs) (hnew : NewArea c.freeque q cs)
    (size : Nat) :
    ∃ cs', Registered m (m.registerFree c q size (searchResult c.freeque size cs)) c.freeque q size
      cs cs' := by
  have hsplit : cs = cs.takeWhile (fun d => d.size < size) ++ cs.dropWhile fun d => d.size < size :=
    List.takeWhile_append_dropWhile.symm
  have hl : ∀ d ∈ cs.takeWhile fun d => d.size < size, d.size < size := fun d hd => by
    simpa using List.mem_takeWhile_imp hd
  unfold searchResult
  cases hdrop : cs.dropWhile fun d => d.size < size with
  | nil =>
    rw [hdrop] at hsplit
    generalize cs.takeWhile (fun d => d.size < size) = l at hsplit hl
    subst hsplit
    exact ⟨_, hr.register_ring hnew rfl hl (by simp)⟩
  | cons d r =>
    have hd : size ≤ d.size := by
      have := List.head_dropWhile_not (fun d : Cls => decide (d.size < size)) (l := cs)
        (by rw [hdrop]; simp)
      simpa [hdrop] using this
    rw [hdrop] at hsplit
    generalize cs.takeWhile (fun d => d.size < size) = l at hsplit hl
    subst hsplit
    by_cases equal : size = d.size
    · subst equal
      exact ⟨_, hr.register_chain hnew rfl⟩
    · have sorted := hr.sorted
      rw [List.pairwise_append, List.pairwise_cons] at sorted
      refine ⟨_, hr.register_ring hnew rfl hl fun e he => ?_⟩
      rcases List.mem_cons.1 he with rfl | he
      · omega
      · have := sorted.2.1.1 e he
        omega

end

end Mtk3Smp
