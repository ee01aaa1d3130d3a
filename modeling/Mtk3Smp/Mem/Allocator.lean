import Mtk3Smp.Mem.Parts
import Mathlib.Data.List.Chain

/-!
# Getting and releasing blocks

`knl_Imalloc` and `knl_get_blk`, and `knl_Ifree` and `knl_rel_blk`, do the same but for the
header of the first block and for how the first and the last area are put back into the free
queue. `Variant` holds these differences; `Rep` is the invariant of both.
-/

namespace Mtk3Smp

open DList Qmem

structure Variant where
  c : Imacb
  /-- the header of a block, and the block behind a header -/
  aqOf : Nat → Nat
  fqOf : Nat → Nat
  /-- how the rest of a divided area and how a released area are registered -/
  appendRest : Qmem → Nat → Qmem
  append : Qmem → Nat → Qmem

namespace Variant

variable (v : Variant) (m : Qmem)

/-- `knl_Imalloc`, `knl_get_blk`: `size` has been rounded. -/
def getBlk (size : Nat) : Option (Nat × Qmem) :=
  let q := m.knlSearchFreeArea v.c size
  if q = v.c.freeque then none
  else
    let m := m.knlRemoveFreeQue q
    let aq := v.aqOf q
    let m :=
      if MIN_FRAGMENT + QUEUESZ ≤ m.freeSize q - size then
        let aq2 := q + size
        v.appendRest (m.knlInsertAreaQue aq aq2) aq2
      else m
    some (q, m.setAreaFlag aq)

/-- The merge with the area behind `aq`. -/
def mergeNext (aq : Nat) : Qmem :=
  if !m.chkAreaFlag (m.next aq) then
    let m := m.knlRemoveFreeQue (m.next aq + QUEUESZ)
    m.knlRemoveAreaQue (m.next aq)
  else m

/-- The merge with the area in front of `aq`, and the header of the result. -/
def mergePrev (aq : Nat) : Nat × Qmem :=
  if !m.chkAreaFlag (m.prev aq) then
    let aq := m.prev aq
    let m := m.knlRemoveFreeQue (v.fqOf aq)
    (aq, m.knlRemoveAreaQue (m.next aq))
  else (aq, m)

/-- `knl_Ifree`, `knl_rel_blk` -/
def relBlk (blk : Nat) : Qmem :=
  let aq := v.aqOf blk
  let m := mergeNext (m.clrAreaFlag aq) aq
  let r := v.mergePrev m aq
  v.append r.2 r.1

end Variant

/-! ## The representation -/

/-- A block that can be allocated. -/
def Layout.Usable (L : Layout) (a : Area) : Prop := L.fixed = true → a.blk ≠ L.lo + QUEUESZ

def Area.pair (a : Area) : Nat × Nat := (a.blk, a.sz)

/-- The free and the used blocks with their sizes. -/
def frees (as : List Area) : List (Nat × Nat) := (as.filter fun a => !a.use).map Area.pair
def useds (as : List Area) : List (Nat × Nat) := (as.filter fun a => a.use).map Area.pair

/-- No two neighbours are free. -/
def NoAdj (as : List Area) : Prop := as.IsChain fun a b => a.use = true ∨ b.use = true

structure Rep (L : Layout) (c : Imacb) (m : Qmem) (as : List Area) (cs : List Cls) : Prop where
  part : Part L c m as cs
  perm : (freePairs cs).Perm (frees as)
  noAdj : NoAdj as
  align : ∀ a ∈ as, a.blk % 8 = L.lo % 8
  big : ∀ a ∈ as, L.Usable a → MIN_FRAGMENT ≤ a.sz
  fixed : ∀ a ∈ as, ¬ L.Usable a → a.use = true

/-- A variant treats headers and the boundary areas as the layout says. -/
structure Variant.Sound (v : Variant) (L : Layout) : Prop where
  aqOf : ∀ a : Area, L.Usable a → L.lo + QUEUESZ ≤ a.blk → v.aqOf a.blk = L.node a.blk
  fqOf : ∀ {m as cs}, Part L v.c m as cs → ∀ a ∈ as, L.Usable a → v.fqOf (L.node a.blk) = a.blk
  appendRest : ∀ {m xs a ys cs}, Part L v.c m (xs ++ a :: ys) cs → a.blk ≠ L.lo + QUEUESZ →
    v.appendRest m (L.node a.blk) = appendArea m v.c (L.node a.blk) a.blk a.sz
  append : ∀ {m xs a ys cs}, Part L v.c m (xs ++ a :: ys) cs → L.Usable a →
    v.append m (L.node a.blk) = appendArea m v.c (L.node a.blk) a.blk a.sz

section

variable {L : Layout} {c : Imacb} {m : Qmem} {as xs ys : List Area} {cs : List Cls} {a b : Area}
  {v : Variant} {q sz size : Nat}

theorem frees_append : frees (xs ++ ys) = frees xs ++ frees ys := by simp [frees]
theorem useds_append : useds (xs ++ ys) = useds xs ++ useds ys := by simp [useds]

theorem frees_cons_free (h : a.use = false) : frees (a :: ys) = a.pair :: frees ys := by
  simp [frees, h]

theorem frees_cons_used (h : a.use = true) : frees (a :: ys) = frees ys := by simp [frees, h]

theorem useds_cons_free (h : a.use = false) : useds (a :: ys) = useds ys := by simp [useds, h]

theorem useds_cons_used (h : a.use = true) : useds (a :: ys) = a.pair :: useds ys := by
  simp [useds, h]

theorem mem_frees {p : Nat × Nat} : p ∈ frees as ↔ ∃ a ∈ as, a.use = false ∧ a.pair = p := by
  simp [frees, and_assoc]

theorem noAdj_split : NoAdj (xs ++ a :: ys) ↔ NoAdj xs ∧ NoAdj ys ∧
    (∀ x ∈ xs.getLast?, x.use = true ∨ a.use = true) ∧
    ∀ y ∈ ys.head?, a.use = true ∨ y.use = true := by
  unfold NoAdj
  rw [List.isChain_append, List.isChain_cons]
  simp only [List.head?_cons, Option.mem_def, Option.some.injEq, forall_eq']
  tauto

theorem noAdj_cons : NoAdj (a :: ys) ↔
    NoAdj ys ∧ ∀ y ∈ ys.head?, a.use = true ∨ y.use = true := by
  unfold NoAdj
  rw [List.isChain_cons]
  exact and_comm

theorem noAdj_concat : NoAdj (xs ++ [a]) ↔
    NoAdj xs ∧ ∀ x ∈ xs.getLast?, x.use = true ∨ a.use = true := by
  unfold NoAdj
  rw [List.isChain_append]
  simp

theorem Rep.mem_free (h : Rep L c m as cs) {p : Nat × Nat} (hp : p ∈ freePairs cs) :
    ∃ a ∈ as, a.use = false ∧ a.blk = p.1 ∧ a.sz = p.2 := by
  obtain ⟨a, ha, hu, rfl⟩ := mem_frees.1 (h.perm.mem_iff.1 hp)
  exact ⟨a, ha, hu, rfl, rfl⟩

/-- What has been taken out of the free queue is not in it. -/
theorem not_mem_of_removed {cs' : List Cls} (h : Part L c m as cs)
    (hp : (freePairs cs).Perm ((q, sz) :: freePairs cs')) : ∀ p ∈ freePairs cs', p.1 ≠ q := by
  intro p hpm he
  have hn := (hp.map Prod.fst).nodup_iff.1 h.nodup
  rw [List.map_cons, List.nodup_cons] at hn
  refine hn.1 ?_
  have hm := List.mem_map_of_mem (f := Prod.fst) hpm
  rwa [he] at hm

theorem usable_of_ne (h : a.blk ≠ L.lo + QUEUESZ) : L.Usable a := fun _ => h

/-! ## Getting a block -/

/-- What `getBlk` leaves: the block is used, and all else is as before. -/
structure Got (L : Layout) (c : Imacb) (m' : Qmem) (as : List Area) (q size : Nat) : Prop where
  /-- the areas, of which the block has `sz` bytes -/
  rep : ∃ as' cs' sz, Rep L c m' as' cs' ∧ size ≤ sz ∧ (useds as').Perm ((q, sz) :: useds as)

theorem Rep.getBlk_none (h : Rep L v.c m as cs) (hmin : MIN_FRAGMENT ≤ size)
    (hnone : v.getBlk m size = none) : ∀ a ∈ as, a.use = false → a.sz < size := by
  have hpos : 0 < size := by
    unfold MIN_FRAGMENT at hmin
    omega
  intro a ha hu
  by_contra hle
  have hp : a.pair ∈ freePairs cs := h.perm.mem_iff.2 (mem_frees.2 ⟨a, ha, hu, rfl⟩)
  obtain ⟨d, hd, -, hs⟩ := mem_freePairs.1 hp
  have hs : a.sz = d.size := hs
  unfold Variant.getBlk at hnone
  rw [h.part.search hpos] at hnone
  unfold searchResult at hnone
  cases hdrop : cs.dropWhile fun d => d.size < size with
  | nil =>
    have := List.dropWhile_eq_nil_iff.1 hdrop d hd
    simp only [decide_eq_true_eq] at this
    omega
  | cons e r =>
    rw [hdrop] at hnone
    have he : e ∈ cs := (List.dropWhile_sublist _).subset (by rw [hdrop]; exact List.mem_cons_self)
    simp only [List.map_cons, List.headD_cons, if_neg (h.part.free.off _ (head_mem_pairs he)).1,
      reduceCtorEq] at hnone

/-- The block found: its area and its place. -/
theorem Rep.found (h : Rep L v.c m as cs) (hpos : 0 < size)
    (hne : m.knlSearchFreeArea v.c size ≠ v.c.freeque) :
    ∃ xs a ys, as = xs ++ a :: ys ∧ a.blk = m.knlSearchFreeArea v.c size ∧ a.use = false ∧
      size ≤ a.sz ∧ a.pair ∈ freePairs cs ∧ m.freeSize a.blk = a.sz := by
  rw [h.part.search hpos] at hne ⊢
  unfold searchResult at hne ⊢
  cases hdrop : cs.dropWhile fun d => d.size < size with
  | nil =>
    rw [hdrop] at hne
    exact absurd rfl hne
  | cons e r =>
    have he : e ∈ cs := (List.dropWhile_sublist _).subset (by rw [hdrop]; exact List.mem_cons_self)
    have hsize : size ≤ e.size := by
      have := List.head_dropWhile_not (fun d : Cls => decide (d.size < size)) (l := cs)
        (by rw [hdrop]; simp)
      simpa [hdrop] using this
    have hp := head_mem_pairs he
    obtain ⟨a, ha, hu, hb, hs⟩ := h.mem_free hp
    obtain ⟨xs, ys, rfl⟩ := List.append_of_mem ha
    have hpair : a.pair = (e.head, e.size) := Prod.ext hb hs
    refine ⟨xs, a, ys, rfl, hb, hu, by rw [hs]; exact hsize, by rw [hpair]; exact hp, ?_⟩
    rw [hb, hs]
    exact (h.part.free.cls e he).1

theorem setAreaFlag_eq (m : Qmem) (n : Nat) :
    m.setAreaFlag n = m.setPrev n (mask (m.prev n) + true.toNat) := rfl

theorem clrAreaFlag_eq (m : Qmem) (n : Nat) :
    m.clrAreaFlag n = m.setPrev n (mask (m.prev n) + false.toNat) := rfl

theorem mem_insert_iff {x : Area} : x ∈ xs ++ a :: ys ↔ x = a ∨ x ∈ xs ++ ys := by
  simp only [List.mem_append, List.mem_cons]
  tauto

/-- A free area that is used as it is. -/
theorem Rep.use_whole (h : Rep L c m (xs ++ a :: ys) cs) (hu : a.use = false) {m' : Qmem}
    {cs' : List Cls} (part : Part L c m' (xs ++ { a with use := true } :: ys) cs')
    (perm : (freePairs cs).Perm (a.pair :: freePairs cs')) :
    Rep L c m' (xs ++ { a with use := true } :: ys) cs' := by
  have hperm := h.perm
  rw [frees_append, frees_cons_free hu] at hperm
  obtain ⟨h1, h2, -, -⟩ := noAdj_split.1 h.noAdj
  refine ⟨part, ?_, noAdj_split.2 ⟨h1, h2, fun _ _ => .inr rfl, fun _ _ => .inl rfl⟩, ?_, ?_, ?_⟩
  · rw [frees_append, frees_cons_used rfl]
    exact (List.perm_cons a.pair).1 ((perm.symm.trans hperm).trans List.perm_middle)
  · intro x hx
    rcases mem_insert_iff.1 hx with rfl | hx
    · exact h.align a (by simp)
    · exact h.align x (mem_insert_iff.2 (.inr hx))
  · intro x hx hux
    rcases mem_insert_iff.1 hx with rfl | hx
    · exact h.big a (by simp) hux
    · exact h.big x (mem_insert_iff.2 (.inr hx)) hux
  · intro x hx hux
    rcases mem_insert_iff.1 hx with rfl | hx
    · rfl
    · exact h.fixed x (mem_insert_iff.2 (.inr hx)) hux

/-- A free area that is divided. -/
theorem Rep.use_part (h : Rep L c m (xs ++ a :: ys) cs) (hu : a.use = false) (hmod : size % 8 = 0)
    (hmin : MIN_FRAGMENT ≤ size) (hrest : MIN_FRAGMENT + QUEUESZ ≤ a.sz - size) {m' : Qmem}
    {cs₁ cs' : List Cls}
    (part : Part L c m' (xs ++ ⟨a.blk, size, true⟩ ::
      ⟨a.blk + size + QUEUESZ, a.sz - size - QUEUESZ, false⟩ :: ys) cs')
    (perm : (freePairs cs).Perm (a.pair :: freePairs cs₁))
    (perm' : (freePairs cs').Perm
      ((a.blk + size + QUEUESZ, a.sz - size - QUEUESZ) :: freePairs cs₁)) :
    Rep L c m' (xs ++ ⟨a.blk, size, true⟩ ::
      ⟨a.blk + size + QUEUESZ, a.sz - size - QUEUESZ, false⟩ :: ys) cs' := by
  have hperm := h.perm
  rw [frees_append, frees_cons_free hu] at hperm
  obtain ⟨h1, h2, h3, h4⟩ := noAdj_split.1 h.noAdj
  have hblk := (tile_mem h.part.tile (by simp : a ∈ xs ++ a :: ys)).1
  unfold QUEUESZ MIN_FRAGMENT at *
  refine ⟨part, ?_, ?_, ?_, ?_, ?_⟩
  · rw [frees_append, frees_cons_used rfl, frees_cons_free rfl]
    have hsame := (List.perm_cons a.pair).1 ((perm.symm.trans hperm).trans List.perm_middle)
    exact (perm'.trans (hsame.cons _)).trans List.perm_middle.symm
  · refine noAdj_split.2 ⟨h1, ?_, fun _ _ => .inr rfl, fun _ _ => .inl rfl⟩
    refine noAdj_cons.2 ⟨h2, fun y hy => ?_⟩
    have := h4 y hy
    rw [hu] at this
    exact this
  · intro x hx
    rcases mem_insert_iff.1 hx with rfl | hx
    · exact h.align a (by simp)
    · rcases mem_insert_iff.1 hx with rfl | hx
      · have := h.align a (by simp)
        show (a.blk + size + 8) % 8 = L.lo % 8
        omega
      · exact h.align x (mem_insert_iff.2 (.inr hx))
  · intro x hx hux
    rcases mem_insert_iff.1 hx with rfl | hx
    · exact hmin
    · rcases mem_insert_iff.1 hx with rfl | hx
      · show 16 ≤ a.sz - size - 8
        omega
      · exact h.big x (mem_insert_iff.2 (.inr hx)) hux
  · intro x hx hux
    rcases mem_insert_iff.1 hx with rfl | hx
    · rfl
    · rcases mem_insert_iff.1 hx with rfl | hx
      · refine absurd (usable_of_ne ?_) hux
        show a.blk + size + 8 ≠ L.lo + 8
        omega
      · exact h.fixed x (mem_insert_iff.2 (.inr hx)) hux

/-- The free area that the block is taken from is used, as a whole or up to the rest of it. -/
theorem Rep.getBlk_split (h : Rep L v.c m as cs) (sound : v.Sound L) (hmod : size % 8 = 0)
    (hmin : MIN_FRAGMENT ≤ size) {m' : Qmem} (hsome : v.getBlk m size = some (q, m')) :
    ∃ xs a ys as' cs', as = xs ++ a :: ys ∧ a.use = false ∧ size ≤ a.sz ∧ q = a.blk ∧
      Rep L v.c m' as' cs' ∧
      (as' = xs ++ { a with use := true } :: ys ∨
        as' = xs ++ ⟨a.blk, size, true⟩ ::
          ⟨a.blk + size + QUEUESZ, a.sz - size - QUEUESZ, false⟩ :: ys) := by
  have hpos : 0 < size := by
    unfold MIN_FRAGMENT at hmin
    omega
  unfold Variant.getBlk at hsome
  dsimp only at hsome
  split at hsome
  · cases hsome
  rename_i hne
  obtain ⟨xs, a, ys, rfl, hblk, hu, hle, hp, hfs⟩ := h.found hpos hne
  rw [← hblk] at hsome
  have ha : a ∈ xs ++ a :: ys := by simp
  have huse : L.Usable a := by
    by_contra hn
    rw [h.fixed a ha hn] at hu
    cases hu
  have hlo := (tile_mem h.part.tile ha).1
  obtain ⟨cs₁, part₁, perm₁, hsize₁⟩ := h.part.removeFree hp
  have hout := not_mem_of_removed h.part perm₁
  rw [sound.aqOf a huse hlo, hsize₁, hfs] at hsome
  obtain ⟨rfl, rfl⟩ := Prod.ext_iff.1 (Option.some.inj hsome)
  by_cases divide : MIN_FRAGMENT + QUEUESZ ≤ a.sz - size
  · -- the rest becomes an area of its own
    have part₂ := part₁.cut size (by omega) hpos
      (by unfold MIN_FRAGMENT QUEUESZ at *; omega) hout
    have hnode : L.node (a.blk + size + QUEUESZ) = a.blk + size := by
      unfold Layout.node
      rw [if_neg (by unfold QUEUESZ at *; omega)]
      exact Nat.add_sub_cancel _ _
    have hassoc : ∀ w : Area, xs ++ { a with sz := size } :: w :: ys =
        (xs ++ [{ a with sz := size }]) ++ w :: ys := fun w => by simp
    rw [hassoc] at part₂
    have happend := sound.appendRest part₂ (by
      show a.blk + size + QUEUESZ ≠ L.lo + QUEUESZ
      unfold QUEUESZ MIN_FRAGMENT at *
      omega)
    simp only [hnode] at happend
    have hnew : ∀ p ∈ freePairs cs₁, p.1 ≠ a.blk + size + QUEUESZ := by
      intro p hpm he
      obtain ⟨b, hb, hb1, -⟩ := part₁.sub p hpm
      have hne := hout p hpm
      rcases tile_apart h.part.tile ha hb with rfl | hap | hap <;>
        unfold QUEUESZ MIN_FRAGMENT at * <;> omega
    obtain ⟨cs₂, part₃, perm₃⟩ := part₂.append
      (by unfold QUEUESZ MIN_FRAGMENT at *; show 16 ≤ a.sz - size - 8; omega) hnew
    simp only [hnode, List.append_assoc, List.singleton_append] at part₃
    have part₅ := part₃.setFlag true
    rw [if_pos divide, happend, setAreaFlag_eq]
    exact ⟨xs, a, ys, _, cs₂, rfl, hu, hle, rfl,
      h.use_part hu hmod hmin divide part₅ perm₁ perm₃, .inr rfl⟩
  · rw [if_neg divide, setAreaFlag_eq]
    have part₂ := part₁.setFlag true
    exact ⟨xs, a, ys, _, cs₁, rfl, hu, hle, rfl, h.use_whole hu part₂ perm₁, .inl rfl⟩

theorem Rep.getBlk_some (h : Rep L v.c m as cs) (sound : v.Sound L) (hmod : size % 8 = 0)
    (hmin : MIN_FRAGMENT ≤ size) {m' : Qmem} (hsome : v.getBlk m size = some (q, m')) :
    Got L v.c m' as q size := by
  obtain ⟨xs, a, ys, as', cs', rfl, hu, hle, rfl, rep, hcut⟩ :=
    h.getBlk_split sound hmod hmin hsome
  have hused : useds (xs ++ a :: ys) = useds xs ++ useds ys := by
    rw [useds_append, useds_cons_free hu]
  rcases hcut with rfl | rfl
  · refine ⟨_, cs', a.sz, rep, hle, ?_⟩
    rw [useds_append, useds_cons_used rfl, hused]
    exact List.perm_middle
  · refine ⟨_, cs', size, rep, Nat.le_refl _, ?_⟩
    rw [useds_append, useds_cons_used rfl, useds_cons_free rfl, hused]
    exact List.perm_middle

/-- No free area is larger than those there were. -/
theorem Rep.getBlk_frees (h : Rep L v.c m as cs) (sound : v.Sound L) (hmod : size % 8 = 0)
    (hmin : MIN_FRAGMENT ≤ size) {m' : Qmem} (hsome : v.getBlk m size = some (q, m')) :
    ∃ as' cs', Rep L v.c m' as' cs' ∧
      ∀ x ∈ frees as', ∃ y ∈ frees as, x.2 ≤ y.2 := by
  obtain ⟨xs, a, ys, as', cs', rfl, hu, -, -, rep, hcut⟩ := h.getBlk_split sound hmod hmin hsome
  have hold : frees (xs ++ a :: ys) = frees xs ++ a.pair :: frees ys := by
    rw [frees_append, frees_cons_free hu]
  refine ⟨as', cs', rep, fun x hx => ?_⟩
  rw [hold]
  rcases hcut with rfl | rfl
  · rw [frees_append, frees_cons_used rfl] at hx
    refine ⟨x, ?_, Nat.le_refl _⟩
    simp only [List.mem_append, List.mem_cons] at hx ⊢
    tauto
  · rw [frees_append, frees_cons_used rfl, frees_cons_free rfl] at hx
    rcases List.mem_append.1 hx with hx | hx
    · exact ⟨x, List.mem_append_left _ hx, Nat.le_refl _⟩
    · rcases List.mem_cons.1 hx with rfl | hx
      · refine ⟨a.pair, by simp, ?_⟩
        show a.sz - size - QUEUESZ ≤ a.sz
        omega
      · exact ⟨x, by simp [hx], Nat.le_refl _⟩

/-! ## Releasing a block -/

/-- The block `a` is on its way back: its flag is cleared and it is not in the free queue, which
holds the free areas of `xs` and `ys`. -/
structure Loose (L : Layout) (c : Imacb) (m : Qmem) (xs : List Area) (a : Area) (ys : List Area)
    (cs : List Cls) : Prop where
  part : Part L c m (xs ++ a :: ys) cs
  perm : (freePairs cs).Perm (frees xs ++ frees ys)
  cleared : a.use = false
  left : NoAdj xs
  right : NoAdj ys
  usable : L.Usable a
  align : ∀ x ∈ xs ++ a :: ys, x.blk % 8 = L.lo % 8
  big : ∀ x ∈ xs ++ a :: ys, L.Usable x → MIN_FRAGMENT ≤ x.sz
  fixed : ∀ x ∈ xs ++ ys, ¬ L.Usable x → x.use = true

theorem Loose.next_at (h : Loose L c m xs a ys cs) :
    m.next (L.node a.blk) = (ys.map fun y => L.node y.blk).headD L.fin := by
  have areas := h.part.areas
  rw [List.map_append, List.map_cons] at areas
  have := areas.next_at (n := L.node a.blk) (b := a.use)
  rwa [cell_fst] at this

theorem Loose.prev_at (h : Loose L c m xs a ys cs) :
    m.prev (L.node a.blk) = (xs.map fun x => L.node x.blk).getLastD L.fin := by
  have areas := h.part.areas
  rw [List.map_append, List.map_cons] at areas
  have hmask := areas.prev_at (n := L.node a.blk) (b := a.use)
  rw [cell_fst] at hmask
  have hflag : m.chkAreaFlag (L.node a.blk) = a.use := areas.flag (L.cell a) (by simp)
  rw [h.cleared] at hflag
  unfold chkAreaFlag at hflag
  rw [← hmask, mask_even]
  have := Nat.mod_two_eq_zero_or_one (m.prev (L.node a.blk))
  rcases this with h0 | h1
  · exact h0
  · simp [h1] at hflag

theorem Part.chk (h : Part L c m as cs) (ha : a ∈ as) : m.chkAreaFlag (L.node a.blk) = a.use :=
  h.areas.flag (L.cell a) (List.mem_map_of_mem ha)

/-- A free neighbour is taken out of the free queue. -/
theorem Loose.takeFree (h : Loose L c m xs a ys cs) (hmem : b.pair ∈ frees xs ++ frees ys) :
    ∃ cs', Part L c (m.knlRemoveFreeQue b.blk) (xs ++ a :: ys) cs' ∧
      (b.pair :: freePairs cs').Perm (frees xs ++ frees ys) ∧
      ∀ p ∈ freePairs cs', p.1 ≠ b.blk := by
  obtain ⟨cs', part, perm, -⟩ := h.part.removeFree (h.perm.mem_iff.2 hmem)
  exact ⟨cs', part, perm.symm.trans h.perm, not_mem_of_removed h.part perm⟩

/-- No block of `xs` or `ys` begins where `a` does. -/
theorem Loose.not_self (h : Loose L c m xs a ys cs) {p : Nat × Nat}
    (hp : p ∈ frees xs ++ frees ys) : p.1 ≠ a.blk := by
  obtain ⟨hx, hy⟩ := tile_split h.part.tile
  rcases List.mem_append.1 hp with hp | hp
  · obtain ⟨x, hxm, -, rfl⟩ := mem_frees.1 hp
    have := hx x hxm
    show x.blk ≠ a.blk
    unfold QUEUESZ at this
    omega
  · obtain ⟨y, hym, -, rfl⟩ := mem_frees.1 hp
    have := hy y hym
    show y.blk ≠ a.blk
    unfold QUEUESZ at this
    omega

theorem mergeNext_loose (h : Loose L c m xs a ys cs) :
    ∃ a' ys' cs', Loose L c (Variant.mergeNext m (L.node a.blk)) xs a' ys' cs' ∧
      a'.blk = a.blk ∧ useds ys' = useds ys ∧ ∀ y ∈ ys'.head?, y.use = true := by
  unfold Variant.mergeNext
  rw [h.next_at]
  cases ys with
  | nil =>
    have hfin : m.chkAreaFlag L.fin = true := h.part.areas.fin_flag
    rw [List.map_nil, List.headD_nil, hfin]
    exact ⟨a, [], cs, h, rfl, rfl, by simp⟩
  | cons b ys =>
    have hb : b ∈ xs ++ a :: b :: ys := by simp
    rw [List.map_cons, List.headD_cons, h.part.chk hb]
    cases hu : b.use with
    | true => exact ⟨a, b :: ys, cs, h, rfl, rfl, by simp [hu]⟩
    | false =>
      have hlast := (tile_split h.part.tile).2 b List.mem_cons_self
      have hlo := (tile_mem h.part.tile (by simp : a ∈ xs ++ a :: b :: ys)).1
      have hnode : L.node b.blk + QUEUESZ = b.blk := by
        rcases tile_node h.part.tile hb with ⟨h1, -⟩ | ⟨-, h2⟩
        · unfold QUEUESZ at *
          omega
        · exact h2
      have hmem : b.pair ∈ frees xs ++ frees (b :: ys) := by
        rw [frees_cons_free hu]
        simp
      obtain ⟨cs', part, perm, hout⟩ := h.takeFree hmem
      have hperm : (freePairs cs').Perm (frees xs ++ frees ys) := by
        rw [frees_cons_free hu] at perm
        exact (List.perm_cons b.pair).1 (perm.trans List.perm_middle)
      have hself : ∀ p ∈ freePairs cs', p.1 ≠ a.blk := fun p hp => by
        refine h.not_self ?_
        exact perm.mem_iff.1 (List.mem_cons_of_mem _ hp)
      have part₂ := part.join fun p hp => ⟨hself p hp, hout p hp⟩
      have hright := noAdj_cons.1 h.right
      have hnext : (m.knlRemoveFreeQue b.blk).next (L.node a.blk) = L.node b.blk := by
        have areas := part.areas
        rw [List.map_append, List.map_cons] at areas
        have := areas.next_at (n := L.node a.blk) (b := a.use)
        rwa [cell_fst] at this
      simp only [Bool.not_false, if_true, hnode, hnext]
      refine ⟨_, ys, cs', ⟨part₂, hperm, h.cleared, h.left, hright.1, h.usable, ?_, ?_, ?_⟩, rfl,
        ?_, ?_⟩
      · intro x hx
        rcases mem_insert_iff.1 hx with rfl | hx
        · exact h.align a (by simp)
        · refine h.align x ?_
          simp only [List.mem_append, List.mem_cons] at hx ⊢
          tauto
      · intro x hx hux
        rcases mem_insert_iff.1 hx with rfl | hx
        · have := h.big a (by simp) h.usable
          show MIN_FRAGMENT ≤ a.sz + QUEUESZ + b.sz
          omega
        · refine h.big x ?_ hux
          simp only [List.mem_append, List.mem_cons] at hx ⊢
          tauto
      · intro x hx
        refine h.fixed x ?_
        simp only [List.mem_append, List.mem_cons] at hx ⊢
        tauto
      · rw [useds_cons_free hu]
      · intro y hy
        have := hright.2 y hy
        rwa [hu, Bool.false_eq_true, false_or] at this

theorem mergePrev_loose (sound : v.Sound L) (h : Loose L v.c m xs a ys cs) :
    ∃ xs' a' cs', Loose L v.c (v.mergePrev m (L.node a.blk)).2 xs' a' ys cs' ∧
      (v.mergePrev m (L.node a.blk)).1 = L.node a'.blk ∧ useds xs' = useds xs ∧
      ∀ x ∈ xs'.getLast?, x.use = true := by
  unfold Variant.mergePrev
  rw [h.prev_at]
  rcases List.eq_nil_or_concat' xs with rfl | ⟨xs, w, rfl⟩
  · have hfin : m.chkAreaFlag L.fin = true := h.part.areas.fin_flag
    rw [List.map_nil, List.getLastD_nil, hfin]
    exact ⟨[], a, cs, h, rfl, rfl, by simp⟩
  · have hw : w ∈ (xs ++ [w]) ++ a :: ys := by simp
    rw [List.map_append, List.map_cons, List.map_nil, List.getLastD_concat, h.part.chk hw]
    cases hu : w.use with
    | true => exact ⟨xs ++ [w], a, cs, h, rfl, rfl, by simp [hu]⟩
    | false =>
      have huse : L.Usable w := by
        by_contra hn
        rw [h.fixed w (by simp) hn] at hu
        cases hu
      have hmem : w.pair ∈ frees (xs ++ [w]) ++ frees ys := by
        rw [frees_append, frees_cons_free hu]
        simp
      obtain ⟨cs', part, perm, hout⟩ := h.takeFree hmem
      have hperm : (freePairs cs').Perm (frees xs ++ frees ys) := by
        have hnil : frees [] = [] := rfl
        rw [frees_append, frees_cons_free hu, hnil, List.append_assoc, List.singleton_append] at perm
        exact (List.perm_cons w.pair).1 (perm.trans List.perm_middle)
      have hself : ∀ p ∈ freePairs cs', p.1 ≠ a.blk := fun p hp => by
        refine h.not_self ?_
        exact perm.mem_iff.1 (List.mem_cons_of_mem _ hp)
      have hassoc : xs ++ [w] ++ a :: ys = xs ++ w :: a :: ys := by simp
      have part₁ := part
      rw [hassoc] at part₁
      have part₂ := part₁.join fun p hp => ⟨hout p hp, hself p hp⟩
      have hleft := noAdj_concat.1 h.left
      have hnext : (m.knlRemoveFreeQue w.blk).next (L.node w.blk) = L.node a.blk := by
        have areas := part₁.areas
        rw [List.map_append, List.map_cons] at areas
        have := areas.next_at (n := L.node w.blk) (b := w.use)
        rwa [cell_fst] at this
      simp only [Bool.not_false, if_true, sound.fqOf h.part w hw huse, hnext]
      refine ⟨xs, _, cs', ⟨part₂, hperm, hu, hleft.1, h.right, huse, ?_, ?_, ?_⟩, rfl, ?_, ?_⟩
      · intro x hx
        rcases mem_insert_iff.1 hx with rfl | hx
        · exact h.align w hw
        · refine h.align x ?_
          simp only [List.mem_append, List.mem_cons] at hx ⊢
          tauto
      · intro x hx hux
        rcases mem_insert_iff.1 hx with rfl | hx
        · have := h.big w hw huse
          show MIN_FRAGMENT ≤ w.sz + QUEUESZ + a.sz
          omega
        · refine h.big x ?_ hux
          simp only [List.mem_append, List.mem_cons] at hx ⊢
          tauto
      · intro x hx
        refine h.fixed x ?_
        simp only [List.mem_append, List.mem_cons] at hx ⊢
        tauto
      · rw [useds_append, useds_cons_free hu]
        exact (List.append_nil _).symm
      · intro x hx
        have := hleft.2 x hx
        rwa [hu, Bool.false_eq_true, or_false] at this

/-- A used block is released. -/
theorem Rep.relBlk (h : Rep L v.c m as cs) (sound : v.Sound L) (ha : a ∈ as) (hu : a.use = true)
    (huse : L.Usable a) :
    ∃ as' cs', Rep L v.c (v.relBlk m a.blk) as' cs' ∧ (useds as).Perm (a.pair :: useds as') := by
  obtain ⟨xs, ys, rfl⟩ := List.append_of_mem ha
  have hlo := (tile_mem h.part.tile ha).1
  have hperm := h.perm
  rw [frees_append, frees_cons_used hu] at hperm
  obtain ⟨h1, h2, -, -⟩ := noAdj_split.1 h.noAdj
  have part₁ := h.part.setFlag false
  rw [← clrAreaFlag_eq] at part₁
  have loose : Loose L v.c (m.clrAreaFlag (L.node a.blk)) xs { a with use := false } ys cs := by
    refine ⟨part₁, hperm, rfl, h1, h2, huse, ?_, ?_, ?_⟩
    · intro x hx
      rcases mem_insert_iff.1 hx with rfl | hx
      · exact h.align a ha
      · exact h.align x (mem_insert_iff.2 (.inr hx))
    · intro x hx hux
      rcases mem_insert_iff.1 hx with rfl | hx
      · exact h.big a ha huse
      · exact h.big x (mem_insert_iff.2 (.inr hx)) hux
    · exact fun x hx => h.fixed x (mem_insert_iff.2 (.inr hx))
  obtain ⟨a₂, ys₂, cs₂, loose₂, hblk₂, hused₂, hhead⟩ := mergeNext_loose loose
  have hblk₂ : a₂.blk = a.blk := hblk₂
  obtain ⟨xs₃, a₃, cs₃, loose₃, hnode₃, hused₃, hlast⟩ := mergePrev_loose sound loose₂
  rw [hblk₂] at loose₃ hnode₃
  unfold Variant.relBlk
  simp only [sound.aqOf a huse hlo, hnode₃]
  rw [sound.append loose₃.part loose₃.usable]
  have hbig := loose₃.big a₃ (by simp) loose₃.usable
  obtain ⟨cs', part', perm'⟩ := loose₃.part.append hbig fun p hp =>
    loose₃.not_self (loose₃.perm.mem_iff.1 hp)
  have hsame : ({ a₃ with use := false } : Area) = a₃ := by rw [← loose₃.cleared]
  rw [hsame] at part'
  refine ⟨_, cs', ⟨part', ?_, ?_, loose₃.align, loose₃.big, ?_⟩, ?_⟩
  · rw [frees_append, frees_cons_free loose₃.cleared]
    exact (perm'.trans (loose₃.perm.cons _)).trans List.perm_middle.symm
  · refine noAdj_split.2 ⟨loose₃.left, loose₃.right, fun x hx => .inl (hlast x hx),
      fun y hy => .inr (hhead y hy)⟩
  · intro x hx hux
    rcases mem_insert_iff.1 hx with rfl | hx
    · exact absurd loose₃.usable hux
    · exact loose₃.fixed x hx hux
  · rw [useds_append, useds_cons_used hu, useds_append, useds_cons_free loose₃.cleared, hused₂, hused₃]
    exact List.perm_middle

end

end Mtk3Smp
