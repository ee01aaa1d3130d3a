import Mtk3Smp.Mem.Areas
import Mathlib.Data.List.Perm.Subperm

/-!
# Areas and the free queue together

`Part L c m as cs`: the headers of the areas `as` are linked up in `m`, and the areas in the
free queue are some of them. Taking an area out of the queue, putting one in, cutting and
joining areas and changing flags keep this, since the cells of different areas never meet.
-/

namespace Mtk3Smp

open DList Qmem

structure Part (L : Layout) (c : Imacb) (m : Qmem) (as : List Area) (cs : List Cls) : Prop where
  ok : L.Ok c
  areas : AreaRep m L.fin (as.map L.cell)
  tile : Tile L.lo as L.limit
  align : ∀ a ∈ as, a.blk % 2 = 0
  free : FreeRep m c.freeque cs
  sub : ∀ p ∈ freePairs cs, ∃ a ∈ as, a.blk = p.1 ∧ a.sz = p.2 ∧ MIN_FRAGMENT ≤ a.sz

section

variable {L : Layout} {c : Imacb} {m m' : Qmem} {as xs ys : List Area} {cs cs' : List Cls}
  {a b : Area} {q sz : Nat}

/-- The headers of the areas with their flags. -/
theorem cell_fst (as : List Area) : (as.map L.cell).map Prod.fst = as.map fun a => L.node a.blk := by
  simp [Layout.cell, Function.comp_def]

/-- No header lies inside a block. -/
theorem node_out (ok : L.Ok c) (tile : Tile L.lo as L.limit) (ha : a ∈ as) {n : Nat}
    (hn : n ∈ L.fin :: as.map fun b => L.node b.blk) : n < a.blk ∨ a.blk + a.sz ≤ n := by
  have hin := tile_mem tile ha
  have hfin := ok.fin_out
  have haq := ok.areaque_out
  rcases List.mem_cons.1 hn with rfl | hn
  · omega
  · obtain ⟨b, hb, rfl⟩ := List.mem_map.1 hn
    rcases tile_node tile hb with ⟨h1, h2⟩ | ⟨h1, h2⟩
    · omega
    · rcases tile_apart tile ha hb with rfl | hap | hap
      · unfold QUEUESZ at h2
        omega
      · omega
      · unfold QUEUESZ at *
        omega

/-- The first two cells of a block of at least MIN_FRAGMENT bytes are not headers. -/
theorem node_off (ok : L.Ok c) (tile : Tile L.lo as L.limit) (ha : a ∈ as)
    (hsz : MIN_FRAGMENT ≤ a.sz) :
    ∀ n ∈ L.fin :: as.map (fun a => L.node a.blk), n ≠ a.blk ∧ n ≠ a.blk + QUEUESZ := by
  intro n hn
  have hout := node_out ok tile ha hn
  unfold MIN_FRAGMENT at hsz
  unfold QUEUESZ
  constructor <;> omega

/-- The head of the free queue is not a header either. -/
theorem freeque_off (ok : L.Ok c) (tile : Tile L.lo as L.limit) :
    c.freeque ∉ L.fin :: as.map fun a => L.node a.blk := by
  intro hn
  have hfq := ok.freeque_out
  rcases List.mem_cons.1 hn with he | hn
  · exact ok.freeque_ne.2 he
  · obtain ⟨b, hb, he⟩ := List.mem_map.1 hn
    have hbin := tile_mem tile hb
    rcases tile_node tile hb with ⟨h1, h2⟩ | ⟨h1, h2⟩
    · rw [h2] at he
      exact ok.freeque_ne.1 he.symm
    · unfold QUEUESZ at *
      omega

/-- The cells of the free queue are none of the headers. -/
theorem Part.free_off (h : Part L c m as cs) {n : Nat} (hf : FreeCell c.freeque cs n) :
    n ∉ L.fin :: (as.map L.cell).map Prod.fst := by
  rw [cell_fst]
  intro hn
  rcases hf with rfl | ⟨p, hp, he⟩
  · exact freeque_off h.ok h.tile hn
  · obtain ⟨a, ha, hb, -, hsz⟩ := h.sub p hp
    have := node_off h.ok h.tile ha hsz n hn
    rw [hb] at this
    rcases he with he | he
    · exact this.1 he
    · exact this.2 he

/-- The cells of areas that are not in the free queue are new for it. -/
theorem Part.newArea (h : Part L c m as cs) (ha : a ∈ as) (hsz : MIN_FRAGMENT ≤ a.sz)
    (hout : ∀ p ∈ freePairs cs, p.1 ≠ a.blk) : NewArea c.freeque a.blk cs := by
  have hin := tile_mem h.tile ha
  have hfq := h.ok.freeque_out
  unfold MIN_FRAGMENT at hsz
  refine ⟨fun p hp => ?_, ?_⟩
  · obtain ⟨b, hb, hb1, -, hbsz⟩ := h.sub p hp
    have hne := hout p hp
    rw [← hb1] at hne ⊢
    unfold MIN_FRAGMENT at hbsz
    rcases tile_apart h.tile ha hb with rfl | hap | hap
    · exact absurd rfl hne
    · unfold Apart QUEUESZ at *
      omega
    · unfold Apart QUEUESZ at *
      omega
  · unfold QUEUESZ NULL at *
    omega

/-- The header behind an area, from its own. -/
theorem Part.next_eq (h : Part L c m (xs ++ a :: ys) cs) :
    m.next (L.node a.blk) = if ys = [] then L.fin else a.blk + a.sz := by
  have areas := h.areas
  rw [List.map_append, List.map_cons] at areas
  have hnext := areas.next_at (n := L.node a.blk) (b := a.use)
  rw [cell_fst] at hnext
  exact hnext.trans (tile_next h.tile)

/-- `knl_removeFreeQue` on a free area. -/
theorem Part.removeFree (h : Part L c m as cs) (hq : (q, sz) ∈ freePairs cs) :
    ∃ cs', Part L c (m.knlRemoveFreeQue q) as cs' ∧
      (freePairs cs).Perm ((q, sz) :: freePairs cs') ∧
      (m.knlRemoveFreeQue q).freeSize q = m.freeSize q := by
  obtain ⟨cs', hr⟩ := h.free.remove hq
  refine ⟨cs', { h with areas := ?_, free := hr.rep, sub := ?_ }, hr.perm, hr.size⟩
  · refine h.areas.congr fun n hn => ?_
    exact hr.off n fun hf => h.free_off hf hn
  · exact fun p hp => h.sub p (hr.perm.mem_iff.2 (List.mem_cons_of_mem _ hp))

/-- A flag is set or cleared. -/
theorem Part.setFlag (h : Part L c m (xs ++ a :: ys) cs) (u : Bool) :
    Part L c (m.setPrev (L.node a.blk) (mask (m.prev (L.node a.blk)) + u.toNat))
      (xs ++ { a with use := u } :: ys) cs := by
  have hmap : (xs ++ a :: ys).map L.cell =
      xs.map L.cell ++ (L.node a.blk, a.use) :: ys.map L.cell := by
    simp [Layout.cell]
  have hmap' : (xs ++ { a with use := u } :: ys).map L.cell =
      xs.map L.cell ++ (L.node a.blk, u) :: ys.map L.cell := by
    simp [Layout.cell]
  have areas := h.areas
  rw [hmap] at areas
  refine ⟨h.ok, ?_, ?_, ?_, ?_, ?_⟩
  · rw [hmap']
    exact areas.setFlag
  · have tile := h.tile
    rw [tile_append] at tile ⊢
    exact tile
  · intro b hb
    have hb' : b = { a with use := u } ∨ b ∈ xs ++ a :: ys := by
      simp only [List.mem_append, List.mem_cons] at hb ⊢
      tauto
    rcases hb' with rfl | hb'
    · exact h.align a (by simp)
    · exact h.align b hb'
  · refine h.free.congr fun n hn => ⟨rfl, Function.update_of_ne ?_ _ _⟩
    rintro rfl
    refine h.free_off hn ?_
    rw [hmap]
    simp
  · intro p hp
    obtain ⟨b, hb, hb1, hb2, hb3⟩ := h.sub p hp
    have hb' : b = a ∨ b ∈ xs ++ ys := by
      simp only [List.mem_append, List.mem_cons] at hb ⊢
      tauto
    rcases hb' with rfl | hb'
    · exact ⟨{ b with use := u }, by simp, hb1, hb2, hb3⟩
    · refine ⟨b, ?_, hb1, hb2, hb3⟩
      simp only [List.mem_append, List.mem_cons] at hb' ⊢
      tauto

/-- The registration of an area with its flag cleared, as both append functions do it. -/
def appendArea (m : Qmem) (c : Imacb) (aq q size : Nat) : Qmem :=
  (m.clrAreaFlag aq).registerFree c q size (m.knlSearchFreeArea c size)

theorem length_le_pairs (cs : List Cls) : cs.length ≤ (freePairs cs).length := by
  induction cs with
  | nil => exact Nat.le_refl 0
  | cons d cs ih =>
    rw [freePairs_cons, List.length_append, List.length_map]
    have : 1 ≤ d.blks.length := by simp [Cls.blks]
    rw [List.length_cons]
    omega

theorem tile_length {s l : Nat} (h : Tile s as l) : s + QUEUESZ * as.length ≤ l := by
  induction as generalizing s with
  | nil => exact Nat.le_of_eq h
  | cons a as ih =>
    have := ih h.2
    rw [List.length_cons]
    unfold QUEUESZ at *
    omega

theorem Part.nodup (h : Part L c m as cs) : ((freePairs cs).map Prod.fst).Nodup :=
  h.free.apart.imp fun hab => hab.1

/-- There are fewer free areas than bytes. -/
theorem Part.pairs_le (h : Part L c m as cs) : L.lo + QUEUESZ * (freePairs cs).length ≤ L.limit := by
  have hsub : ((freePairs cs).map Prod.fst).length ≤ (as.map Area.blk).length := by
    refine (List.subperm_of_subset h.nodup fun q hq => ?_).length_le
    obtain ⟨p, hp, rfl⟩ := List.mem_map.1 hq
    obtain ⟨a, ha, hb, -⟩ := h.sub p hp
    exact List.mem_map.2 ⟨a, ha, hb⟩
  rw [List.length_map, List.length_map] at hsub
  have h2 := tile_length h.tile
  unfold QUEUESZ at *
  omega

theorem Part.length_le (h : Part L c m as cs) : L.lo + QUEUESZ * cs.length ≤ L.limit := by
  have h1 := length_le_pairs cs
  have h2 := h.pairs_le
  unfold QUEUESZ at *
  omega

/-- The search finds the first class that is large enough. -/
theorem Part.search (h : Part L c m as cs) {blksz : Nat} (hpos : 0 < blksz) :
    m.knlSearchFreeArea c blksz = searchResult c.freeque blksz cs := by
  refine knlSearchFreeArea_eq h.free ?_ hpos
  have h1 := h.length_le
  have h2 := h.ok.memsz
  unfold QUEUESZ MIN_FRAGMENT at *
  omega

/-- An area is put into the free queue. -/
theorem Part.append (h : Part L c m (xs ++ a :: ys) cs)
    (hsz : MIN_FRAGMENT ≤ a.sz) (hout : ∀ p ∈ freePairs cs, p.1 ≠ a.blk) :
    ∃ cs', Part L c (appendArea m c (L.node a.blk) a.blk a.sz)
        (xs ++ { a with use := false } :: ys) cs' ∧
      (freePairs cs').Perm ((a.blk, a.sz) :: freePairs cs) := by
  have hclr : m.clrAreaFlag (L.node a.blk) =
      m.setPrev (L.node a.blk) (mask (m.prev (L.node a.blk)) + false.toNat) := rfl
  have hflag := h.setFlag false
  rw [← hclr] at hflag
  have hpos : 0 < a.sz := by
    unfold MIN_FRAGMENT at hsz
    omega
  have hnew := hflag.newArea (a := { a with use := false }) (by simp) hsz hout
  unfold appendArea
  rw [h.search hpos]
  obtain ⟨cs', hr⟩ := hflag.free.register hnew a.sz
  refine ⟨cs', { hflag with areas := ?_, free := hr.rep, sub := ?_ }, hr.perm⟩
  · refine hflag.areas.congr fun n hn => hr.off n ?_
    rintro (hf | he | he)
    · exact hflag.free_off hf hn
    · rw [cell_fst] at hn
      exact (node_off h.ok hflag.tile (a := { a with use := false }) (by simp) hsz n hn).1 he
    · rw [cell_fst] at hn
      exact (node_off h.ok hflag.tile (a := { a with use := false }) (by simp) hsz n hn).2 he
  · intro p hp
    rcases List.mem_cons.1 (hr.perm.mem_iff.1 hp) with rfl | hp
    · exact ⟨{ a with use := false }, by simp, rfl, rfl, hsz⟩
    · exact hflag.sub p hp

/-- An area that is not in the free queue is cut in two. -/
theorem Part.cut (h : Part L c m (xs ++ a :: ys) cs) (size : Nat) (heven : size % 2 = 0)
    (hpos : 0 < size) (hle : size + QUEUESZ < a.sz) (hout : ∀ p ∈ freePairs cs, p.1 ≠ a.blk) :
    Part L c (m.knlInsertAreaQue (L.node a.blk) (a.blk + size))
      (xs ++ { a with sz := size } ::
        ⟨a.blk + size + QUEUESZ, a.sz - size - QUEUESZ, false⟩ :: ys) cs := by
  have ha : a ∈ xs ++ a :: ys := by simp
  have hin := tile_mem h.tile ha
  have hmap : (xs ++ a :: ys).map L.cell =
      xs.map L.cell ++ (L.node a.blk, a.use) :: ys.map L.cell := by
    simp [Layout.cell]
  have hnode : L.node (a.blk + size + QUEUESZ) = a.blk + size := by
    unfold Layout.node
    rw [if_neg (by unfold QUEUESZ at *; omega)]
    exact Nat.add_sub_cancel _ _
  have areas := h.areas
  rw [hmap] at areas
  have hfresh' : a.blk + size ∉ L.fin :: (xs.map L.cell ++ (L.node a.blk, a.use) ::
      ys.map L.cell).map Prod.fst := by
    rw [← hmap, cell_fst]
    intro hn
    have hout := node_out h.ok h.tile ha hn
    omega
  obtain ⟨areas', hoff⟩ := areas.insert (e := a.blk + size) (by have := h.align a ha; omega) hfresh'
  refine ⟨h.ok, ?_, ?_, ?_, ?_, ?_⟩
  · have hmap' : (xs ++ { a with sz := size } ::
        ⟨a.blk + size + QUEUESZ, a.sz - size - QUEUESZ, false⟩ :: ys).map L.cell =
        xs.map L.cell ++ (L.node a.blk, a.use) :: (a.blk + size, false) :: ys.map L.cell := by
      simp [Layout.cell, hnode]
    rw [hmap']
    exact areas'
  · exact tile_cut h.tile (by omega) a.use false
  · intro b hb
    have hb' : b = { a with sz := size } ∨
        b = ⟨a.blk + size + QUEUESZ, a.sz - size - QUEUESZ, false⟩ ∨ b ∈ xs ++ a :: ys := by
      simp only [List.mem_append, List.mem_cons] at hb ⊢
      tauto
    have heven' := h.align a ha
    rcases hb' with rfl | rfl | hb'
    · exact heven'
    · show (a.blk + size + QUEUESZ) % 2 = 0
      unfold QUEUESZ
      omega
    · exact h.align b hb'
  · refine h.free.congr fun n hn => hoff n ?_
    rintro (rfl | hm)
    · -- the new header is no cell of another block
      rcases hn with he | ⟨p, hp, he⟩
      · have hfq := h.ok.freeque_out
        unfold QUEUESZ at *
        omega
      · obtain ⟨b, hb, hb1, -, hbsz⟩ := h.sub p hp
        have hne := hout p hp
        rw [← hb1] at hne he
        unfold MIN_FRAGMENT at hbsz
        rcases tile_apart h.tile ha hb with rfl | hap | hap
        · exact hne rfl
        · unfold QUEUESZ at *
          omega
        · unfold QUEUESZ at *
          omega
    · exact h.free_off hn (by rw [hmap]; exact hm)
  · intro p hp
    obtain ⟨b, hb, hb1, hb2, hb3⟩ := h.sub p hp
    have hb' : b = a ∨ b ∈ xs ++ ys := by
      simp only [List.mem_append, List.mem_cons] at hb ⊢
      tauto
    rcases hb' with rfl | hb'
    · exact absurd hb1.symm (hout p hp)
    · refine ⟨b, ?_, hb1, hb2, hb3⟩
      simp only [List.mem_append, List.mem_cons] at hb' ⊢
      tauto

/-- Two areas that are not in the free queue are joined. -/
theorem Part.join (h : Part L c m (xs ++ a :: b :: ys) cs)
    (hout : ∀ p ∈ freePairs cs, p.1 ≠ a.blk ∧ p.1 ≠ b.blk) :
    Part L c (m.knlRemoveAreaQue (L.node b.blk))
      (xs ++ { a with sz := a.sz + QUEUESZ + b.sz } :: ys) cs := by
  have hmap : (xs ++ a :: b :: ys).map L.cell =
      (xs ++ [a]).map L.cell ++ (L.node b.blk, b.use) :: ys.map L.cell := by
    simp [Layout.cell]
  have areas := h.areas
  rw [hmap] at areas
  obtain ⟨areas', hoff⟩ := areas.remove
  refine ⟨h.ok, ?_, tile_join h.tile a.use, ?_, ?_, ?_⟩
  · have hmap' : (xs ++ { a with sz := a.sz + QUEUESZ + b.sz } :: ys).map L.cell =
        (xs ++ [a]).map L.cell ++ ys.map L.cell := by
      simp [Layout.cell]
    rw [hmap']
    exact areas'
  · intro x hx
    have hx' : x = { a with sz := a.sz + QUEUESZ + b.sz } ∨ x ∈ xs ++ a :: b :: ys := by
      simp only [List.mem_append, List.mem_cons] at hx ⊢
      tauto
    rcases hx' with rfl | hx'
    · exact h.align a (by simp)
    · exact h.align x hx'
  · refine h.free.congr fun n hn => hoff n fun hm => h.free_off hn ?_
    rw [hmap]
    have hsub : ((xs ++ [a]).map L.cell ++ ys.map L.cell).Sublist
        ((xs ++ [a]).map L.cell ++ (L.node b.blk, b.use) :: ys.map L.cell) :=
      (List.Sublist.refl _).append (List.sublist_cons_self _ _)
    exact ((hsub.map Prod.fst).cons_cons L.fin).subset hm
  · intro p hp
    obtain ⟨x, hx, h1, h2, h3⟩ := h.sub p hp
    have hne := hout p hp
    have hx' : x = a ∨ x = b ∨ x ∈ xs ++ ys := by
      simp only [List.mem_append, List.mem_cons] at hx ⊢
      tauto
    rcases hx' with rfl | rfl | hx'
    · exact absurd h1.symm hne.1
    · exact absurd h1.symm hne.2
    · refine ⟨x, ?_, h1, h2, h3⟩
      simp only [List.mem_append, List.mem_cons] at hx' ⊢
      tauto

end

end Mtk3Smp
