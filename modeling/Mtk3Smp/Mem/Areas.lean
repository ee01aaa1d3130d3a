import Mtk3Smp.Mem.FreeQueUpdate

/-!
# The area queue

An area is a block of memory behind a header. The areas tile the managed memory in address
order and their headers form a ring; the first header may lie elsewhere (`areaque` of a memory
pool), and so does the end of the ring. `Part` ties the ring to the areas and to those of them
that are in the free queue.
-/

namespace Mtk3Smp

open DList Qmem

/-- A block of `sz` bytes at `blk`; `use` is the flag in its header. -/
structure Area where
  blk : Nat
  sz : Nat
  use : Bool
  deriving DecidableEq

/-- Where the queues lie: the first block begins at `lo + QUEUESZ`, and the last one ends at
`limit`. `fixed`: the first block is none that is ever allocated. -/
structure Layout where
  lo : Nat
  limit : Nat
  areaque : Nat
  fin : Nat
  fixed : Bool

structure Layout.Ok (L : Layout) (c : Imacb) : Prop where
  memsz : MIN_FRAGMENT ≤ c.memsz ∧ L.limit ≤ L.lo + QUEUESZ + c.memsz + QUEUESZ
  lo_even : L.lo % 2 = 0
  areaque_even : L.areaque % 2 = 0
  fin_even : L.fin % 2 = 0
  areaque_out : L.areaque < L.lo + QUEUESZ ∨ L.limit ≤ L.areaque
  fin_out : L.fin < L.lo + QUEUESZ ∨ L.limit ≤ L.fin
  freeque_out : c.freeque < L.lo + QUEUESZ ∨ L.limit ≤ c.freeque
  areaque_ne : L.areaque ≠ L.fin
  freeque_ne : c.freeque ≠ L.areaque ∧ c.freeque ≠ L.fin

/-- The header of the block at `blk`. -/
def Layout.node (L : Layout) (blk : Nat) : Nat :=
  if blk = L.lo + QUEUESZ then L.areaque else blk - QUEUESZ

def Layout.cell (L : Layout) (a : Area) : Nat × Bool := (L.node a.blk, a.use)

/-- The areas fill the memory from the header at `s` up to `l`. -/
def Tile : Nat → List Area → Nat → Prop
  | s, [], l => s = l
  | s, a :: rest, l => a.blk = s + QUEUESZ ∧ Tile (s + QUEUESZ + a.sz) rest l

/-- The headers `ns` with their flags form a ring with `fin`, whose own flag is set. -/
structure AreaRep (m : Qmem) (fin : Nat) (ns : List (Nat × Bool)) : Prop where
  ring : DList.Ring m.next (fun q => mask (m.prev q)) fin (ns.map Prod.fst)
  flag : ∀ n ∈ ns, m.chkAreaFlag n.1 = n.2
  fin_flag : m.chkAreaFlag fin = true
  even : ∀ n ∈ ns, n.1 % 2 = 0
  fin_even : fin % 2 = 0
  nodup : (fin :: ns.map Prod.fst).Nodup

section

variable {s k l : Nat} {xs ys as : List Area} {a b : Area}

theorem tile_append : Tile s (xs ++ ys) l ↔ ∃ k, Tile s xs k ∧ Tile k ys l := by
  induction xs generalizing s with
  | nil => simp [Tile]
  | cons a xs ih =>
    simp only [List.cons_append, Tile, ih]
    constructor
    · rintro ⟨h, k, h1, h2⟩
      exact ⟨k, ⟨h, h1⟩, h2⟩
    · rintro ⟨k, ⟨h, h1⟩, h2⟩
      exact ⟨h, k, h1, h2⟩

theorem tile_le (h : Tile s as l) : s ≤ l := by
  induction as generalizing s with
  | nil => exact Nat.le_of_eq h
  | cons a as ih =>
    have := ih h.2
    omega

theorem tile_mem (h : Tile s as l) (ha : a ∈ as) : s + QUEUESZ ≤ a.blk ∧ a.blk + a.sz ≤ l := by
  induction as generalizing s with
  | nil => cases ha
  | cons b as ih =>
    obtain ⟨hb, hrest⟩ := h
    rcases List.mem_cons.1 ha with rfl | ha
    · have := tile_le hrest
      omega
    · have := ih hrest ha
      omega

/-- Where `a` lies, between the areas before it and those behind. -/
theorem tile_split (h : Tile s (xs ++ a :: ys) l) :
    (∀ x ∈ xs, x.blk + x.sz + QUEUESZ ≤ a.blk) ∧
      ∀ y ∈ ys, a.blk + a.sz + QUEUESZ ≤ y.blk := by
  obtain ⟨k, hx, ha, hy⟩ := tile_append.1 h
  constructor
  · intro x hx'
    have := tile_mem hx hx'
    omega
  · intro y hy'
    have := tile_mem hy hy'
    omega

/-- Different blocks do not meet, and there is room for a header between them. -/
theorem tile_apart (h : Tile s as l) (ha : a ∈ as) (hb : b ∈ as) :
    a = b ∨ a.blk + a.sz + QUEUESZ ≤ b.blk ∨ b.blk + b.sz + QUEUESZ ≤ a.blk := by
  obtain ⟨xs, ys, rfl⟩ := List.append_of_mem ha
  obtain ⟨hx, hy⟩ := tile_split h
  rcases List.mem_append.1 hb with hb | hb
  · exact .inr (.inr (hx b hb))
  · rcases List.mem_cons.1 hb with rfl | hb
    · exact .inl rfl
    · exact .inr (.inl (hy b hb))

theorem tile_eq_of_blk (h : Tile s as l) (ha : a ∈ as) (hb : b ∈ as) (he : a.blk = b.blk) : a = b := by
  rcases tile_apart h ha hb with heq | hlt | hlt
  · exact heq
  · unfold QUEUESZ at hlt
    omega
  · unfold QUEUESZ at hlt
    omega

/-- Only the first header is not in front of its block. -/
theorem tile_node {L : Layout} (h : Tile L.lo as L.limit) (ha : a ∈ as) :
    (a.blk = L.lo + QUEUESZ ∧ L.node a.blk = L.areaque) ∨
      (L.lo + QUEUESZ + QUEUESZ ≤ a.blk ∧ L.node a.blk + QUEUESZ = a.blk) := by
  unfold Layout.node
  by_cases first : a.blk = L.lo + QUEUESZ
  · rw [if_pos first]
    exact .inl ⟨first, rfl⟩
  · rw [if_neg first]
    cases as with
    | nil => cases ha
    | cons b as =>
      obtain ⟨hb, hrest⟩ := h
      rcases List.mem_cons.1 ha with rfl | ha
      · exact absurd hb first
      · have := (tile_mem hrest ha).1
        exact .inr ⟨by omega, by omega⟩

/-- The header behind `a`. -/
theorem tile_next {L : Layout} (h : Tile L.lo (xs ++ a :: ys) L.limit) :
    (ys.map fun y => L.node y.blk).headD L.fin = if ys = [] then L.fin else a.blk + a.sz := by
  cases ys with
  | nil => simp
  | cons y ys =>
    obtain ⟨k, -, ha, hy, -⟩ := tile_append.1 h
    have hlo := tile_mem h (by simp : a ∈ xs ++ a :: y :: ys)
    rw [List.map_cons, List.headD_cons, if_neg (by simp), Layout.node, if_neg (by unfold QUEUESZ at *; omega)]
    omega

theorem tile_last (h : Tile s (xs ++ [a]) l) : a.blk + a.sz = l := by
  obtain ⟨k, -, ha, hl⟩ := tile_append.1 h
  have hl : k + QUEUESZ + a.sz = l := hl
  omega

/-- A block is cut in two. -/
theorem tile_cut {size : Nat} (h : Tile s (xs ++ a :: ys) l) (hle : size + QUEUESZ ≤ a.sz)
    (u v : Bool) : Tile s (xs ++ ⟨a.blk, size, u⟩ ::
      ⟨a.blk + size + QUEUESZ, a.sz - size - QUEUESZ, v⟩ :: ys) l := by
  obtain ⟨k, hx, ha, hy⟩ := tile_append.1 h
  refine tile_append.2 ⟨k, hx, ha, ?_, ?_⟩
  · show a.blk + size + QUEUESZ = k + QUEUESZ + size + QUEUESZ
    omega
  · have : k + QUEUESZ + size + QUEUESZ + (a.sz - size - QUEUESZ) = k + QUEUESZ + a.sz := by omega
    show Tile (k + QUEUESZ + size + QUEUESZ + (a.sz - size - QUEUESZ)) ys l
    rw [this]
    exact hy

/-- Two blocks are joined. -/
theorem tile_join (h : Tile s (xs ++ a :: b :: ys) l) (u : Bool) :
    Tile s (xs ++ ⟨a.blk, a.sz + QUEUESZ + b.sz, u⟩ :: ys) l := by
  obtain ⟨k, hx, ha, hb, hy⟩ := tile_append.1 h
  refine tile_append.2 ⟨k, hx, ha, ?_⟩
  show Tile (k + QUEUESZ + (a.sz + QUEUESZ + b.sz)) ys l
  have : k + QUEUESZ + (a.sz + QUEUESZ + b.sz) = k + QUEUESZ + a.sz + QUEUESZ + b.sz := by omega
  rw [this]
  exact hy

end

/-! ## Flags and links of the headers -/

section

variable {m m' : Qmem} {fin n e : Nat} {b u : Bool} {ns xs ys : List (Nat × Bool)}

theorem mask_even {x : Nat} (h : x % 2 = 0) : mask x = x := by
  unfold mask
  omega

theorem AreaRep.congr (h : AreaRep m fin ns)
    (hs : ∀ q ∈ fin :: ns.map Prod.fst, m'.next q = m.next q ∧ m'.prev q = m.prev q) :
    AreaRep m' fin ns := by
  refine { h with ring := ?_, flag := ?_, fin_flag := ?_ }
  · refine h.ring.congr (fun q hq => (hs q hq).1) fun q hq => ?_
    show mask (m'.prev q) = mask (m.prev q)
    rw [(hs q hq).2]
  · intro x hx
    unfold chkAreaFlag
    rw [(hs x.1 (List.mem_cons_of_mem _ (List.mem_map_of_mem hx))).2]
    exact h.flag x hx
  · unfold chkAreaFlag
    rw [(hs fin List.mem_cons_self).2]
    exact h.fin_flag

/-- A flag is set or cleared. -/
theorem AreaRep.setFlag (h : AreaRep m fin (xs ++ (n, b) :: ys)) :
    AreaRep (m.setPrev n (mask (m.prev n) + u.toNat)) fin (xs ++ (n, u) :: ys) := by
  have hfst : (xs ++ (n, u) :: ys).map Prod.fst = (xs ++ (n, b) :: ys).map Prod.fst := by simp
  have nodup := h.nodup
  rw [List.map_append, List.map_cons, ← List.cons_append] at nodup
  have hdis := (List.nodup_append.1 nodup).2.2
  have hne : ∀ x ∈ xs ++ ys, x.1 ≠ n := by
    intro x hx
    rcases List.mem_append.1 hx with hx | hx
    · exact hdis x.1 (List.mem_cons_of_mem _ (List.mem_map_of_mem hx)) n List.mem_cons_self
    · intro he
      have hm := List.mem_map_of_mem (f := Prod.fst) hx
      rw [he] at hm
      exact (List.nodup_cons.1 (List.nodup_append.1 nodup).2.1).1 hm
  have hfin : fin ≠ n := hdis fin List.mem_cons_self n List.mem_cons_self
  have hold : ∀ q, q ≠ n → (m.setPrev n (mask (m.prev n) + u.toNat)).chkAreaFlag q = m.chkAreaFlag q :=
    fun q hq => by simp [chkAreaFlag, Function.update_of_ne hq]
  refine ⟨?_, ?_, (hold fin hfin).trans h.fin_flag, ?_, h.fin_even, ?_⟩
  · rw [hfst]
    refine h.ring.congr (fun q _ => rfl) fun q _ => ?_
    show mask ((m.setPrev n (mask (m.prev n) + u.toNat)).prev q) = mask (m.prev q)
    by_cases equal : q = n
    · subst equal
      rw [setPrev_prev, Function.update_self]
      cases u <;> simp only [Bool.toNat_true, Bool.toNat_false, mask] <;> omega
    · rw [setPrev_prev, Function.update_of_ne equal]
  · intro x hx
    have hx' : x = (n, u) ∨ x ∈ xs ++ ys := by
      simp only [List.mem_append, List.mem_cons] at hx ⊢
      tauto
    rcases hx' with rfl | hx'
    · simp only [chkAreaFlag, setPrev_prev, Function.update_self, mask]
      cases u <;> simp
    · rw [hold _ (hne x hx')]
      refine h.flag x ?_
      simp only [List.mem_append, List.mem_cons] at hx' ⊢
      tauto
  · intro x hx
    have hx' : x = (n, u) ∨ x ∈ xs ++ ys := by
      simp only [List.mem_append, List.mem_cons] at hx ⊢
      tauto
    rcases hx' with rfl | hx'
    · exact h.even (n, b) (by simp)
    · refine h.even x ?_
      simp only [List.mem_append, List.mem_cons] at hx' ⊢
      tauto
  · rw [hfst]
    exact h.nodup

theorem AreaRep.next_at (h : AreaRep m fin (xs ++ (n, b) :: ys)) :
    m.next n = (ys.map Prod.fst).headD fin := by
  have ring := h.ring
  rw [List.map_append, List.map_cons] at ring
  exact ring.next_at

theorem AreaRep.prev_at (h : AreaRep m fin (xs ++ (n, b) :: ys)) :
    mask (m.prev n) = (xs.map Prod.fst).getLastD fin := by
  have ring := h.ring
  rw [List.map_append, List.map_cons] at ring
  exact ring.prev_at

theorem assign_mask {x y : Nat} (h : y % 2 = 0) :
    mask (x % 2 + y) = y ∧ ((x % 2 + y) % 2 == 1) = (x % 2 == 1) := by
  constructor
  · unfold mask
    omega
  · congr 1
    omega

/-- `knl_insertAreaQue` -/
theorem AreaRep.insert (h : AreaRep m fin (xs ++ (n, b) :: ys)) (he : e % 2 = 0)
    (fresh : e ∉ fin :: (xs ++ (n, b) :: ys).map Prod.fst) :
    AreaRep (m.knlInsertAreaQue n e) fin (xs ++ (n, b) :: (e, false) :: ys) ∧
      SameOff (fun q => q = e ∨ q ∈ fin :: (xs ++ (n, b) :: ys).map Prod.fst) m
        (m.knlInsertAreaQue n e) := by
  have hn : n ∈ fin :: (xs ++ (n, b) :: ys).map Prod.fst := by simp
  have hne : n ≠ e := fun hx => fresh (hx ▸ hn)
  have hnext := h.next_at
  have hq : (ys.map Prod.fst).headD fin ∈ fin :: (xs ++ (n, b) :: ys).map Prod.fst := by
    have := first_mem fin (xs.map Prod.fst ++ [n]) (ys.map Prod.fst)
    simpa using this
  generalize hqd : (ys.map Prod.fst).headD fin = q at hnext hq
  have hqe : q ≠ e := fun hx => fresh (hx ▸ hq)
  have hcode : m.knlInsertAreaQue n e =
      ⟨Function.update (Function.update m.next e q) n e,
        Function.update (Function.update m.prev e n) q (m.prev q % 2 + e)⟩ := by
    simp [knlInsertAreaQue, assignPrev, setPrev, setNext, hnext, Function.update_of_ne hqe,
      Function.update_of_ne hne]
  have hoff : SameOff (fun q => q = e ∨ q ∈ fin :: (xs ++ (n, b) :: ys).map Prod.fst) m
      (m.knlInsertAreaQue n e) := by
    intro x hx
    rw [not_or] at hx
    have h1 : x ≠ n := fun he => hx.2 (he ▸ hn)
    have h2 : x ≠ q := fun he => hx.2 (he ▸ hq)
    rw [hcode]
    simp only [Function.update_of_ne h1, Function.update_of_ne h2, Function.update_of_ne hx.1,
      and_self]
  refine ⟨?_, hoff⟩
  have hflag : ∀ x, x ≠ e → (m.knlInsertAreaQue n e).chkAreaFlag x = m.chkAreaFlag x := by
    intro x hx
    rw [hcode]
    dsimp only [chkAreaFlag]
    by_cases equal : x = q
    · subst equal
      rw [Function.update_self]
      exact (assign_mask he).2
    · rw [Function.update_of_ne equal, Function.update_of_ne hx]
  have hperm : ((xs ++ (n, b) :: (e, false) :: ys).map Prod.fst).Perm
      (e :: (xs ++ (n, b) :: ys).map Prod.fst) := by
    simp only [List.map_append, List.map_cons]
    exact ((List.Perm.swap e n _).append_left _).trans List.perm_middle
  have hlist : xs ++ (n, b) :: (e, false) :: ys = xs ++ [(n, b)] ++ (e, false) :: ys := by simp
  have hold : xs ++ (n, b) :: ys = xs ++ [(n, b)] ++ ys := by simp
  refine ⟨?_, ?_, (hflag fin fun hx => fresh (hx ▸ List.mem_cons_self)).trans h.fin_flag, ?_,
    h.fin_even, ?_⟩
  · have ring := h.ring
    have nodup := h.nodup
    rw [hold, List.map_append] at ring nodup
    rw [hold, List.map_append] at fresh
    rw [hlist, List.map_append, List.map_cons]
    have hlast : ((xs ++ [(n, b)]).map Prod.fst).getLastD fin = n := by
      rw [List.map_append, List.map_cons, List.map_nil, List.getLastD_concat]
    refine ring.insert nodup fresh ?_ ?_ ?_ ?_ ?_ ?_
    · intro x hx hxe
      rw [hlast] at hx
      rw [hcode]
      simp only [Function.update_of_ne hx, Function.update_of_ne hxe]
    · intro x hx hxe
      rw [hqd] at hx
      rw [hcode]
      simp only [Function.update_of_ne hx, Function.update_of_ne hxe]
    · rw [hlast, hcode]
      exact Function.update_self ..
    · rw [hqd, hcode]
      simp only [Function.update_of_ne hne.symm, Function.update_self]
    · rw [hlast, hcode]
      simp only [Function.update_of_ne hqe.symm, Function.update_self]
      exact mask_even (h.even _ (by simp : (n, b) ∈ xs ++ (n, b) :: ys))
    · rw [hqd, hcode]
      simp only [Function.update_self]
      exact (assign_mask he).1
  · intro x hx
    have hx' : x = (e, false) ∨ x ∈ xs ++ (n, b) :: ys := by
      simp only [List.mem_append, List.mem_cons] at hx ⊢
      tauto
    rcases hx' with rfl | hx'
    · rw [hcode]
      simp only [chkAreaFlag, Function.update_of_ne hqe.symm, Function.update_self,
        h.even _ (by simp : (n, b) ∈ xs ++ (n, b) :: ys)]
      rfl
    · rw [hflag x.1 fun hxe => fresh (hxe ▸ List.mem_cons_of_mem _ (List.mem_map_of_mem hx'))]
      exact h.flag x hx'
  · intro x hx
    have hx' : x = (e, false) ∨ x ∈ xs ++ (n, b) :: ys := by
      simp only [List.mem_append, List.mem_cons] at hx ⊢
      tauto
    rcases hx' with rfl | hx'
    · exact he
    · exact h.even x hx'
  · have hcons : (fin :: (xs ++ (n, b) :: (e, false) :: ys).map Prod.fst).Perm
        (e :: fin :: (xs ++ (n, b) :: ys).map Prod.fst) :=
      (hperm.cons fin).trans (List.Perm.swap e fin _)
    rw [hcons.nodup_iff, List.nodup_cons]
    exact ⟨fresh, h.nodup⟩

/-- `knl_removeAreaQue` -/
theorem AreaRep.remove (h : AreaRep m fin (xs ++ (n, b) :: ys)) :
    AreaRep (m.knlRemoveAreaQue n) fin (xs ++ ys) ∧
      SameOff (· ∈ fin :: (xs ++ ys).map Prod.fst) m (m.knlRemoveAreaQue n) := by
  have hnext := h.next_at
  have hprev := h.prev_at
  have hq : (ys.map Prod.fst).headD fin ∈ fin :: (xs ++ ys).map Prod.fst := by
    rw [List.map_append]
    exact first_mem ..
  have hp : (xs.map Prod.fst).getLastD fin ∈ fin :: (xs ++ ys).map Prod.fst := by
    rw [List.map_append]
    exact last_mem ..
  have hsub : ((xs ++ ys).map Prod.fst).Sublist ((xs ++ (n, b) :: ys).map Prod.fst) :=
    ((List.Sublist.refl xs).append (List.sublist_cons_self _ ys)).map _
  have heven : ∀ x ∈ fin :: (xs ++ ys).map Prod.fst, x % 2 = 0 := by
    intro x hx
    rcases List.mem_cons.1 hx with rfl | hx
    · exact h.fin_even
    · obtain ⟨y, hy, rfl⟩ := List.mem_map.1 (hsub.subset hx)
      exact h.even y hy
  have hp2 := heven _ hp
  generalize hqd : (ys.map Prod.fst).headD fin = q at hnext hq
  generalize hpd : (xs.map Prod.fst).getLastD fin = p at hprev hp hp2
  have hcode : m.knlRemoveAreaQue n =
      ⟨Function.update m.next p q, Function.update m.prev q (m.prev q % 2 + p)⟩ := by
    have hpn : p ≠ n := by
      rintro rfl
      have nodup := h.nodup
      rw [List.map_append, List.map_cons, ← List.cons_append] at nodup
      have hlast : p ∈ fin :: xs.map Prod.fst := by
        rw [← hpd]
        exact getLastD_mem _ _
      exact (List.nodup_append.1 nodup).2.2 p hlast p List.mem_cons_self rfl
    simp [knlRemoveAreaQue, assignPrev, setPrev, setNext, hprev, hnext, Function.update_of_ne hpn.symm]
  have hoff : SameOff (· ∈ fin :: (xs ++ ys).map Prod.fst) m (m.knlRemoveAreaQue n) := by
    intro x hx
    have h1 : x ≠ p := fun he => hx (he ▸ hp)
    have h2 : x ≠ q := fun he => hx (he ▸ hq)
    rw [hcode]
    exact ⟨Function.update_of_ne h1 _ _, Function.update_of_ne h2 _ _⟩
  have hflag : ∀ x, (m.knlRemoveAreaQue n).chkAreaFlag x = m.chkAreaFlag x := by
    intro x
    rw [hcode]
    dsimp only [chkAreaFlag]
    by_cases equal : x = q
    · subst equal
      rw [Function.update_self]
      exact (assign_mask hp2).2
    · rw [Function.update_of_ne equal]
  refine ⟨⟨?_, ?_, (hflag fin).trans h.fin_flag, ?_, h.fin_even,
    h.nodup.sublist (hsub.cons_cons fin)⟩, hoff⟩
  · have ring := h.ring
    have nodup := h.nodup
    rw [List.map_append, List.map_cons] at ring nodup
    rw [List.map_append]
    refine ring.remove nodup ?_ ?_ ?_ ?_
    · intro x _ hx
      rw [hpd] at hx
      rw [hcode]
      exact Function.update_of_ne hx _ _
    · intro x _ hx
      rw [hqd] at hx
      rw [hcode]
      simp only [Function.update_of_ne hx]
    · rw [hpd, hqd, hcode]
      exact Function.update_self ..
    · rw [hqd, hpd, hcode]
      simp only [Function.update_self]
      exact (assign_mask hp2).1
  · intro x hx
    rw [hflag]
    refine h.flag x ?_
    simp only [List.mem_append, List.mem_cons] at hx ⊢
    tauto
  · intro x hx
    refine h.even x ?_
    simp only [List.mem_append, List.mem_cons] at hx ⊢
    tauto

end

end Mtk3Smp
