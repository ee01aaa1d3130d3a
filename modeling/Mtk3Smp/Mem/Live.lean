import Mtk3Smp.Mem.Allocator

/-!
# Live blocks

The blocks that have been handed out are the used areas, apart from those of `first`, which are
used from the start. They do not meet, and what is written into one of them does not reach the
queues.
-/

namespace Mtk3Smp

open DList Qmem

/-- The live blocks are the used areas, each at least as large as requested. -/
structure LiveIs (first : List (Nat × Nat)) (as : List Area) (live : List (Nat × Nat)) : Prop where
  used : ∃ sz : Nat → Nat, (useds as).Perm (first ++ live.map fun x => (x.1, sz x.1)) ∧
    ∀ x ∈ live, x.2 ≤ sz x.1

/-- The blocks `x` and `y` have no byte in common. -/
def Disjoint2 (x y : Nat × Nat) : Prop := x.1 + x.2 ≤ y.1 ∨ y.1 + y.2 ≤ x.1

section

variable {L : Layout} {c : Imacb} {m m' : Qmem} {as as' : List Area} {cs : List Cls} {a : Area}
  {first live : List (Nat × Nat)} {x : Nat × Nat} {s l q sz size : Nat}

theorem mem_useds {p : Nat × Nat} : p ∈ useds as ↔ ∃ a ∈ as, a.use = true ∧ a.pair = p := by
  simp [useds, and_assoc]

theorem free_of_useds_nil (h : useds as = []) : ∀ a ∈ as, a.use = false := by
  intro a ha
  by_contra hu
  have hm : a.pair ∈ useds as := mem_useds.2 ⟨a, ha, by simpa using hu, rfl⟩
  rw [h] at hm
  cases hm

/-- Two free areas would be neighbours. -/
theorem noAdj_one {rest : List Area} (h : NoAdj (a :: rest)) (hfree : ∀ b ∈ a :: rest, b.use = false) :
    rest = [] := by
  cases rest with
  | nil => rfl
  | cons b rest =>
    have hadj := (List.isChain_cons_cons.1 h).1
    rw [hfree a (by simp), hfree b (by simp)] at hadj
    simp at hadj

theorem tile_sorted (h : Tile s as l) :
    as.Pairwise fun a b => a.blk + a.sz + QUEUESZ ≤ b.blk := by
  induction as generalizing s with
  | nil => exact List.Pairwise.nil
  | cons a as ih =>
    refine List.pairwise_cons.2 ⟨fun b hb => ?_, ih h.2⟩
    have := tile_mem h.2 hb
    have := h.1
    omega

theorem useds_sorted (h : Tile s as l) :
    (useds as).Pairwise fun p r => p.1 + p.2 + QUEUESZ ≤ r.1 := by
  unfold useds
  rw [List.pairwise_map]
  exact (tile_sorted h).filter _

theorem useds_nodup (h : Tile s as l) : ((useds as).map Prod.fst).Nodup := by
  refine List.pairwise_map.2 ((useds_sorted h).imp fun hle => ?_)
  unfold QUEUESZ at hle
  omega

theorem useds_disjoint (h : Tile s as l) : (useds as).Pairwise Disjoint2 :=
  (useds_sorted h).imp fun hle => .inl (by omega)

theorem LiveIs.nodup (h : LiveIs first as live) (tile : Tile s as l) :
    ((first ++ live).map Prod.fst).Nodup := by
  obtain ⟨sz, perm, -⟩ := h.used
  have hn := (perm.map Prod.fst).nodup_iff.1 (useds_nodup tile)
  rw [List.map_append, List.map_map] at hn
  rw [List.map_append]
  exact hn

theorem LiveIs.area (h : LiveIs first as live) (hx : x ∈ live) :
    ∃ a ∈ as, a.use = true ∧ a.blk = x.1 ∧ x.2 ≤ a.sz := by
  obtain ⟨sz, perm, hle⟩ := h.used
  have hm : (x.1, sz x.1) ∈ first ++ live.map fun x => (x.1, sz x.1) :=
    List.mem_append_right _ (List.mem_map.2 ⟨x, hx, rfl⟩)
  obtain ⟨a, ha, hu, hp⟩ := mem_useds.1 (perm.mem_iff.2 hm)
  obtain ⟨h1, h2⟩ := Prod.ext_iff.1 hp
  have h2 : a.sz = sz x.1 := h2
  exact ⟨a, ha, hu, h1, h2 ▸ hle x hx⟩

/-- No live block begins where one of `first` does. -/
theorem LiveIs.not_first (h : LiveIs first as live) (tile : Tile s as l) (hx : x ∈ live)
    {p : Nat × Nat} (hp : p ∈ first) : x.1 ≠ p.1 := by
  have hn := h.nodup tile
  rw [List.map_append] at hn
  intro he
  exact (List.nodup_append.1 hn).2.2 p.1 (List.mem_map_of_mem hp) x.1 (List.mem_map_of_mem hx) he.symm

/-- A block is handed out. -/
theorem LiveIs.push (h : LiveIs first as live) (tile : Tile s as' l)
    (perm' : (useds as').Perm ((q, sz) :: useds as)) (hle : size ≤ sz) :
    LiveIs first as' ((q, size) :: live) := by
  obtain ⟨f, perm, hf⟩ := h.used
  have hn := ((perm'.trans (perm.cons _)).map Prod.fst).nodup_iff.1 (useds_nodup tile)
  have hq : ∀ x ∈ live, x.1 ≠ q := by
    intro x hx he
    rw [List.map_cons, List.nodup_cons, List.map_append, List.map_map] at hn
    exact hn.1 (List.mem_append_right _ (List.mem_map.2 ⟨x, hx, he⟩))
  have hmap : live.map (fun x => (x.1, Function.update f q sz x.1)) =
      live.map fun x => (x.1, f x.1) :=
    List.map_congr_left fun x hx => by rw [Function.update_of_ne (hq x hx)]
  refine ⟨Function.update f q sz, ?_, fun x hx => ?_⟩
  · rw [List.map_cons, Function.update_self, hmap]
    exact (perm'.trans (perm.cons _)).trans List.perm_middle.symm
  · rcases List.mem_cons.1 hx with rfl | hx
    · rw [Function.update_self]
      exact hle
    · rw [Function.update_of_ne (hq x hx)]
      exact hf x hx

/-- A live block is given back. -/
theorem LiveIs.pop (h : LiveIs first as live) (tile : Tile s as l) (hx : x ∈ live) (ha : a ∈ as)
    (hblk : a.blk = x.1) (perm' : (useds as).Perm (a.pair :: useds as')) :
    LiveIs first as' (live.eraseP (·.1 == x.1)) := by
  obtain ⟨f, perm, hf⟩ := h.used
  obtain ⟨y, l₁, l₂, -, hy, hlive, herase⟩ :=
    List.exists_of_eraseP (p := (·.1 == x.1)) hx (beq_self_eq_true x.1)
  have hy : y.1 = x.1 := eq_of_beq hy
  -- the area and the block agree on the size, there being one area at this address
  have hpair : a.pair = (y.1, f y.1) := by
    have hm : (y.1, f y.1) ∈ first ++ live.map fun x => (x.1, f x.1) :=
      List.mem_append_right _ (List.mem_map.2 ⟨y, by rw [hlive]; simp, rfl⟩)
    obtain ⟨b, hb, -, hp⟩ := mem_useds.1 (perm.mem_iff.2 hm)
    have hby : b.blk = y.1 := congrArg Prod.fst hp
    rw [tile_eq_of_blk tile ha hb (by omega)]
    exact hp
  rw [herase]
  refine ⟨f, ?_, fun z hz => hf z ?_⟩
  · have hsplit : (first ++ live.map fun x => (x.1, f x.1)).Perm
        (a.pair :: (first ++ (l₁ ++ l₂).map fun x => (x.1, f x.1))) := by
      rw [hlive, hpair, List.map_append, List.map_append, List.map_cons, ← List.append_assoc,
        ← List.append_assoc]
      exact List.perm_middle
    exact (List.perm_cons a.pair).1 ((perm'.symm.trans perm).trans hsplit)
  · rw [hlive]
    rcases List.mem_append.1 hz with hz | hz
    · exact List.mem_append_left _ hz
    · exact List.mem_append_right _ (List.mem_cons_of_mem _ hz)

theorem LiveIs.disjoint (h : LiveIs first as live) (tile : Tile s as l) :
    live.Pairwise Disjoint2 := by
  obtain ⟨f, perm, hf⟩ := h.used
  have hsym : ∀ {p r : Nat × Nat}, Disjoint2 p r → Disjoint2 r p := fun hpr => hpr.symm
  have hall := (perm.pairwise_iff hsym).1 (useds_disjoint tile)
  have hlive := (List.pairwise_append.1 hall).2.1
  rw [List.pairwise_map] at hlive
  refine List.Pairwise.imp_of_mem (fun {x y} hx hy hxy => ?_) hlive
  have h1 := hf x hx
  have h2 := hf y hy
  unfold Disjoint2 at hxy ⊢
  dsimp only at hxy
  omega

/-- Nothing that is written into a used block reaches the queues. -/
theorem Rep.fill (h : Rep L c m as cs) (ha : a ∈ as) (hu : a.use = true)
    (hs : ∀ n, n < a.blk ∨ a.blk + a.sz ≤ n → m'.next n = m.next n ∧ m'.prev n = m.prev n) :
    Rep L c m' as cs := by
  have part := h.part
  refine { h with part := { part with areas := ?_, free := ?_ } }
  · refine part.areas.congr fun n hn => hs n ?_
    rw [cell_fst] at hn
    exact node_out part.ok part.tile ha hn
  · refine part.free.congr fun n hn => hs n ?_
    have hin := tile_mem part.tile ha
    rcases hn with rfl | ⟨p, hp, he⟩
    · have := part.ok.freeque_out
      omega
    · obtain ⟨b, hb, hbu, hb1, hb2⟩ := h.mem_free hp
      obtain ⟨b', hb', hb1', -, hmin⟩ := part.sub p hp
      obtain rfl := tile_eq_of_blk part.tile hb hb' (by omega)
      unfold MIN_FRAGMENT at hmin
      rcases tile_apart part.tile ha hb with rfl | hap | hap
      · rw [hu] at hbu
        cases hbu
      · unfold QUEUESZ at *
        omega
      · unfold QUEUESZ at *
        omega

end

/-! ## What calls do to memory and the live blocks -/

/-- `m` represents areas of which the used ones are `first` and the live blocks. -/
def Managed (v : Variant) (L : Layout) (first : List (Nat × Nat)) (m : Qmem)
    (live : List (Nat × Nat)) : Prop :=
  ∃ as cs, Rep L v.c m as cs ∧ LiveIs first as live

section

variable {v : Variant} {L : Layout} {m m' : Qmem} {first live : List (Nat × Nat)} {x : Nat × Nat}
  {q size req : Nat}

theorem Managed.get (h : Managed v L first m live) (sound : v.Sound L) (hmod : size % 8 = 0)
    (hmin : MIN_FRAGMENT ≤ size) (hreq : req ≤ size) (hsome : v.getBlk m size = some (q, m')) :
    Managed v L first m' ((q, req) :: live) := by
  obtain ⟨as, cs, rep, hlive⟩ := h
  obtain ⟨as', cs', sz, rep', hsz, perm⟩ := (rep.getBlk_some sound hmod hmin hsome).rep
  exact ⟨as', cs', rep', hlive.push rep'.part.tile perm (hreq.trans hsz)⟩

theorem Managed.fill (h : Managed v L first m live) (hx : x ∈ live)
    (hs : ∀ n, n < x.1 ∨ x.1 + x.2 ≤ n → m'.next n = m.next n ∧ m'.prev n = m.prev n) :
    Managed v L first m' live := by
  obtain ⟨as, cs, rep, hlive⟩ := h
  obtain ⟨a, ha, hu, hblk, hle⟩ := hlive.area hx
  exact ⟨as, cs, rep.fill ha hu fun n hn => hs n (by omega), hlive⟩

theorem Managed.rel (h : Managed v L first m live) (sound : v.Sound L) (hx : x ∈ live)
    (huse : L.fixed = true → x.1 ≠ L.lo + QUEUESZ) :
    Managed v L first (v.relBlk m x.1) (live.eraseP (·.1 == x.1)) := by
  obtain ⟨as, cs, rep, hlive⟩ := h
  obtain ⟨a, ha, hu, hblk, -⟩ := hlive.area hx
  rw [← hblk] at huse
  obtain ⟨as', cs', rep', perm⟩ := rep.relBlk sound ha hu huse
  rw [← hblk]
  refine ⟨as', cs', rep', ?_⟩
  have := hlive.pop rep.part.tile hx ha hblk perm
  rwa [← hblk] at this

theorem Managed.disjoint (h : Managed v L first m live) : live.Pairwise Disjoint2 := by
  obtain ⟨as, cs, rep, hlive⟩ := h
  exact hlive.disjoint rep.part.tile

theorem Managed.nodup (h : Managed v L first m live) : ((first ++ live).map Prod.fst).Nodup := by
  obtain ⟨as, cs, rep, hlive⟩ := h
  exact hlive.nodup rep.part.tile

/-- Where a live block lies. -/
theorem Managed.place (h : Managed v L first m live) (hx : x ∈ live) :
    x.1 % 8 = L.lo % 8 ∧ L.lo + QUEUESZ ≤ x.1 ∧ x.1 + x.2 ≤ L.limit := by
  obtain ⟨as, cs, rep, hlive⟩ := h
  obtain ⟨a, ha, -, hblk, hle⟩ := hlive.area hx
  have hin := tile_mem rep.part.tile ha
  have halign := rep.align a ha
  rw [← hblk]
  exact ⟨halign, hin.1, by omega⟩

end

end Mtk3Smp
