import Mtk3Smp.Mem.Pool

/-!
# Memory pools over whole runs

The queues of a pool represent its areas after every sequence of calls, the live blocks being
the used areas, and tk_ref_mpl reports its free ones.
-/

namespace Mtk3Smp

open DList Qmem

namespace MplCfg

variable {p : MplCfg}

theorem roundSize_ok (sz : Int) :
    roundSize sz % 8 = 0 ∧ MIN_FRAGMENT ≤ roundSize sz ∧ sz.toNat ≤ roundSize sz := by
  unfold roundSize MIN_FRAGMENT
  dsimp only
  split <;> omega

theorem mplsz_ok : p.mplsz % 8 = 0 ∧ 16 ≤ p.mplsz :=
  ⟨(roundSize_ok p.cmplsz).1, (roundSize_ok p.cmplsz).2.1⟩

theorem Placed.lo_eq (ok : p.Placed) :
    p.layout.lo + QUEUESZ = p.mempool ∧ p.layout.lo % 8 = p.mempool % 8 := by
  have := ok.lo
  have hlo : p.layout.lo = p.mempool - 8 := rfl
  rw [hlo]
  unfold QUEUESZ at *
  omega

/-- The cells in the MPLCB are outside the pool. -/
theorem Placed.out (ok : p.Placed) {n : Nat} (h1 : p.mplcb ≤ n) (h2 : n < p.mplcb + 52) :
    n < p.mempool ∨ p.mempool + p.mplsz ≤ n := by
  have := ok.apart
  omega

theorem layout_ok (ok : p.Placed) : p.layout.Ok p.c := by
  obtain ⟨hlo, -⟩ := ok.lo_eq
  have hmod := ok.word
  have hcb := ok.mplcb
  have hsz := (mplsz_ok (p := p)).2
  have haq : p.layout.areaque = p.mplcb + 24 := rfl
  have hfin : p.layout.fin = p.mplcb + 40 := rfl
  have hfq : p.c.freeque = p.mplcb + 32 := rfl
  have hlimit : p.layout.limit = p.mempool + p.mplsz := rfl
  have hmemsz : p.c.memsz = p.mplsz := rfl
  have hmin : MIN_FRAGMENT = 16 := rfl
  have hlo' : p.layout.lo = p.mempool - 8 := rfl
  have hq : QUEUESZ = 8 := rfl
  have := ok.out (n := p.mplcb + 24) (by omega) (by omega)
  have := ok.out (n := p.mplcb + 32) (by omega) (by omega)
  have := ok.out (n := p.mplcb + 40) (by omega) (by omega)
  constructor <;> simp only [haq, hfin, hfq, hlimit, hmemsz, hmin, hlo', hq] <;> omega

/-- The header of an area, and whether it is the one in the MPLCB. -/
theorem Placed.node (ok : p.Placed) {as : List Area} (tile : Tile p.layout.lo as p.layout.limit)
    {a : Area} (ha : a ∈ as) :
    (a.blk = p.mempool ∧ p.layout.node a.blk = p.areaque) ∨
      (a.blk ≠ p.mempool ∧ p.layout.node a.blk ≠ p.areaque ∧
        p.layout.node a.blk + QUEUESZ = a.blk) := by
  obtain ⟨hlo, -⟩ := ok.lo_eq
  have hin := tile_mem tile ha
  have hlimit : p.layout.limit = p.mempool + p.mplsz := rfl
  have hout := ok.out (n := p.areaque) (by unfold areaque; omega) (by unfold areaque; omega)
  rcases tile_node tile ha with ⟨h1, h2⟩ | ⟨h1, h2⟩
  · exact .inl ⟨h1.trans hlo, h2⟩
  · refine .inr ⟨?_, ?_, h2⟩
    · unfold QUEUESZ at *
      omega
    · unfold QUEUESZ at *
      omega

theorem bound_eq (ok : p.Placed) {m : Qmem} {xs ys : List Area} {a : Area} {cs : List Cls}
    (part : Part p.layout p.c m (xs ++ a :: ys) cs) :
    p.knlAppendFreeAreaBound m (p.layout.node a.blk) =
      appendArea m p.c (p.layout.node a.blk) a.blk a.sz := by
  have ha : a ∈ xs ++ a :: ys := by simp
  have htop : (if p.layout.node a.blk = p.areaque then p.mempool
      else p.layout.node a.blk + QUEUESZ) = a.blk := by
    rcases ok.node part.tile ha with ⟨h1, h2⟩ | ⟨-, h2, h3⟩
    · rw [if_pos h2, h1]
    · rw [if_neg h2, h3]
  have hend : (if m.next (p.layout.node a.blk) = p.areaqueEnd then p.mempool + p.mplsz
      else m.next (p.layout.node a.blk)) = a.blk + a.sz := by
    rw [part.next_eq]
    by_cases last : ys = []
    · subst last
      have hlast := tile_last part.tile
      have hfin : p.layout.fin = p.areaqueEnd := rfl
      rw [if_pos rfl, hfin, if_pos rfl, hlast]
      rfl
    · have hne : a.blk + a.sz ≠ p.areaqueEnd := by
        have hout := ok.out (n := p.areaqueEnd) (by unfold areaqueEnd; omega)
          (by unfold areaqueEnd; omega)
        obtain ⟨b, hb⟩ := List.exists_mem_of_ne_nil ys last
        have h1 := (tile_split part.tile).2 b hb
        have h2 := tile_mem part.tile (by simp [hb] : b ∈ xs ++ a :: ys)
        have h3 := tile_mem part.tile ha
        have hlimit : p.layout.limit = p.mempool + p.mplsz := rfl
        have := ok.lo_eq.1
        unfold QUEUESZ at *
        omega
      rw [if_neg last, if_neg hne]
  unfold knlAppendFreeAreaBound appendArea
  dsimp only
  rw [htop, hend, Nat.add_sub_cancel_left]

/-- An area that is not the last one, with its header in the pool. -/
theorem inner_eq (ok : p.Placed) {m : Qmem} {xs ys : List Area} {a : Area} {cs : List Cls}
    (part : Part p.layout p.c m (xs ++ a :: ys) cs) (hfirst : p.layout.node a.blk ≠ p.areaque)
    (hlast : m.next (p.layout.node a.blk) ≠ p.areaqueEnd) :
    m.knlAppendFreeArea p.c (p.layout.node a.blk) =
      appendArea m p.c (p.layout.node a.blk) a.blk a.sz := by
  have hback : p.layout.node a.blk + QUEUESZ = a.blk := by
    rcases ok.node part.tile (by simp : a ∈ xs ++ a :: ys) with ⟨-, h2⟩ | ⟨-, -, h3⟩
    · exact absurd h2 hfirst
    · exact h3
  rw [part.next_eq] at hlast
  have hys : ys ≠ [] := by
    rintro rfl
    exact hlast rfl
  have hsize : m.areaSize (p.layout.node a.blk) = a.sz := by
    unfold Qmem.areaSize
    rw [part.next_eq, if_neg hys, hback]
    omega
  unfold knlAppendFreeArea appendArea
  rw [hsize, hback]

theorem pool_sound (ok : p.Placed) : p.variant.Sound p.layout := by
  obtain ⟨hlo, -⟩ := ok.lo_eq
  constructor
  · intro a _ _
    show (if a.blk = p.mempool then p.areaque else a.blk - QUEUESZ) = _
    unfold Layout.node
    rw [hlo]
    rfl
  · intro m as cs part a ha _
    show (if p.layout.node a.blk = p.areaque then p.mempool
      else p.layout.node a.blk + QUEUESZ) = a.blk
    rcases ok.node part.tile ha with ⟨h1, h2⟩ | ⟨-, h2, h3⟩
    · rw [if_pos h2, h1]
    · rw [if_neg h2, h3]
  · intro m xs a ys cs part hne
    show (if m.next (p.layout.node a.blk) = p.areaqueEnd then _ else _) = _
    by_cases last : m.next (p.layout.node a.blk) = p.areaqueEnd
    · rw [if_pos last]
      exact bound_eq ok part
    · rw [if_neg last]
      refine inner_eq ok part ?_ last
      rcases ok.node part.tile (by simp : a ∈ xs ++ a :: ys) with ⟨h1, -⟩ | ⟨-, h2, -⟩
      · exact absurd (h1.trans hlo.symm) hne
      · exact h2
  · intro m xs a ys cs part _
    show (if p.layout.node a.blk = p.areaque ∨ m.next (p.layout.node a.blk) = p.areaqueEnd
      then _ else _) = _
    by_cases bound : p.layout.node a.blk = p.areaque ∨
        m.next (p.layout.node a.blk) = p.areaqueEnd
    · rw [if_pos bound]
      exact bound_eq ok part
    · rw [if_neg bound]
      rw [not_or] at bound
      exact inner_eq ok part bound.1 bound.2

/-! ## The initial setting -/

/-- The queues before the pool is put into the free queue. -/
def queued (p : MplCfg) (m : Qmem) : Qmem :=
  let m := (m.queInit p.areaque).queInit p.freeque
  let m := m.knlInsertAreaQue p.areaque p.areaqueEnd
  m.setAreaFlag p.areaqueEnd

theorem initMempool_eq (m : Qmem) :
    p.initMempool m = p.knlAppendFreeAreaBound (p.queued m) p.areaque := rfl

theorem queued_links (ok : p.Placed) (m : Qmem) :
    (p.queued m).next p.areaque = p.areaqueEnd ∧ (p.queued m).next p.areaqueEnd = p.areaque ∧
    (p.queued m).next p.freeque = p.freeque ∧ (p.queued m).prev p.areaque = p.areaqueEnd ∧
    (p.queued m).prev p.areaqueEnd = p.areaque + 1 ∧
    (p.queued m).prev p.freeque = p.freeque := by
  have hcb := ok.mplcb
  have haq : p.areaque = p.mplcb + 24 := rfl
  have hfq : p.freeque = p.mplcb + 32 := rfl
  have hend : p.areaqueEnd = p.mplcb + 40 := rfl
  have h1 : p.freeque ≠ p.areaque := by omega
  have h2 : p.areaqueEnd ≠ p.areaque := by omega
  have h3 : p.areaqueEnd ≠ p.freeque := by omega
  have heven : p.areaque % 2 = 0 := by omega
  have hmask : mask p.areaque = p.areaque := mask_even heven
  simp [queued, queInit, knlInsertAreaQue, assignPrev, setAreaFlag, h1, h2, h1.symm, h2.symm,
    h3.symm, heven, hmask]

theorem queued_part (ok : p.Placed) (m : Qmem) : Part p.layout p.c (p.queued m)
    ([] ++ ⟨p.mempool, p.mplsz, false⟩ :: []) [] := by
  obtain ⟨n1, n2, n3, p1, p2, p3⟩ := queued_links ok m
  obtain ⟨hlo, -⟩ := ok.lo_eq
  have hcb := ok.mplcb
  have hword := ok.word
  have haq : p.areaque = p.mplcb + 24 := rfl
  have hend : p.areaqueEnd = p.mplcb + 40 := rfl
  have hcells : ([] ++ ⟨p.mempool, p.mplsz, false⟩ :: [] : List Area).map p.layout.cell =
      [(p.areaque, false)] := by
    simp only [List.nil_append, List.map_cons, List.map_nil, Layout.cell, Layout.node]
    rw [if_pos hlo.symm]
    rfl
  have hfin : p.layout.fin = p.areaqueEnd := rfl
  refine ⟨layout_ok ok, ?_, ?_, ?_, ?_, ?_⟩
  · rw [hcells, hfin]
    refine ⟨⟨n2, ?_, n1, ?_⟩, ?_, ?_, ?_, ?_, ?_⟩
    · show mask ((p.queued m).prev p.areaque) = p.areaqueEnd
      rw [p1, mask_even (by omega)]
    · show mask ((p.queued m).prev p.areaqueEnd) = p.areaque
      rw [p2]
      unfold mask
      omega
    · intro n hn
      obtain rfl := List.mem_singleton.1 hn
      simp only [chkAreaFlag, p1, beq_eq_false_iff_ne]
      omega
    · simp only [chkAreaFlag, p2, beq_iff_eq]
      omega
    · intro n hn
      obtain rfl := List.mem_singleton.1 hn
      dsimp only
      omega
    · omega
    · simp only [List.map_cons, List.map_nil, List.nodup_cons, List.mem_singleton,
        List.not_mem_nil, List.nodup_nil, not_false_eq_true, and_true]
      omega
  · exact ⟨hlo.symm, congrArg (· + p.mplsz) hlo⟩
  · intro a ha
    obtain rfl := List.mem_singleton.1 ha
    dsimp only
    omega
  · refine ⟨⟨n3, p3⟩, by simp, List.Pairwise.nil, List.Pairwise.nil, by simp [freePairs], ?_⟩
    show p.mplcb + 32 ≠ NULL
    unfold NULL
    omega
  · simp [freePairs]

/-- One free area, all of the pool. -/
theorem init_rep (ok : p.Placed) (m : Qmem) :
    ∃ cs, Rep p.layout p.c (p.initMempool m) [⟨p.mempool, p.mplsz, false⟩] cs := by
  have part := queued_part ok m
  obtain ⟨hlo, hmod⟩ := ok.lo_eq
  have hmin := (mplsz_ok (p := p)).2
  obtain ⟨cs, part', perm⟩ := part.append hmin (by simp [freePairs])
  have hnode : p.layout.node p.mempool = p.areaque := by
    unfold Layout.node
    rw [if_pos hlo.symm]
    rfl
  have hcode := bound_eq ok part
  simp only [hnode] at hcode part'
  rw [initMempool_eq, hcode]
  refine ⟨cs, part', perm, ?_, ?_, ?_, ?_⟩
  · simp [NoAdj]
  · intro a ha
    obtain rfl := List.mem_singleton.1 ha
    exact hmod.symm
  · intro a ha _
    obtain rfl := List.mem_singleton.1 ha
    exact hmin
  · intro a _ huse
    exact absurd (fun h => by cases h) huse

/-! ## tk_ref_mpl -/

theorem frszChain_eq {m : Qmem} {blksz : Nat} {t : List Nat} {q fuel frsz : Nat}
    (hc : Chain m q t) (hlen : t.length < fuel) :
    frszChain m blksz fuel (m.next q) frsz = frsz + t.length * blksz := by
  induction t generalizing q fuel frsz with
  | nil =>
    obtain ⟨fuel, rfl⟩ : ∃ n, fuel = n + 1 := ⟨fuel - 1, by simp at hlen; omega⟩
    have hc : m.next q = NULL := hc
    rw [frszChain, if_pos hc]
    simp
  | cons r rest ih =>
    rw [List.length_cons] at hlen ⊢
    obtain ⟨fuel, rfl⟩ : ∃ n, fuel = n + 1 := ⟨fuel - 1, by omega⟩
    obtain ⟨h1, -, -, h4⟩ := hc
    rw [frszChain, h1, if_neg (by unfold QUEUESZ NULL; omega), ih h4 (by omega), Nat.succ_mul]
    omega

theorem sum_class (d : Cls) :
    ((d.blks.map fun q => (q, d.size)).map Prod.snd).sum = d.size + d.tail.length * d.size := by
  rw [List.map_map]
  have hconst : d.blks.map (Prod.snd ∘ fun q => (q, d.size)) =
      List.replicate (d.tail.length + 1) d.size := by
    simp [Cls.blks, Function.comp_def, List.replicate_succ]
  rw [hconst, List.sum_replicate_nat, Nat.succ_mul, Nat.add_comm]

theorem frszLoop_eq {m : Qmem} {cs : List Cls} {x fuel frsz : Nat}
    (hseg : Seg m.next m.prev x (cs.map Cls.head) p.freeque) (hcls : ∀ d ∈ cs, ClsRep m d)
    (hne : ∀ d ∈ cs, d.head ≠ p.freeque) (htail : ∀ d ∈ cs, d.tail.length ≤ p.mplsz)
    (hlen : cs.length < fuel) :
    p.frszLoop m fuel (m.next x) frsz = frsz + ((freePairs cs).map Prod.snd).sum := by
  induction cs generalizing x fuel frsz with
  | nil =>
    obtain ⟨fuel, rfl⟩ : ∃ n, fuel = n + 1 := ⟨fuel - 1, by simp at hlen; omega⟩
    have hx : m.next x = p.freeque := hseg.1
    rw [frszLoop, if_pos hx]
    simp [freePairs]
  | cons d rest ih =>
    rw [List.length_cons] at hlen
    obtain ⟨fuel, rfl⟩ : ∃ n, fuel = n + 1 := ⟨fuel - 1, by omega⟩
    obtain ⟨h1, -, h3⟩ := hseg
    obtain ⟨hsize, hchain⟩ := hcls d List.mem_cons_self
    have hsize : m.freeSize d.head = d.size := hsize
    rw [frszLoop, h1, if_neg (hne d List.mem_cons_self)]
    simp only [hsize]
    rw [frszChain_eq hchain (Nat.lt_succ_of_le (htail d List.mem_cons_self)),
      ih h3 (fun e he => hcls e (List.mem_cons_of_mem _ he))
        (fun e he => hne e (List.mem_cons_of_mem _ he))
        (fun e he => htail e (List.mem_cons_of_mem _ he)) (by omega),
      freePairs_cons, List.map_append, List.sum_append, sum_class]
    omega

/-- The sizes in the queue and those of the free areas. -/
theorem frsz_eq (ok : p.Placed) {m : Qmem} {as : List Area} {cs : List Cls}
    (rep : Rep p.layout p.c m as cs) :
    p.frszLoop m (p.mplsz + 1) (m.next p.freeque) 0 = ((frees as).map Prod.snd).sum := by
  have part := rep.part
  have hlen := part.length_le
  have hpairs := part.pairs_le
  obtain ⟨hlo, -⟩ := ok.lo_eq
  have hlimit : p.layout.limit = p.mempool + p.mplsz := rfl
  have hsz := (mplsz_ok (p := p)).2
  unfold QUEUESZ at *
  have hring : Seg m.next m.prev p.freeque (cs.map Cls.head) p.freeque := part.free.ring
  rw [frszLoop_eq hring part.free.cls
    (fun d hd => (part.free.off _ (head_mem_pairs hd)).1) (fun d hd => ?_) (by omega), Nat.zero_add]
  · exact (rep.perm.map Prod.snd).sum_nat
  · obtain ⟨l, r, rfl⟩ := List.append_of_mem hd
    have hsub : d.tail.length + 1 ≤ (freePairs (l ++ d :: r)).length := by
      rw [freePairs_append, freePairs_cons, List.length_append, List.length_append,
        List.length_map]
      simp only [Cls.blks, List.length_cons]
      omega
    omega

/-- The last class is the largest one. -/
theorem maxFreeSize_largest {m : Qmem} {as : List Area} {cs : List Cls}
    (rep : Rep p.layout p.c m as cs) : LargestSize (frees as) (p.knlMaxFreeSize m) := by
  have free := rep.part.free
  have hring : Seg m.next m.prev p.freeque (cs.map Cls.head) p.freeque := free.ring
  have hfirst := hring.next_first
  have hlast := hring.prev_last
  unfold knlMaxFreeSize
  rw [hfirst, hlast]
  rcases List.eq_nil_or_concat' cs with rfl | ⟨l, d, rfl⟩
  · have hnil : frees as = [] := rep.perm.symm.eq_nil
    rw [hnil]
    exact ⟨by simp, .inl ⟨rfl, by simp⟩⟩
  · have hd : d ∈ l ++ [d] := by simp
    have hne : ((l ++ [d]).map Cls.head).headD p.freeque ≠ p.freeque := by
      cases l with
      | nil => exact (free.off _ (head_mem_pairs hd)).1
      | cons e l => exact (free.off _ (head_mem_pairs (List.mem_append_left _ List.mem_cons_self))).1
    have hsize : m.freeSize d.head = d.size := (free.cls d hd).1
    rw [if_neg hne, List.map_append, List.map_singleton, List.getLastD_concat, hsize]
    refine ⟨fun x hx => ?_, .inr ⟨(d.head, d.size), ?_, rfl⟩⟩
    · obtain ⟨e, he, -, hes⟩ := mem_freePairs.1 (rep.perm.mem_iff.2 hx)
      rw [hes]
      rcases List.mem_append.1 he with he | he
      · exact Nat.le_of_lt ((List.pairwise_append.1 free.sorted).2.2 e he d (List.mem_singleton.2 rfl))
      · rw [List.mem_singleton.1 he]
    · exact rep.perm.mem_iff.1 (head_mem_pairs hd)

end MplCfg

/-! ## Runs -/

/-- The size of a waiting task has been rounded. -/
def MplWaiter.Fits (w : MplWaiter) : Prop :=
  w.blksz % 8 = 0 ∧ MIN_FRAGMENT ≤ w.blksz ∧ w.req ≤ w.blksz

structure MplInv (p : MplCfg) (s : MplSys) : Prop where
  waiters : ∀ w ∈ s.waitQueue, w.Fits
  mem : Managed p.variant p.layout [] s.mem s.live

section

variable {p : MplCfg} {s t : MplSys} {m : Qmem} {x : Nat × Nat} {blk : Nat} {w : MplWaiter}
  {ws : List MplWaiter}

theorem MplInv.queue (h : MplInv p s) (hws : ∀ w ∈ ws, w.Fits) :
    MplInv p { s with waitQueue := ws } :=
  ⟨hws, h.mem⟩

theorem MplInv.moved {live : List (Nat × Nat)} (h : MplInv p s)
    (hm : Managed p.variant p.layout [] m live) : MplInv p { s with mem := m, live := live } :=
  ⟨h.waiters, hm⟩

theorem MplInv.retd (h : MplInv p s) (t : Tid) (e : ER) : MplInv p (s.retd t e) :=
  ⟨h.waiters, h.mem⟩

/-- A waiting task that the largest free area is enough for gets a block. -/
theorem MplInv.served (h : MplInv p s) (hw : w.Fits)
    (hle : w.blksz ≤ p.knlMaxFreeSize s.mem) : p.knlGetBlk s.mem w.blksz ≠ none := by
  intro hnone
  obtain ⟨as, cs, rep, -⟩ := h.mem
  have hsmall := rep.getBlk_none (v := p.variant) hw.2.1 hnone
  have hpos := hw.2.1
  unfold MIN_FRAGMENT at hpos
  rcases (MplCfg.maxFreeSize_largest rep).2 with ⟨-, hzero⟩ | ⟨y, hy, hsz⟩
  · omega
  · obtain ⟨a, ha, hu, rfl⟩ := mem_frees.1 hy
    have := hsmall a ha hu
    have hsz : a.sz = p.knlMaxFreeSize s.mem := hsz
    omega

theorem MplInv.wakeupLoop (ok : p.Placed) (h : MplInv p s) (hws : ∀ w ∈ ws, w.Fits) :
    MplInv p (MplSys.wakeupLoop p ws s) := by
  induction ws generalizing s with
  | nil => exact h.queue (by simp)
  | cons top rest ih =>
    unfold MplSys.wakeupLoop
    by_cases small : p.knlMaxFreeSize s.mem < top.blksz
    · rw [if_pos small]
      exact h.queue hws
    · rw [if_neg small]
      have htop := hws top List.mem_cons_self
      cases hget : p.knlGetBlk s.mem top.blksz with
      | none => exact absurd hget (h.served htop (by omega))
      | some r =>
        have hgot := h.mem.get (MplCfg.pool_sound ok) htop.1 htop.2.1 htop.2.2 hget
        exact ih ((h.moved hgot).retd _ _) fun w hw => hws w (List.mem_cons_of_mem _ hw)

theorem MplInv.wakeup (ok : p.Placed) (h : MplInv p s) : MplInv p (s.knlMplWakeup p) :=
  h.wakeupLoop ok h.waiters

theorem mem_insertTpri {priority : Tid → Nat} {y : MplWaiter} :
    y ∈ MplSys.insertTpri priority w ws ↔ y = w ∨ y ∈ ws := by
  induction ws with
  | nil => simp [MplSys.insertTpri]
  | cons q rest ih =>
    unfold MplSys.insertTpri
    split
    · simp
    · simp only [List.mem_cons, ih]
      tauto

theorem MplInv.makeWait (h : MplInv p s) (hw : w.Fits) : MplInv p (s.makeWait p w) := by
  refine ⟨fun y hy => ?_, h.mem⟩
  unfold MplSys.makeWait at hy
  dsimp only at hy
  split at hy
  · rcases mem_insertTpri.1 hy with rfl | hy
    · exact hw
    · exact h.waiters y hy
  · rcases List.mem_append.1 hy with hy | hy
    · exact h.waiters y hy
    · rw [List.mem_singleton.1 hy]
      exact hw

theorem MplInv.tkGetMpl (ok : p.Placed) (h : MplInv p s) (self : Tid) (ddsp : Bool) (blksz : Int)
    (tmout : Tmo) : MplInv p (s.tkGetMpl p self ddsp blksz tmout) := by
  obtain ⟨hmod, hmin, hreq⟩ := MplCfg.roundSize_ok blksz
  unfold MplSys.tkGetMpl
  split
  · exact h.retd _ _
  split
  · exact h.retd _ _
  split
  · exact h.retd _ _
  split
  · exact h.retd _ _
  have hwait : ∀ tmout, MplInv p (s.makeWait p ⟨self, roundSize blksz, blksz.toNat, tmout⟩) :=
    fun tmout => h.makeWait ⟨hmod, hmin, hreq⟩
  split
  · rename_i blk m hget
    split at hget
    · have hgot := h.mem.get (MplCfg.pool_sound ok) hmod hmin hreq hget
      exact (h.moved hgot).retd _ _
    · cases hget
  · cases tmout with
    | TMO_POL => exact h.retd _ _
    | TMO_FEVR => exact hwait _
    | after ms => exact hwait _

theorem MplInv.tkRelMpl (ok : p.Placed) (h : MplInv p s) (self : Tid) (ddsp : Bool)
    (hlive : s.isLive blk = true) : MplInv p (s.tkRelMpl p self ddsp blk) := by
  unfold MplSys.tkRelMpl
  split
  · exact h.retd _ _
  split
  · exact h.retd _ _
  split
  · exact h.retd _ _
  split
  · exact h.retd _ _
  rename_i m hrel
  unfold MplCfg.knlRelBlk at hrel
  split at hrel
  · cases hrel
  obtain rfl := Option.some.inj hrel
  have hmem : ∃ x ∈ s.live, x.1 = blk := by simpa [MplSys.isLive] using hlive
  obtain ⟨x, hx, rfl⟩ := hmem
  have hrel := h.mem.rel (MplCfg.pool_sound ok) hx fun hfix => by cases hfix
  exact ((h.moved hrel).wakeup ok).retd _ _

theorem MplInv.endWait (ok : p.Placed) (h : MplInv p s) (t : Tid) (e : Option ER) :
    MplInv p (s.endWait p t e) := by
  have hq : MplInv p { s with waitQueue := s.waitQueue.eraseP (·.tsk == t) } :=
    h.queue fun w hw => h.waiters w (List.mem_of_mem_eraseP hw)
  unfold MplSys.endWait
  cases e with
  | none => exact hq.wakeup ok
  | some e => exact (hq.retd t e).wakeup ok

theorem MplInv.chgPri (ok : p.Placed) (h : MplInv p s) (t : Tid) (priority : Nat) :
    MplInv p (s.chgPri p t priority) := by
  unfold MplSys.chgPri
  dsimp only
  split
  · rename_i x _ hfind
    refine MplInv.wakeup ok ⟨fun y hy => ?_, h.mem⟩
    rcases mem_insertTpri.1 hy with rfl | hy
    · exact h.waiters _ (List.mem_of_find?_eq_some hfind)
    · exact h.waiters y (List.mem_of_mem_eraseP hy)
  · exact ⟨h.waiters, h.mem⟩

theorem mplInv_step (ok : p.Placed) (h : MplInv p s) {e : MplEvent}
    (hs : MplSys.step p s e = some t) : MplInv p t := by
  cases e with
  | tkGetMpl self ddsp blksz tmout =>
    dsimp only [MplSys.step] at hs
    split at hs
    · cases hs
    · obtain rfl := Option.some.inj hs
      exact h.tkGetMpl ok _ _ _ _
  | tkRelMpl self ddsp blk =>
    dsimp only [MplSys.step] at hs
    split at hs
    · rename_i hguard
      obtain rfl := Option.some.inj hs
      exact h.tkRelMpl ok _ _ hguard.2
    · cases hs
  | timeout t =>
    dsimp only [MplSys.step] at hs
    split at hs
    · obtain rfl := Option.some.inj hs
      exact h.endWait ok _ _
    · cases hs
  | tkRelWai t =>
    dsimp only [MplSys.step] at hs
    split at hs
    · obtain rfl := Option.some.inj hs
      exact h.endWait ok _ _
    · cases hs
  | tkTerTsk t =>
    dsimp only [MplSys.step] at hs
    split at hs
    · obtain rfl := Option.some.inj hs
      exact h.endWait ok _ _
    · cases hs
  | chgPri t priority =>
    obtain rfl := Option.some.inj hs
    exact h.chgPri ok _ _
  | tkDelMpl =>
    obtain rfl := Option.some.inj hs
    unfold MplSys.tkDelMpl
    split
    · exact h
    · exact ⟨by simp, h.mem⟩
  | store blk a next prev =>
    dsimp only [MplSys.step] at hs
    split at hs
    · rename_i hin
      obtain rfl := Option.some.inj hs
      obtain ⟨x, hx, hb⟩ := List.any_eq_true.1 hin
      simp only [Bool.and_eq_true, beq_iff_eq, decide_eq_true_eq] at hb
      refine ⟨h.waiters, h.mem.fill hx fun n hn => ?_⟩
      have hne : n ≠ a := by omega
      exact ⟨Function.update_of_ne hne _ _, Function.update_of_ne hne _ _⟩
    · cases hs

theorem mplInv_of_reachable (ok : p.Placed) (h : (mplMachine p).Reachable s) : MplInv p s := by
  refine h.invariant (MplInv p) ?_ fun s e t hinv _ hs => mplInv_step ok hinv hs
  rintro s ⟨-, m, priority, rfl⟩
  obtain ⟨cs, rep⟩ := MplCfg.init_rep ok m
  exact ⟨by simp [MplSys.created], _, cs, rep, fun _ => 0, by simp [useds, MplSys.created],
    by simp [MplSys.created]⟩

/-- Without live blocks there is one free area. -/
theorem MplInv.restored (ok : p.Placed) (h : MplInv p s) (hnil : s.live = []) :
    ∃ cs, Rep p.layout p.c s.mem [⟨p.mempool, p.mplsz, false⟩] cs := by
  obtain ⟨as, cs, rep, live⟩ := h.mem
  obtain ⟨hlo, -⟩ := ok.lo_eq
  have hsz := (MplCfg.mplsz_ok (p := p)).2
  have hlimit : p.layout.limit = p.mempool + p.mplsz := rfl
  obtain ⟨sz, perm, -⟩ := live.used
  rw [hnil] at perm
  have hnone : useds as = [] := perm.eq_nil
  have hfree := free_of_useds_nil hnone
  have tile := rep.part.tile
  cases as with
  | nil =>
    have hend : p.layout.lo = p.layout.limit := tile
    omega
  | cons a rest =>
    obtain ⟨hblk, hrest⟩ := tile
    obtain rfl := noAdj_one rep.noAdj hfree
    have hend : p.layout.lo + QUEUESZ + a.sz = p.layout.limit := hrest
    have ha : a = ⟨p.mempool, p.mplsz, false⟩ := by
      have hu := hfree a List.mem_cons_self
      cases a
      simp_all
    rw [ha] at rep
    exact ⟨cs, rep⟩

end

theorem mplOk_of_reachable (p : MplCfg) (ok : p.Placed) {s : MplSys}
    (h : (mplMachine p).Reachable s) (hex : s.exists_ = true) : MplOk p s := by
  have hinv := mplInv_of_reachable ok h
  obtain ⟨hlo, hmod⟩ := ok.lo_eq
  refine ⟨?_, fun x hx => ?_, fun x hx => ?_, hinv.mem.disjoint, hinv.restored ok⟩
  · obtain ⟨as, cs, rep, live⟩ := hinv.mem
    have href : ∃ rmpl, s.tkRefMpl p false = some rmpl ∧
        rmpl.frsz = p.frszLoop s.mem (p.mplsz + 1) (s.mem.next p.freeque) 0 ∧
        rmpl.maxsz = p.knlMaxFreeSize s.mem := by
      simp [MplSys.tkRefMpl, hex]
    obtain ⟨rmpl, hr, hf, hm⟩ := href
    rw [MplCfg.frsz_eq ok rep] at hf
    exact ⟨as, cs, rep, live, rmpl, hr, hf, hm ▸ MplCfg.maxFreeSize_largest rep⟩
  · have hplace := (hinv.mem.place hx).1.trans hmod
    refine ⟨hplace, fun huser => ?_⟩
    rw [hplace, ok.imalloc huser]
  · obtain ⟨-, h1, h2⟩ := hinv.mem.place hx
    exact ⟨hlo ▸ h1, h2⟩

/-- A pool of 64 bytes: task 2 waits for a block and gets the one that task 0 returns. -/
theorem mplOk_of_reachable_waited :
    ∃ s, s.live = [(1024, 10), (1048, 33)] ∧ s.ret = [(0, .E_OK), (1, .E_OK), (2, .E_OK), (0, .E_OK)] ∧
      MplOk ⟨true, false, 57, 1024, 512⟩ s := by
  let p : MplCfg := ⟨true, false, 57, 1024, 512⟩
  have ok : p.Placed := ⟨by decide, by decide, by decide, by decide, by decide⟩
  let es : List MplEvent := [.tkGetMpl 0 false 16 .TMO_POL, .tkGetMpl 1 false 33 .TMO_FEVR,
    .tkGetMpl 2 false 10 (.after 5), .tkRelMpl 0 false 1024]
  have trace : (((mplMachine p).exec (fun _ _ => true)
      (MplSys.created p ⟨fun _ => 0, fun _ => 0⟩ fun t => t) es).any fun s =>
        s.live == [(1024, 10), (1048, 33)] && s.exists_ &&
          s.ret == [(0, .E_OK), (1, .E_OK), (2, .E_OK), (0, .E_OK)]) = true := by
    decide +kernel
  obtain ⟨s, hs, hp⟩ := Lts.reachable_of_trace (L := mplMachine p) es
    ⟨⟨by decide, by decide⟩, ⟨fun _ => 0, fun _ => 0⟩, fun t => t, rfl⟩ trace
  simp only [Bool.and_eq_true, beq_iff_eq] at hp
  exact ⟨s, hp.1.1, hp.2, mplOk_of_reachable p ok hs hp.1.2⟩

end Mtk3Smp
