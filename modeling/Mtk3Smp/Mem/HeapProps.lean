import Mtk3Smp.Mem.Heap

/-!
# The heap over whole runs

The queues of the heap represent its areas after every sequence of calls, the live blocks being
the used areas.
-/

namespace Mtk3Smp

open DList Qmem

/-! ## The heap's variant -/

namespace HeapCfg

variable {k : HeapCfg}

/-- Where `knl_init_Imalloc` puts its cells. -/
structure Order (k : HeapCfg) : Prop where
  areaque : k.areaque % 4 = 0
  freeque : k.freeque = k.areaque + 8
  top : k.freeque + 8 ≤ k.top
  top_mod : k.top % 8 = 0
  endq : k.endq = k.top + k.memsz + 8
  limit : k.endq + 8 = k.lowmemLimit
  memsz : 16 ≤ k.memsz
  memsz_mod : k.memsz % 4 = 0
  pos : 4 ≤ k.areaque

theorem Ok.order (ok : k.Ok) : k.Order := by
  obtain ⟨h1, h2, h3⟩ := ok
  have htop : k.top = (k.imacb + 20 + 7) / 8 * 8 := rfl
  have haq : k.areaque = k.imacb + 4 := rfl
  have hfq : k.freeque = k.imacb + 12 := rfl
  have himacb : k.imacb = (k.lowmemTop + 3) / 4 * 4 := rfl
  have hsz : k.memsz = k.lowmemLimit - k.top - 8 * 2 := rfl
  have hend : k.endq = k.top + k.memsz + 8 := rfl
  unfold QUEUESZ MIN_FRAGMENT at h3
  constructor <;> omega

theorem layout_ok (ok : k.Ok) : k.layout.Ok k.c := by
  obtain ⟨h1, h2, h3, h4, h5, h6, h7, h8, h9⟩ := ok.order
  have hlo : k.layout.lo = k.top - 8 := rfl
  have hlimit : k.layout.limit = k.endq := rfl
  have hfin : k.layout.fin = k.endq := rfl
  have haq : k.layout.areaque = k.areaque := rfl
  have hfq : k.c.freeque = k.freeque := rfl
  have hsz : k.c.memsz = k.memsz := rfl
  have hq : QUEUESZ = 8 := rfl
  have hmin : MIN_FRAGMENT = 16 := rfl
  constructor <;> simp only [hlo, hlimit, hfin, haq, hfq, hsz, hq, hmin] <;> omega

theorem heap_sound (ok : k.Ok) : k.variant.Sound k.layout := by
  have hord := ok.order
  have hlo : k.layout.lo + QUEUESZ = k.top := by
    show k.top - 8 + 8 = k.top
    have := hord.top
    have := hord.freeque
    omega
  have hnode : ∀ {blk : Nat}, blk ≠ k.top → k.layout.node blk = blk - QUEUESZ := by
    intro blk hne
    unfold Layout.node
    rw [hlo, if_neg hne]
  have happend : ∀ {m xs a ys cs}, Part k.layout k.c m (xs ++ a :: ys) cs → a.blk ≠ k.top →
      m.knlAppendFreeArea k.c (k.layout.node a.blk) =
        appendArea m k.c (k.layout.node a.blk) a.blk a.sz := by
    intro m xs a ys cs part hne
    have hin := tile_mem part.tile (by simp : a ∈ xs ++ a :: ys)
    rw [hlo] at hin
    have hback : k.layout.node a.blk + QUEUESZ = a.blk := by
      rw [hnode hne]
      have := hord.top
      unfold QUEUESZ
      omega
    have hsize : m.areaSize (k.layout.node a.blk) = a.sz := by
      unfold Qmem.areaSize
      rw [part.next_eq, hback]
      by_cases last : ys = []
      · subst last
        have htile := tile_last part.tile
        have hfin : k.layout.fin = k.layout.limit := rfl
        rw [if_pos rfl, hfin, ← htile]
        omega
      · rw [if_neg last]
        omega
    unfold knlAppendFreeArea appendArea
    rw [hsize, hback]
  constructor
  · intro a huse hin
    exact (hnode (hlo ▸ huse rfl)).symm
  · intro m as cs part a ha huse
    rcases tile_node part.tile ha with ⟨h1, -⟩ | ⟨-, h2⟩
    · exact absurd h1 (huse rfl)
    · exact h2
  · intro m xs a ys cs part hne
    exact happend part (hlo ▸ hne)
  · intro m xs a ys cs part huse
    exact happend part (hlo ▸ huse rfl)

/-! ## The initial setting -/

/-- The queues before the first area is put into the free queue. -/
def queued (k : HeapCfg) (m : Qmem) : Qmem :=
  let m := (m.queInit k.areaque).queInit k.freeque
  let m := m.knlInsertAreaQue k.areaque k.endq
  let m := m.knlInsertAreaQue k.areaque k.top
  let m := m.setAreaFlag k.endq
  m.setAreaFlag k.areaque

theorem init_eq (m : Qmem) : k.init m = (k.queued m).knlAppendFreeArea k.c k.top := rfl

/-- The links of the queues at the start. -/
theorem queued_links (ok : k.Ok) (m : Qmem) :
    (k.queued m).next k.areaque = k.top ∧ (k.queued m).next k.top = k.endq ∧
    (k.queued m).next k.endq = k.areaque ∧ (k.queued m).next k.freeque = k.freeque ∧
    (k.queued m).prev k.areaque = k.endq + 1 ∧ (k.queued m).prev k.top = k.areaque ∧
    (k.queued m).prev k.endq = k.top + 1 ∧ (k.queued m).prev k.freeque = k.freeque := by
  have hord := ok.order
  have h1 : k.freeque ≠ k.areaque := by have := hord.freeque; omega
  have h2 : k.top ≠ k.areaque := by have := hord.freeque; have := hord.top; omega
  have h3 : k.top ≠ k.freeque := by have := hord.top; omega
  have h4 : k.endq ≠ k.top := by have := hord.endq; omega
  have h5 : k.endq ≠ k.areaque := by
    have := hord.freeque
    have := hord.top
    have := hord.endq
    omega
  have h6 : k.endq ≠ k.freeque := by have := hord.top; have := hord.endq; omega
  have haq : k.areaque % 2 = 0 := by have := hord.areaque; omega
  have htop : mask k.top = k.top := mask_even (by have := hord.top_mod; omega)
  have hend : mask k.endq = k.endq := by
    refine mask_even ?_
    have := hord.endq
    have := hord.top_mod
    have := hord.memsz_mod
    omega
  simp [queued, queInit, knlInsertAreaQue, assignPrev, setAreaFlag, h1, h2, h4, h5, h1.symm,
    h2.symm, h3.symm, h4.symm, h5.symm, h6.symm, haq, htop, hend]

theorem queued_part (ok : k.Ok) (m : Qmem) : Part k.layout k.c (k.queued m)
    ([⟨k.top, 0, true⟩] ++ ⟨k.top + QUEUESZ, k.memsz, false⟩ :: []) [] := by
  have hord := ok.order
  obtain ⟨n1, n2, n3, n4, p1, p2, p3, p4⟩ := queued_links ok m
  have hq : QUEUESZ = 8 := rfl
  have hlo : k.layout.lo = k.top - 8 := rfl
  have hlimit : k.layout.limit = k.endq := rfl
  have hcells : ([⟨k.top, 0, true⟩] ++ ⟨k.top + QUEUESZ, k.memsz, false⟩ :: [] : List Area).map
      k.layout.cell = [(k.areaque, true), (k.top, false)] := by
    have := hord.top
    have haq : k.layout.areaque = k.areaque := rfl
    simp only [List.cons_append, List.nil_append, List.map_cons, List.map_nil, Layout.cell,
      Layout.node, hq, hlo, haq]
    rw [if_pos (by omega), if_neg (by omega), Nat.add_sub_cancel]
  obtain ⟨o1, o2, o3, o4, o5, o6, o7, o8, o9⟩ := hord
  have hfin : k.layout.fin = k.endq := rfl
  have hfq : k.c.freeque = k.freeque := rfl
  refine ⟨layout_ok ok, ?_, ?_, ?_, ?_, ?_⟩
  · rw [hcells, hfin]
    have hmask : ∀ {x}, x % 2 = 0 → mask (x + 1) = x := by
      intro x hx
      unfold mask
      omega
    refine ⟨⟨n3, ?_, n1, ?_, n2, ?_⟩, ?_, ?_, ?_, ?_, ?_⟩
    · show mask ((k.queued m).prev k.areaque) = k.endq
      rw [p1, hmask (by omega)]
    · show mask ((k.queued m).prev k.top) = k.areaque
      rw [p2, mask_even (by omega)]
    · show mask ((k.queued m).prev k.endq) = k.top
      rw [p3, hmask (by omega)]
    · intro n hn
      simp only [List.mem_cons, List.not_mem_nil, or_false] at hn
      rcases hn with rfl | rfl
      · simp only [chkAreaFlag, p1, beq_iff_eq]
        omega
      · simp only [chkAreaFlag, p2, beq_eq_false_iff_ne]
        omega
    · simp only [chkAreaFlag, p3, beq_iff_eq]
      omega
    · intro n hn
      simp only [List.mem_cons, List.not_mem_nil, or_false] at hn
      rcases hn with rfl | rfl <;> dsimp only <;> omega
    · omega
    · simp only [List.map_cons, List.map_nil, List.nodup_cons, List.mem_cons, List.not_mem_nil,
        or_false, List.nodup_nil, not_or, not_false_eq_true, and_true]
      omega
  · rw [hlo, hlimit]
    refine ⟨?_, ?_, ?_⟩
    · show k.top = k.top - 8 + QUEUESZ
      omega
    · show k.top + QUEUESZ = k.top - 8 + QUEUESZ + 0 + QUEUESZ
      omega
    · show k.top - 8 + QUEUESZ + 0 + QUEUESZ + k.memsz = k.endq
      omega
  · intro a ha
    simp only [List.cons_append, List.nil_append, List.mem_cons, List.not_mem_nil, or_false] at ha
    rcases ha with rfl | rfl <;> dsimp only <;> omega
  · refine ⟨⟨n4, p4⟩, by simp, List.Pairwise.nil, List.Pairwise.nil, by simp [freePairs], ?_⟩
    show k.freeque ≠ NULL
    unfold NULL
    omega
  · simp [freePairs]

/-- One free area after the first header. -/
theorem init_rep (ok : k.Ok) (m : Qmem) : ∃ cs, Rep k.layout k.c (k.init m)
    [⟨k.top, 0, true⟩, ⟨k.top + QUEUESZ, k.memsz, false⟩] cs := by
  have part := queued_part ok m
  have hord := ok.order
  have hq : QUEUESZ = 8 := rfl
  have hmin : MIN_FRAGMENT = 16 := rfl
  have htop : 8 ≤ k.top := by
    have := hord.top
    omega
  obtain ⟨cs, part', perm⟩ := part.append (by have := hord.memsz; exact this) (by simp [freePairs])
  have hcode := (heap_sound ok).append part fun _ => by
    show k.top + QUEUESZ ≠ k.top - 8 + QUEUESZ
    omega
  have hnode : k.layout.node (k.top + QUEUESZ) = k.top := by
    unfold Layout.node
    rw [if_neg (by show k.top + QUEUESZ ≠ k.top - 8 + QUEUESZ; omega), Nat.add_sub_cancel]
  simp only [hnode] at hcode part'
  have hcode : (k.queued m).knlAppendFreeArea k.c k.top =
      appendArea (k.queued m) k.c k.top (k.top + QUEUESZ) k.memsz := hcode
  rw [init_eq, hcode]
  refine ⟨cs, part', perm, ?_, ?_, ?_, ?_⟩
  · simp [NoAdj]
  · intro a ha
    have := hord.top_mod
    have hlo : k.layout.lo = k.top - 8 := rfl
    simp only [List.mem_cons, List.not_mem_nil, or_false] at ha
    rcases ha with rfl | rfl <;> dsimp only <;> omega
  · intro a ha huse
    simp only [List.mem_cons, List.not_mem_nil, or_false] at ha
    rcases ha with rfl | rfl
    · refine absurd ?_ (huse rfl)
      show k.top = k.top - 8 + QUEUESZ
      omega
    · exact hord.memsz
  · intro a ha huse
    simp only [List.mem_cons, List.not_mem_nil, or_false] at ha
    rcases ha with rfl | rfl
    · rfl
    · refine absurd (usable_of_ne ?_) huse
      show k.top + QUEUESZ ≠ k.top - 8 + QUEUESZ
      omega

end HeapCfg

/-! ## Runs -/

def HeapInv (k : HeapCfg) (s : HeapSys) : Prop :=
  Managed k.variant k.layout [(k.top, 0)] s.mem s.live

section

variable {k : HeapCfg} {s t : HeapSys} {m : Qmem} {x : Nat × Nat} {ptr : Nat} {size : Int}

theorem isLive_iff : s.isLive ptr = true ↔ ∃ x ∈ s.live, x.1 = ptr := by
  simp [HeapSys.isLive]

theorem HeapCfg.lo_eq (ok : k.Ok) : k.layout.lo + QUEUESZ = k.top ∧ k.layout.lo % 8 = 0 := by
  have hord := ok.order
  have := hord.top
  have := hord.freeque
  have := hord.top_mod
  have hlo : k.layout.lo = k.top - 8 := rfl
  rw [hlo]
  unfold QUEUESZ
  omega

/-- The block in front of all others is none of the live ones. -/
theorem HeapInv.ne_top (h : HeapInv k s) (hx : x ∈ s.live) : x.1 ≠ k.top := by
  have hn := h.nodup
  intro he
  rw [List.map_append, List.map_singleton, List.singleton_append, List.nodup_cons] at hn
  refine hn.1 ?_
  show k.top ∈ s.live.map Prod.fst
  rw [← he]
  exact List.mem_map_of_mem hx

/-- Where a live block lies. -/
theorem HeapInv.place (ok : k.Ok) (h : HeapInv k s) (hx : x ∈ s.live) :
    x.1 % 8 = 0 ∧ k.top + QUEUESZ ≤ x.1 ∧ x.1 + x.2 ≤ k.endq := by
  obtain ⟨h1, h2, h3⟩ := Managed.place h hx
  obtain ⟨hlo, hmod⟩ := HeapCfg.lo_eq ok
  have hne := h.ne_top hx
  have htop := ok.order.top_mod
  refine ⟨by omega, ?_, h3⟩
  unfold QUEUESZ at *
  omega

theorem round_ok (size : Int) (hpos : 0 < size) :
    let size' := if size < MIN_FRAGMENT then MIN_FRAGMENT else ROUND size.toNat
    size' % 8 = 0 ∧ MIN_FRAGMENT ≤ size' ∧ size.toNat ≤ size' := by
  unfold ROUND MIN_FRAGMENT
  split <;> omega

theorem HeapInv.malloc (ok : k.Ok) (h : HeapInv k s)
    (hsome : k.knlImalloc s.mem size = some (ptr, m)) :
    HeapInv k { mem := m, live := (ptr, size.toNat) :: s.live } := by
  unfold HeapCfg.knlImalloc at hsome
  by_cases nonpos : size ≤ 0
  · rw [if_pos nonpos] at hsome
    cases hsome
  · rw [if_neg nonpos] at hsome
    obtain ⟨hmod, hmin, hle⟩ := round_ok size (by omega)
    exact Managed.get h (HeapCfg.heap_sound ok) hmod hmin hle hsome

/-- What the owner of a block writes into it. -/
theorem HeapInv.fill (h : HeapInv k s) (hx : x ∈ s.live)
    (hs : ∀ n, n < x.1 ∨ x.1 + x.2 ≤ n → m.next n = s.mem.next n ∧ m.prev n = s.mem.prev n) :
    HeapInv k { s with mem := m } :=
  Managed.fill h hx hs

theorem HeapInv.free (ok : k.Ok) (h : HeapInv k s) (hx : x ∈ s.live) :
    HeapInv k { mem := k.knlIfree s.mem x.1, live := s.live.eraseP (·.1 == x.1) } := by
  refine Managed.rel h (HeapCfg.heap_sound ok) hx fun _ => ?_
  rw [(HeapCfg.lo_eq ok).1]
  exact h.ne_top hx

theorem knlMemset_off {n ptr len : Nat} (h : n < ptr ∨ ptr + len ≤ n) :
    (m.knlMemset ptr len).next n = m.next n ∧ (m.knlMemset ptr len).prev n = m.prev n := by
  have : ¬ (ptr ≤ n ∧ n < ptr + len) := by omega
  simp [knlMemset, this]

theorem knlMemcpy_off {n dst src len : Nat} (h : n < dst ∨ dst + len ≤ n) :
    (m.knlMemcpy dst src len).next n = m.next n ∧ (m.knlMemcpy dst src len).prev n = m.prev n := by
  have : ¬ (dst ≤ n ∧ n < dst + len) := by omega
  simp [knlMemcpy, this]

/-- NULL is no block. -/
theorem HeapInv.erase_null (ok : k.Ok) (h : HeapInv k s) :
    s.live.eraseP (·.1 == NULL) = s.live := by
  refine List.eraseP_of_forall_not fun x hx => ?_
  have hplace := (h.place ok hx).2.1
  unfold QUEUESZ NULL at *
  simp only [beq_iff_eq]
  omega

theorem HeapInv.icalloc (ok : k.Ok) (h : HeapInv k s) {nmemb : Int}
    (hsome : k.knlIcalloc s.mem nmemb size = some (ptr, m)) :
    HeapInv k { mem := m, live := (ptr, (nmemb * size).toNat) :: s.live } := by
  unfold HeapCfg.knlIcalloc at hsome
  cases halloc : k.knlImalloc s.mem (nmemb * size) with
  | none =>
    rw [halloc] at hsome
    cases hsome
  | some r =>
    rw [halloc] at hsome
    obtain ⟨rfl, rfl⟩ := Prod.ext_iff.1 (Option.some.inj hsome)
    have hgot := h.malloc ok halloc
    exact hgot.fill List.mem_cons_self fun n hn => knlMemset_off hn

theorem HeapInv.irealloc (ok : k.Ok) (h : HeapInv k s) (hptr : ptr = NULL ∨ s.isLive ptr = true)
    {newptr : Nat} (hsome : k.knlIrealloc s.mem ptr size = some (newptr, m)) :
    HeapInv k { mem := m
                live := if size = 0 then s.live.eraseP (·.1 == ptr)
                  else (newptr, size.toNat) :: s.live.eraseP (·.1 == ptr) } := by
  unfold HeapCfg.knlIrealloc at hsome
  by_cases zero : size = 0
  · rw [if_pos zero] at hsome
    rw [if_pos zero]
    dsimp only at hsome
    by_cases null : ptr = NULL
    · rw [if_pos null] at hsome
      obtain ⟨rfl, rfl⟩ := Prod.ext_iff.1 (Option.some.inj hsome)
      rw [null, h.erase_null ok]
      exact h
    · rw [if_neg null, if_neg (fun hn => hn rfl)] at hsome
      obtain ⟨rfl, rfl⟩ := Prod.ext_iff.1 (Option.some.inj hsome)
      obtain ⟨x, hx, rfl⟩ := isLive_iff.1 (hptr.resolve_left null)
      exact h.free ok hx
  · rw [if_neg zero] at hsome
    rw [if_neg zero]
    cases halloc : k.knlImalloc s.mem size with
    | none =>
      rw [halloc] at hsome
      cases hsome
    | some r =>
      obtain ⟨q, m₁⟩ := r
      rw [halloc] at hsome
      dsimp only at hsome
      have hgot := h.malloc ok halloc
      by_cases null : ptr = NULL
      · rw [if_pos null] at hsome
        obtain ⟨rfl, rfl⟩ := Prod.ext_iff.1 (Option.some.inj hsome)
        rw [null, h.erase_null ok]
        exact hgot
      · rw [if_neg null] at hsome
        obtain ⟨rfl, rfl⟩ := Prod.ext_iff.1 (Option.some.inj hsome)
        obtain ⟨x, hx, rfl⟩ := isLive_iff.1 (hptr.resolve_left null)
        -- the new block begins elsewhere
        have hne : q ≠ x.1 := by
          have hn := Managed.nodup hgot
          intro he
          rw [List.map_append, List.map_cons] at hn
          have hcons := List.nodup_cons.1 (List.nodup_append.1 hn).2.1
          refine hcons.1 ?_
          show q ∈ s.live.map Prod.fst
          rw [he]
          exact List.mem_map_of_mem hx
        have hq : q ≠ NULL := by
          have hplace := (hgot.place ok List.mem_cons_self).2.1
          have hplace : k.top + QUEUESZ ≤ q := hplace
          unfold QUEUESZ NULL at *
          omega
        rw [if_pos hq]
        have hcopy := hgot.fill List.mem_cons_self (m := m₁.knlMemcpy q x.1
          (if (m₁.areaSize (x.1 - QUEUESZ) : Int) < size then m₁.areaSize (x.1 - QUEUESZ)
            else size.toNat)) fun n hn => knlMemcpy_off (by
              dsimp only at hn
              split <;> omega)
        have hfree := hcopy.free ok (List.mem_cons_of_mem _ hx)
        dsimp only at hfree
        rw [List.eraseP_cons_of_neg (by simpa using hne)] at hfree
        exact hfree

theorem heapInv_step (ok : k.Ok) (h : HeapInv k s) {e : HeapEvent}
    (hs : HeapSys.step k s e = some t) : HeapInv k t := by
  cases e with
  | knlImalloc size =>
    dsimp only [HeapSys.step] at hs
    split at hs
    · obtain rfl := Option.some.inj hs
      unfold HeapSys.got
      cases halloc : k.knlImalloc s.mem size with
      | none => exact h
      | some r => exact h.malloc ok halloc
    · cases hs
  | knlIcalloc nmemb size =>
    dsimp only [HeapSys.step] at hs
    split at hs
    · obtain rfl := Option.some.inj hs
      unfold HeapSys.got
      cases halloc : k.knlIcalloc s.mem nmemb size with
      | none => exact h
      | some r => exact h.icalloc ok halloc
    · cases hs
  | knlIrealloc ptr size =>
    dsimp only [HeapSys.step] at hs
    split at hs
    · rename_i hguard
      cases halloc : k.knlIrealloc s.mem ptr size with
      | none =>
        rw [halloc] at hs
        obtain rfl := Option.some.inj hs
        exact h
      | some r =>
        rw [halloc] at hs
        obtain rfl := Option.some.inj hs
        exact h.irealloc ok hguard.2 halloc
    · cases hs
  | knlIfree ptr =>
    dsimp only [HeapSys.step] at hs
    split at hs
    · rename_i hlive
      obtain rfl := Option.some.inj hs
      obtain ⟨x, hx, rfl⟩ := isLive_iff.1 hlive
      exact h.free ok hx
    · cases hs
  | store ptr a next prev =>
    dsimp only [HeapSys.step] at hs
    split at hs
    · rename_i hin
      obtain rfl := Option.some.inj hs
      obtain ⟨x, hx, hb⟩ := List.any_eq_true.1 hin
      simp only [Bool.and_eq_true, beq_iff_eq, decide_eq_true_eq] at hb
      refine h.fill hx fun n hn => ?_
      have hne : n ≠ a := by omega
      exact ⟨Function.update_of_ne hne _ _, Function.update_of_ne hne _ _⟩
    · cases hs

theorem heapInv_of_reachable (ok : k.Ok) (h : (heapMachine k).Reachable s) : HeapInv k s := by
  refine h.invariant (HeapInv k) ?_ fun s e t hinv _ hs => heapInv_step ok hinv hs
  rintro s ⟨m, rfl⟩
  obtain ⟨cs, rep⟩ := HeapCfg.init_rep ok m
  exact ⟨_, cs, rep, fun _ => 0, by simp [useds, Area.pair], by simp⟩

/-- Without live blocks there is one free area. -/
theorem HeapInv.restored (ok : k.Ok) (h : HeapInv k s) (hnil : s.live = []) :
    ∃ cs, Rep k.layout k.c s.mem
      [⟨k.top, 0, true⟩, ⟨k.top + QUEUESZ, k.memsz, false⟩] cs := by
  obtain ⟨as, cs, rep, live⟩ := h
  obtain ⟨hlo, -⟩ := HeapCfg.lo_eq ok
  have hord := ok.order
  have hlimit : k.layout.limit = k.endq := rfl
  obtain ⟨sz, perm, -⟩ := live.used
  rw [hnil, List.map_nil, List.append_nil] at perm
  have tile := rep.part.tile
  have hq : QUEUESZ = 8 := rfl
  cases as with
  | nil =>
    have hend : k.layout.lo = k.layout.limit := tile
    have := hord.endq
    omega
  | cons a rest =>
    obtain ⟨hblk, hrest⟩ := tile
    have hu : a.use = true := rep.fixed a List.mem_cons_self fun huse => huse rfl hblk
    rw [useds_cons_used hu] at perm
    have hone := List.perm_singleton.1 perm
    obtain ⟨hpair, hnone⟩ := List.cons.inj hone
    obtain ⟨hb, hsz⟩ := Prod.ext_iff.1 hpair
    have hsz : a.sz = 0 := hsz
    have hfree := free_of_useds_nil hnone
    have ha : a = ⟨k.top, 0, true⟩ := by
      cases a
      simp_all
    cases rest with
    | nil =>
      have hend : k.layout.lo + QUEUESZ + a.sz = k.layout.limit := hrest
      have := hord.endq
      omega
    | cons b rest =>
      obtain ⟨hbblk, htile⟩ := hrest
      obtain rfl := noAdj_one (List.isChain_cons_cons.1 rep.noAdj).2 hfree
      have hend : k.layout.lo + QUEUESZ + a.sz + QUEUESZ + b.sz = k.layout.limit := htile
      have hbsz : b.sz = k.memsz := by
        have := hord.endq
        omega
      have hb : b = ⟨k.top + QUEUESZ, k.memsz, false⟩ := by
        have hbu := hfree b List.mem_cons_self
        cases b
        simp_all
      rw [ha, hb] at rep
      exact ⟨cs, rep⟩

end

theorem heapOk_of_reachable (k : HeapCfg) (ok : k.Ok) {s : HeapSys}
    (h : (heapMachine k).Reachable s) : HeapOk k s := by
  have hinv := heapInv_of_reachable ok h
  have hord := ok.order
  refine ⟨hinv, fun x hx => (hinv.place ok hx).1, fun x hx => ?_, Managed.disjoint hinv,
    hinv.restored ok⟩
  obtain ⟨-, h1, h2⟩ := hinv.place ok hx
  have := hord.limit
  refine ⟨h1, ?_⟩
  unfold QUEUESZ
  omega

/-- Two blocks are allocated, the second one is written to and the first one is given back. -/
theorem heapOk_of_reachable_freed :
    ∃ s, (heapMachine ⟨4, 128⟩).Reachable s ∧ s.live = [(56, 24)] ∧ HeapOk ⟨4, 128⟩ s := by
  have ok : (⟨4, 128⟩ : HeapCfg).Ok := ⟨by decide, by decide, by decide⟩
  let es : List HeapEvent := [.knlImalloc 10, .knlImalloc 24, .store 56 56 7 9, .knlIfree 32]
  have trace : (((heapMachine ⟨4, 128⟩).exec (fun _ _ => true)
      { mem := HeapCfg.init ⟨4, 128⟩ ⟨fun _ => 0, fun _ => 0⟩, live := [] } es).any
        fun s => s.live == [(56, 24)]) = true := by
    decide +kernel
  obtain ⟨s, hs, hp⟩ :=
    Lts.reachable_of_trace (L := heapMachine ⟨4, 128⟩) es ⟨⟨fun _ => 0, fun _ => 0⟩, rfl⟩ trace
  exact ⟨s, hs, eq_of_beq hp, heapOk_of_reachable _ ok hs⟩

end Mtk3Smp
