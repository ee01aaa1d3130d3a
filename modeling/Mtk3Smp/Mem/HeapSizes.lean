import Mtk3Smp.Mem.HeapProps
import Mathlib.Algebra.Order.Ring.Nat

/-!
# Sizes of the heap in 32 bits

`knl_Imalloc` for every SZ, with the conversions between W and UW on the way. For sizes whose
rounding does not overflow it is `knlImalloc`. The other ones are negative after it: the search
takes the first free area, whatever its size, and the rest of the area is outside the heap.
-/

namespace Mtk3Smp

/-- `(W)x` and `(UW)x` -/
def toW (x : Int) : Int := (x + 2 ^ 31) % 2 ^ 32 - 2 ^ 31
def toUW (x : Int) : Nat := (x % 2 ^ 32).toNat

namespace Qmem

variable (m : Qmem) (c : Imacb)

/-- `(SZ)ROUND(size)` -/
def ROUND32 (size : Int) : Int := toW ((toUW size + 7) % 2 ^ 32 / 8 * 8 : Nat)

/-- The loops of `knl_searchFreeArea` for a W. -/
def searchDown32 (blksz : Int) : Nat → Nat → Int → Nat
  | 0, q, _ => q
  | fuel + 1, q, fsz =>
    let q := m.prev q
    if q = c.freeque then if blksz ≤ fsz then m.next q else q
    else
      let fsz : Int := m.freeSize q
      if fsz ≤ blksz then if fsz < blksz then m.next q else q
      else searchDown32 blksz fuel q fsz

def searchUp32 (blksz : Int) : Nat → Nat → Nat
  | 0, q => q
  | fuel + 1, q =>
    let q := m.next q
    if q = c.freeque then q
    else if blksz ≤ m.freeSize q then q
    else searchUp32 blksz fuel q

/-- `knl_searchFreeArea` -/
def knlSearchFreeArea32 (blksz : Int) : Nat :=
  if ((c.memsz / 4 : Nat) : Int) < blksz then m.searchDown32 c blksz (c.memsz + 1) c.freeque 0
  else m.searchUp32 c blksz (c.memsz + 1) c.freeque

/-- `AreaSize`, a difference of addresses. -/
def areaSize32 (aq : Nat) : Int := toW (m.next aq - (aq + QUEUESZ : Nat))

/-- `knl_appendFreeArea` -/
def knlAppendFreeArea32 (aq : Nat) : Qmem :=
  let size := m.areaSize32 aq
  let fq := m.knlSearchFreeArea32 c size
  (m.clrAreaFlag aq).registerFree c (aq + QUEUESZ) (toUW size) fq

end Qmem

open Qmem

/-- `knl_Imalloc` for every SZ; the second area begins at an address modulo 2 ^ 32. -/
def HeapCfg.knlImalloc32 (k : HeapCfg) (m : Qmem) (size : Int) : Option (Nat × Qmem) :=
  if size ≤ 0 then none
  else
    let size := if size < MIN_FRAGMENT then (MIN_FRAGMENT : Int) else ROUND32 size
    let q := m.knlSearchFreeArea32 k.c size
    if q = k.freeque then none
    else
      let m := m.knlRemoveFreeQue q
      let aq := q - QUEUESZ
      let m :=
        -- the difference is compared with a size_t
        if MIN_FRAGMENT + QUEUESZ ≤ toUW (m.freeSize q - size) then
          let aq2 := toUW (q + size)
          (m.knlInsertAreaQue aq aq2).knlAppendFreeArea32 k.c aq2
        else m
      some (q, m.setAreaFlag aq)

section

variable {m : Qmem} {c : Imacb} {k : HeapCfg} {size : Int} {q : Nat}

theorem toUW_of_lt {x : Nat} (h : x < 2 ^ 32) : toUW x = x := by
  unfold toUW
  omega

theorem toW_of_lt {x : Nat} (h : x < 2 ^ 31) : toW x = x := by
  unfold toW
  omega

/-! ## Sizes that fit -/

theorem round32_fits (hpos : 0 < size) (hfit : size ≤ MAX_ALLOCATE) :
    ROUND32 size = (ROUND size.toNat : Nat) := by
  unfold ROUND32 toW toUW ROUND
  unfold MAX_ALLOCATE at hfit
  omega

theorem searchDown32_eq (blksz fuel q fsz : Nat) :
    m.searchDown32 c blksz fuel q fsz = m.searchDown c blksz fuel q fsz := by
  induction fuel generalizing q fsz with
  | zero => rfl
  | succ fuel ih => simp only [searchDown32, searchDown, Int.ofNat_le, Int.ofNat_lt, ih]

theorem searchUp32_eq (blksz fuel q : Nat) :
    m.searchUp32 c blksz fuel q = m.searchUp c blksz fuel q := by
  induction fuel generalizing q with
  | zero => rfl
  | succ fuel ih => simp only [searchUp32, searchUp, Int.ofNat_le, ih]

theorem knlSearchFreeArea32_eq (blksz : Nat) :
    m.knlSearchFreeArea32 c blksz = m.knlSearchFreeArea c blksz := by
  have hdown := searchDown32_eq (m := m) (c := c) blksz (c.memsz + 1) c.freeque 0
  rw [Int.natCast_zero] at hdown
  unfold knlSearchFreeArea32 knlSearchFreeArea
  rw [searchUp32_eq, hdown]
  simp only [Int.ofNat_lt]

/-- An area of the heap goes into the free queue. -/
theorem knlAppendFreeArea32_eq (ok : k.Ok) {xs ys : List Area} {a : Area} {cs : List Cls}
    (part : Part k.layout k.c m (xs ++ a :: ys) cs) (hne : a.blk ≠ k.top) :
    m.knlAppendFreeArea32 k.c (k.layout.node a.blk) =
      m.knlAppendFreeArea k.c (k.layout.node a.blk) := by
  obtain ⟨hlo, -⟩ := HeapCfg.lo_eq ok
  have hin := tile_mem part.tile (by simp : a ∈ xs ++ a :: ys)
  have hlimit : k.layout.limit = k.endq := rfl
  have hord := ok.order
  have hnode : k.layout.node a.blk + QUEUESZ = a.blk := by
    unfold Layout.node
    rw [hlo, if_neg hne]
    unfold QUEUESZ at *
    omega
  have hnext : m.next (k.layout.node a.blk) = a.blk + a.sz := by
    rw [part.next_eq]
    by_cases last : ys = []
    · subst last
      have hfin : k.layout.fin = k.layout.limit := rfl
      rw [if_pos rfl, hfin]
      exact (tile_last part.tile).symm
    · rw [if_neg last]
  have hlt : a.sz < 2 ^ 31 := by
    have := ok.lt
    have := hord.limit
    omega
  have h32 : m.areaSize32 (k.layout.node a.blk) = a.sz := by
    have hdiff : ((a.blk + a.sz : Nat) : Int) - (a.blk : Nat) = a.sz := by omega
    unfold areaSize32
    rw [hnode, hnext, hdiff]
    exact toW_of_lt hlt
  have hnat : m.areaSize (k.layout.node a.blk) = a.sz := by
    unfold areaSize
    rw [hnode, hnext, Nat.add_sub_cancel_left]
  unfold knlAppendFreeArea32 knlAppendFreeArea
  dsimp only
  rw [h32, hnat, knlSearchFreeArea32_eq, toUW_of_lt (by omega)]

/-- For sizes that fit the conversions change nothing. -/
theorem knlImalloc32_eq (ok : k.Ok) {as : List Area} {cs : List Cls}
    (rep : Rep k.layout k.c m as cs) (hfit : size ≤ MAX_ALLOCATE) :
    k.knlImalloc32 m size = k.knlImalloc m size := by
  unfold HeapCfg.knlImalloc32 HeapCfg.knlImalloc
  by_cases nonpos : size ≤ 0
  · rw [if_pos nonpos, if_pos nonpos]
  rw [if_neg nonpos, if_neg nonpos]
  obtain ⟨hmod, hmin, -⟩ := round_ok size (by omega)
  have hround : (if size < MIN_FRAGMENT then (MIN_FRAGMENT : Int) else ROUND32 size) =
      ((if size < MIN_FRAGMENT then MIN_FRAGMENT else ROUND size.toNat : Nat) : Int) := by
    split
    · rfl
    · exact round32_fits (by omega) hfit
  rw [hround]
  generalize (if size < MIN_FRAGMENT then MIN_FRAGMENT else ROUND size.toNat : Nat) = n
    at hmod hmin ⊢
  have hpos : 0 < n := Nat.lt_of_lt_of_le (by decide) hmin
  unfold Variant.getBlk
  dsimp only
  rw [knlSearchFreeArea32_eq]
  have hfq : k.variant.c.freeque = k.freeque := rfl
  have hc : k.variant.c = k.c := rfl
  rw [hfq, hc]
  by_cases hnone : m.knlSearchFreeArea k.c n = k.freeque
  · rw [if_pos hnone, if_pos hnone]
  rw [if_neg hnone, if_neg hnone]
  obtain ⟨xs, a, ys, rfl, hblk, hu, hle, hp, hfs⟩ := rep.found (v := k.variant) hpos hnone
  rw [hc] at hblk
  rw [← hblk]
  have ha : a ∈ xs ++ a :: ys := by simp
  have hin := tile_mem rep.part.tile ha
  have hlimit : k.layout.limit = k.endq := rfl
  obtain ⟨hlo, -⟩ := HeapCfg.lo_eq ok
  have hend : k.endq < 2 ^ 31 := by
    have := ok.lt
    have := ok.order.limit
    omega
  have hne : a.blk ≠ k.top := by
    intro he
    have := rep.fixed a ha fun huse => huse rfl (by rw [hlo, he])
    rw [hu] at this
    cases this
  obtain ⟨cs₁, part₁, perm₁, hsize₁⟩ := rep.part.removeFree hp
  have hsub : (a.sz : Int) - n = ((a.sz - n : Nat) : Int) := by omega
  rw [hsize₁, hfs, hsub, toUW_of_lt (by omega)]
  by_cases divide : MIN_FRAGMENT + QUEUESZ ≤ a.sz - n
  · rw [if_pos divide, if_pos divide, ← Int.natCast_add, toUW_of_lt (by omega)]
    have hnode : k.layout.node a.blk = a.blk - QUEUESZ := by
      unfold Layout.node
      rw [hlo, if_neg hne]
    have hnode2 : k.layout.node (a.blk + n + QUEUESZ) = a.blk + n := by
      unfold Layout.node
      rw [if_neg (by unfold QUEUESZ at *; omega)]
      exact Nat.add_sub_cancel _ _
    have part₂ := part₁.cut n (by omega) hpos (by unfold MIN_FRAGMENT QUEUESZ at *; omega)
      (not_mem_of_removed rep.part perm₁)
    have hassoc : ∀ w : Area, xs ++ { a with sz := n } :: w :: ys =
        (xs ++ [{ a with sz := n }]) ++ w :: ys := fun w => by simp
    rw [hassoc] at part₂
    have happend := knlAppendFreeArea32_eq ok part₂ (by
      show a.blk + n + QUEUESZ ≠ k.top
      unfold QUEUESZ at *
      omega)
    simp only [hnode, hnode2] at happend
    rw [happend]
    rfl
  · rw [if_neg divide, if_neg divide]
    rfl

end

end Mtk3Smp
