import Mtk3Smp.Mem.Live
import Mtk3Smp.Lib.Lts
import Mathlib.Algebra.Order.Ring.Nat

/-!
# The kernel heap

`memory.c`: `knl_Imalloc`, `knl_Icalloc`, `knl_Irealloc` and `knl_Ifree` over the area queue and
the free queue of `knl_imacb`. Each holds the kernel lock over its accesses, so a run is a
sequence of calls; between them the owners of blocks write what they like into them.
-/

namespace Mtk3Smp

open Qmem

/-- `knl_lowmem_top` and `knl_lowmem_limit` at start-up. -/
structure HeapCfg where
  lowmemTop : Nat
  lowmemLimit : Nat

namespace HeapCfg

variable (k : HeapCfg)

/-- The addresses `knl_init_Imalloc` computes. -/
def imacb : Nat := (k.lowmemTop + 3) / 4 * 4
def areaque : Nat := k.imacb + 4
def freeque : Nat := k.imacb + 12
def top : Nat := (k.imacb + 20 + 7) / 8 * 8
def memsz : Nat := k.lowmemLimit - k.top - QUEUESZ * 2
def endq : Nat := k.top + k.memsz + QUEUESZ

def c : Imacb := { memsz := k.memsz, areaque := k.areaque, freeque := k.freeque }

/-- The region ends at a word boundary, below 2^31, and holds an area. -/
structure Ok : Prop where
  limit : k.lowmemLimit % 4 = 0
  lt : k.lowmemLimit < 2 ^ 31
  room : k.top + QUEUESZ * 2 + MIN_FRAGMENT ≤ k.lowmemLimit

/-- `initIMACB`, and the rest of `knl_init_Imalloc` over what memory holds. -/
def init (m : Qmem) : Qmem :=
  let m := (m.queInit k.areaque).queInit k.freeque
  let m := m.knlInsertAreaQue k.areaque k.endq
  let m := m.knlInsertAreaQue k.areaque k.top
  let m := m.setAreaFlag k.endq
  let m := m.setAreaFlag k.areaque
  m.knlAppendFreeArea k.c k.top

/-- The heap's way of finding headers: `aq = q - 1`. -/
def variant : Variant where
  c := k.c
  aqOf q := q - QUEUESZ
  fqOf aq := aq + QUEUESZ
  appendRest m aq := m.knlAppendFreeArea k.c aq
  append m aq := m.knlAppendFreeArea k.c aq

/-- `knl_Imalloc`: the block, and memory after it; none where NULL is returned. -/
def knlImalloc (m : Qmem) (size : Int) : Option (Nat × Qmem) :=
  if size ≤ 0 then none
  else k.variant.getBlk m (if size < MIN_FRAGMENT then MIN_FRAGMENT else ROUND size.toNat)

/-- `knl_Ifree` -/
def knlIfree (m : Qmem) (ptr : Nat) : Qmem := k.variant.relBlk m ptr

end HeapCfg

/-- `knl_memset(ptr, 0, n)` and `knl_memcpy(dst, src, n)` on QUEUE cells. -/
def Qmem.knlMemset (m : Qmem) (ptr n : Nat) : Qmem where
  next a := if ptr ≤ a ∧ a < ptr + n then 0 else m.next a
  prev a := if ptr ≤ a ∧ a < ptr + n then 0 else m.prev a

def Qmem.knlMemcpy (m : Qmem) (dst src n : Nat) : Qmem where
  next a := if dst ≤ a ∧ a < dst + n then m.next (src + (a - dst)) else m.next a
  prev a := if dst ≤ a ∧ a < dst + n then m.prev (src + (a - dst)) else m.prev a

namespace HeapCfg

variable (k : HeapCfg)

/-- `knl_Icalloc` -/
def knlIcalloc (m : Qmem) (nmemb size : Int) : Option (Nat × Qmem) :=
  match k.knlImalloc m (nmemb * size) with
  | none => none
  | some (mem, m) => some (mem, m.knlMemset mem (nmemb * size).toNat)

/-- `knl_Irealloc`: the new block, NULL where there is none, and memory; none where the
allocation fails and nothing is done. -/
def knlIrealloc (m : Qmem) (ptr : Nat) (size : Int) : Option (Nat × Qmem) :=
  match (if size = 0 then some (NULL, m) else k.knlImalloc m size) with
  | none => none
  | some (newptr, m) =>
    if ptr = NULL then some (newptr, m)
    else
      let m :=
        if newptr ≠ NULL then
          let oldsz := m.areaSize (ptr - QUEUESZ)
          m.knlMemcpy newptr ptr (if oldsz < size then oldsz else size.toNat)
        else m
      some (newptr, k.knlIfree m ptr)

end HeapCfg

/-- A size whose rounded value does not overflow. -/
abbrev SizeFits (size : Int) : Prop := -2147483648 ≤ size ∧ size ≤ MAX_ALLOCATE

/-- Memory, and history: the live blocks with the sizes they were requested with. -/
structure HeapSys where
  mem : Qmem
  live : List (Nat × Nat)

inductive HeapEvent
  | knlImalloc (size : Int)
  | knlIcalloc (nmemb size : Int)
  | knlIrealloc (ptr : Nat) (size : Int)
  | knlIfree (ptr : Nat)
  /-- the owner of a block writes the cell at `a`, which begins inside it -/
  | store (ptr a next prev : Nat)

namespace HeapSys

variable (k : HeapCfg) (s : HeapSys)

def isLive (ptr : Nat) : Bool := s.live.any (·.1 == ptr)

/-- A call that has returned a block of `size` bytes. -/
def got (size : Int) : Option (Nat × Qmem) → HeapSys
  | none => s
  | some (ptr, m) => { mem := m, live := (ptr, size.toNat) :: s.live }

def step : HeapEvent → Option HeapSys
  | .knlImalloc size =>
    if SizeFits size then some (s.got size (k.knlImalloc s.mem size)) else none
  | .knlIcalloc nmemb size =>
    if SizeFits (nmemb * size) then
      some (s.got (nmemb * size) (k.knlIcalloc s.mem nmemb size))
    else none
  | .knlIrealloc ptr size =>
    if SizeFits size ∧ (ptr = NULL ∨ s.isLive ptr = true) then
      match k.knlIrealloc s.mem ptr size with
      | none => some s
      | some (newptr, m) =>
        let live := s.live.eraseP (·.1 == ptr)
        some { mem := m, live := if size = 0 then live else (newptr, size.toNat) :: live }
    else none
  | .knlIfree ptr =>
    if s.isLive ptr then
      some { mem := k.knlIfree s.mem ptr, live := s.live.eraseP (·.1 == ptr) }
    else none
  | .store ptr a next prev =>
    if s.live.any fun x => x.1 == ptr && decide (ptr ≤ a ∧ a < ptr + x.2) then
      some { s with mem := (s.mem.setNext a next).setPrev a prev }
    else none

end HeapSys

def heapMachine (k : HeapCfg) : Lts HeapSys HeapEvent where
  init s := ∃ m, s = { mem := k.init m, live := [] }
  step := HeapSys.step k

/-- The areas of the heap: in front of the first one stands `areaque`, which is no block. -/
def HeapCfg.layout (k : HeapCfg) : Layout :=
  { lo := k.top - QUEUESZ, limit := k.endq, areaque := k.areaque, fin := k.endq, fixed := true }

structure HeapOk (k : HeapCfg) (s : HeapSys) : Prop where
  /-- the areas tile the region, the area queue and its flags are theirs, no two neighbours are
  free, and the free queue holds the free ones by size; the used ones are the live blocks -/
  rep : ∃ as cs, Rep k.layout k.c s.mem as cs ∧ LiveIs [(k.top, 0)] as s.live
  aligned : ∀ x ∈ s.live, x.1 % 8 = 0
  inside : ∀ x ∈ s.live, k.top + QUEUESZ ≤ x.1 ∧ x.1 + x.2 + QUEUESZ ≤ k.lowmemLimit
  disjoint : s.live.Pairwise Disjoint2
  restored : s.live = [] → ∃ cs, Rep k.layout k.c s.mem
    [⟨k.top, 0, true⟩, ⟨k.top + QUEUESZ, k.memsz, false⟩] cs

end Mtk3Smp
