import Mtk3Smp.Lib.DList

/-!
# QUEUE cells and the area queues

`sys/queue.h` and the functions of `memory.c` that the kernel heap and the memory pools share.
Memory is seen as its QUEUE cells: `next` and `prev` by the address of the cell, 0 being NULL.
`prev` of an area header carries the flag AREA_USE in its lowest bit.
-/

namespace Mtk3Smp

structure Qmem where
  next : Nat → Nat
  prev : Nat → Nat

def NULL : Nat := 0

namespace Qmem

variable (m : Qmem)

def setNext (q v : Nat) : Qmem := { m with next := Function.update m.next q v }
def setPrev (q v : Nat) : Qmem := { m with prev := Function.update m.prev q v }

@[simp] theorem setNext_next (q v : Nat) : (m.setNext q v).next = Function.update m.next q v := rfl
@[simp] theorem setNext_prev (q v : Nat) : (m.setNext q v).prev = m.prev := rfl
@[simp] theorem setPrev_next (q v : Nat) : (m.setPrev q v).next = m.next := rfl
@[simp] theorem setPrev_prev (q v : Nat) : (m.setPrev q v).prev = Function.update m.prev q v := rfl

/-! ## `sys/queue.h` -/

def queInit (que : Nat) : Qmem := (m.setNext que que).setPrev que que

def queInsert (entry que : Nat) : Qmem :=
  let m := m.setPrev entry (m.prev que)
  let m := m.setNext entry que
  let m := m.setNext (m.prev que) entry
  m.setPrev que entry

def queRemove (entry : Nat) : Qmem :=
  if m.next entry ≠ entry then
    let m := m.setNext (m.prev entry) (m.next entry)
    m.setPrev (m.next entry) (m.prev entry)
  else m

/-! ## `memory.h`: sizes and flags

The addresses of areas are even, so that an address and a flag are added. -/

/-- `sizeof(QUEUE)`: `q + 1` in the source is `q + QUEUESZ`. -/
def QUEUESZ : Nat := 8

def MIN_FRAGMENT : Nat := 16

/-- `ROUND`, for sizes that do not overflow. -/
def ROUND (sz : Nat) : Nat := (sz + 7) / 8 * 8

def MAX_ALLOCATE : Nat := 2147483640

def mask (x : Nat) : Nat := x / 2 * 2

def setAreaFlag (q : Nat) : Qmem := m.setPrev q (mask (m.prev q) + 1)
def clrAreaFlag (q : Nat) : Qmem := m.setPrev q (mask (m.prev q))
def chkAreaFlag (q : Nat) : Bool := m.prev q % 2 == 1

/-- `Assign(q->prev, y)` -/
def assignPrev (q y : Nat) : Qmem := m.setPrev q (m.prev q % 2 + y)

def areaSize (aq : Nat) : Nat := m.next aq - (aq + QUEUESZ)
def freeSize (fq : Nat) : Nat := m.prev (fq + QUEUESZ)

end Qmem

/-- IMACB: `memsz` and the addresses of `areaque` and `freeque`. -/
structure Imacb where
  memsz : Nat
  areaque : Nat
  freeque : Nat

namespace Qmem

variable (m : Qmem) (c : Imacb)

/-- The loop of `knl_searchFreeArea` from the larger sizes; `fuel` bounds its rounds. -/
def searchDown (blksz : Nat) : Nat → Nat → Nat → Nat
  | 0, q, _ => q
  | fuel + 1, q, fsz =>
    let q := m.prev q
    if q = c.freeque then if blksz ≤ fsz then m.next q else q
    else
      let fsz := m.freeSize q
      if fsz ≤ blksz then if fsz < blksz then m.next q else q
      else searchDown blksz fuel q fsz

/-- The loop from the smaller sizes. -/
def searchUp (blksz : Nat) : Nat → Nat → Nat
  | 0, q => q
  | fuel + 1, q =>
    let q := m.next q
    if q = c.freeque then q
    else if blksz ≤ m.freeSize q then q
    else searchUp blksz fuel q

/-- `knl_searchFreeArea`: there are fewer free areas than bytes. -/
def knlSearchFreeArea (blksz : Nat) : Nat :=
  if c.memsz / 4 < blksz then m.searchDown c blksz (c.memsz + 1) c.freeque 0
  else m.searchUp c blksz (c.memsz + 1) c.freeque

/-- The registration in `knl_appendFreeArea` and `knl_appendFreeAreaBound`: `q` is the area
behind its header, `size` its size and `fq` what the search has returned. -/
def registerFree (q size fq : Nat) : Qmem :=
  if fq ≠ c.freeque ∧ m.freeSize fq = size then
    let m := m.setNext (q + QUEUESZ) (m.next (fq + QUEUESZ))
    let m := m.setNext (fq + QUEUESZ) (q + QUEUESZ)
    let m := m.setPrev (q + QUEUESZ) (fq + QUEUESZ)
    let m :=
      if m.next (q + QUEUESZ) ≠ NULL then m.setPrev (m.next (q + QUEUESZ)) (q + QUEUESZ) else m
    m.setNext q NULL
  else
    let m := m.queInsert q fq
    let m := m.setNext (q + QUEUESZ) NULL
    m.setPrev (q + QUEUESZ) size

/-- `knl_appendFreeArea` -/
def knlAppendFreeArea (aq : Nat) : Qmem :=
  let size := m.areaSize aq
  let fq := m.knlSearchFreeArea c size
  (m.clrAreaFlag aq).registerFree c (aq + QUEUESZ) size fq

/-- `knl_removeFreeQue` -/
def knlRemoveFreeQue (fq : Nat) : Qmem :=
  if m.next fq = NULL then
    let m := m.setNext (m.prev (fq + QUEUESZ)) (m.next (fq + QUEUESZ))
    if m.next (fq + QUEUESZ) ≠ NULL then
      m.setPrev (m.next (fq + QUEUESZ)) (m.prev (fq + QUEUESZ))
    else m
  else
    let m :=
      if m.next (fq + QUEUESZ) ≠ NULL then
        let m := m.queInsert (m.next (fq + QUEUESZ) - QUEUESZ) fq
        m.setPrev (m.next (fq + QUEUESZ)) (m.prev (fq + QUEUESZ))
      else m
    m.queRemove fq

/-- `knl_insertAreaQue` -/
def knlInsertAreaQue (que ent : Nat) : Qmem :=
  let m := m.setPrev ent que
  let m := m.setNext ent (m.next que)
  let m := m.assignPrev (m.next que) ent
  m.setNext que ent

/-- `knl_removeAreaQue` -/
def knlRemoveAreaQue (aq : Nat) : Qmem :=
  let m := m.setNext (mask (m.prev aq)) (m.next aq)
  m.assignPrev (m.next aq) (mask (m.prev aq))

end Qmem

end Mtk3Smp
