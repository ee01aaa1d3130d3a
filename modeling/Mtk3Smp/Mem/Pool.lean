import Mtk3Smp.Mem.Live
import Mtk3Smp.Kernel.State
import Mtk3Smp.Lib.Lts
import Mathlib.Algebra.Order.Ring.Nat

/-!
# Variable size memory pools

`mempool.c`. A pool shares the queues of the heap, but the header of its first area and the end
of its area queue lie in the control block. Each call is one critical section, so a run on two
cores is a sequence of them; between them the owners of blocks write what they like into them.
-/

namespace Mtk3Smp

open Qmem

/-- `roundSize` (`memory.h`) -/
def roundSize (sz : Int) : Nat :=
  let sz := if sz < MIN_FRAGMENT then MIN_FRAGMENT else sz.toNat
  (sz + 7) / 8 * 8

/-- What tk_cre_mpl is given, and the addresses of the memory and of the MPLCB. -/
structure MplCfg where
  tpri : Bool
  userbuf : Bool
  cmplsz : Int
  mempool : Nat
  mplcb : Nat

namespace MplCfg

variable (p : MplCfg)

def mplsz : Nat := roundSize p.cmplsz

/-- The size passes the checks of tk_cre_mpl. -/
structure Accepted : Prop where
  range : 0 < p.cmplsz ∧ p.cmplsz ≤ MAX_ALLOCATE
  exact : p.userbuf = true → (p.mplsz : Int) = p.cmplsz

/-- MPLCB: `mplsz`, `areaque` and `freeque` lie as in an IMACB. -/
def areaque : Nat := p.mplcb + 24
def freeque : Nat := p.mplcb + 32
def areaqueEnd : Nat := p.mplcb + 40

def c : Imacb := { memsz := p.mplsz, areaque := p.areaque, freeque := p.freeque }

/-- Where the memory lies: a block of the heap or a buffer for words, and apart from the MPLCB. -/
structure Placed : Prop where
  word : p.mempool % 4 = 0
  imalloc : p.userbuf = false → p.mempool % 8 = 0
  lo : QUEUESZ ≤ p.mempool
  mplcb : p.mplcb % 4 = 0
  apart : p.mplcb + 52 ≤ p.mempool ∨ p.mempool + p.mplsz ≤ p.mplcb

/-- `knl_appendFreeAreaBound` -/
def knlAppendFreeAreaBound (m : Qmem) (aq : Nat) : Qmem :=
  let top := if aq = p.areaque then p.mempool else aq + QUEUESZ
  let end_ := if m.next aq = p.areaqueEnd then p.mempool + p.mplsz else m.next aq
  let size := end_ - top
  let fq := m.knlSearchFreeArea p.c size
  (m.clrAreaFlag aq).registerFree p.c top size fq

/-- The pool's way of finding headers, and its boundary areas. -/
def variant : Variant where
  c := p.c
  aqOf q := if q = p.mempool then p.areaque else q - QUEUESZ
  fqOf aq := if aq = p.areaque then p.mempool else aq + QUEUESZ
  appendRest m aq2 :=
    if m.next aq2 = p.areaqueEnd then p.knlAppendFreeAreaBound m aq2
    else m.knlAppendFreeArea p.c aq2
  append m aq :=
    if aq = p.areaque ∨ m.next aq = p.areaqueEnd then p.knlAppendFreeAreaBound m aq
    else m.knlAppendFreeArea p.c aq

/-- `knl_get_blk` -/
def knlGetBlk (m : Qmem) (blksz : Nat) : Option (Nat × Qmem) := p.variant.getBlk m blksz

/-- `knl_rel_blk`; none where E_PAR is returned. -/
def knlRelBlk (m : Qmem) (blk : Nat) : Option Qmem :=
  if !m.chkAreaFlag (p.variant.aqOf blk) then none else some (p.variant.relBlk m blk)

/-- `init_mempool`, over what memory holds. -/
def initMempool (m : Qmem) : Qmem :=
  let m := (m.queInit p.areaque).queInit p.freeque
  let m := m.knlInsertAreaQue p.areaque p.areaqueEnd
  let m := m.setAreaFlag p.areaqueEnd
  p.knlAppendFreeAreaBound m p.areaque

/-- `knl_MaxFreeSize` -/
def knlMaxFreeSize (m : Qmem) : Nat :=
  if m.next p.freeque = p.freeque then 0 else m.freeSize (m.prev p.freeque)

/-- The inner loop of tk_ref_mpl, from `q` on; `fuel` bounds its rounds. -/
def frszChain (m : Qmem) (blksz : Nat) : Nat → Nat → Nat → Nat
  | 0, _, frsz => frsz
  | fuel + 1, q, frsz => if q = NULL then frsz else frszChain m blksz fuel (m.next q) (frsz + blksz)

/-- The outer loop. -/
def frszLoop (m : Qmem) : Nat → Nat → Nat → Nat
  | 0, _, frsz => frsz
  | fuel + 1, fq, frsz =>
    if fq = p.freeque then frsz
    else
      let blksz := m.freeSize fq
      let frsz := frsz + blksz
      frszLoop m fuel (m.next fq) (frszChain m blksz (p.mplsz + 1) (m.next (fq + QUEUESZ)) frsz)

end MplCfg

/-- T_RMPL -/
structure Rmpl where
  wtsk : Option Tid
  frsz : Nat
  maxsz : Nat

/-- A task in the wait queue with `winfo.mpl`; `req` is the size it asked for. -/
structure MplWaiter where
  tsk : Tid
  blksz : Nat
  req : Nat
  tmout : Tmo

/-- A pool with the tasks that wait at it. -/
structure MplSys where
  /-- `mplid != 0` -/
  exists_ : Bool
  mem : Qmem
  waitQueue : List MplWaiter
  priority : Tid → Nat
  /-- history: the live blocks with the sizes they were requested with, and what calls returned -/
  live : List (Nat × Nat)
  ret : List (Tid × ER)

namespace MplSys

variable (p : MplCfg) (s : MplSys)

def retd (t : Tid) (e : ER) : MplSys := { s with ret := s.ret ++ [(t, e)] }

/-- The loop of `knl_mpl_wakeup`, over the tasks of the wait queue. -/
def wakeupLoop : List MplWaiter → MplSys → MplSys
  | [], s => { s with waitQueue := [] }
  | top :: rest, s =>
    if p.knlMaxFreeSize s.mem < top.blksz then { s with waitQueue := top :: rest }
    else
      match p.knlGetBlk s.mem top.blksz with
      | some (blk, m) =>
        wakeupLoop rest ({ s with mem := m, live := (blk, top.req) :: s.live }.retd top.tsk .E_OK)
      -- no check: the task returns with the block NULL
      | none => wakeupLoop rest ({ s with live := (NULL, top.req) :: s.live }.retd top.tsk .E_OK)

def knlMplWakeup : MplSys := wakeupLoop p s.waitQueue s

/-- `knl_queue_insert_tpri` -/
def insertTpri (priority : Tid → Nat) (x : MplWaiter) : List MplWaiter → List MplWaiter
  | [] => [x]
  | q :: rest =>
    if priority x.tsk < priority q.tsk then x :: q :: rest else q :: insertTpri priority x rest

/-- `knl_gcb_make_wait` -/
def makeWait (x : MplWaiter) : MplSys :=
  { s with
    waitQueue := if p.tpri then insertTpri s.priority x s.waitQueue else s.waitQueue ++ [x] }

/-- `knl_gcb_top_of_wait_queue(mplcb, t) == t`, for a task that is not in the queue. -/
def isTop (t : Tid) : Bool :=
  match s.waitQueue with
  | [] => true
  | q :: _ => p.tpri && s.priority t < s.priority q.tsk

def waiting (t : Tid) : Bool := s.waitQueue.any (·.tsk == t)

def isLive (blk : Nat) : Bool := s.live.any (·.1 == blk)

/-- tk_get_mpl, called by the task `self`; `ddsp` is `in_ddsp()`. -/
def tkGetMpl (self : Tid) (ddsp : Bool) (blksz : Int) (tmout : Tmo) : MplSys :=
  if ¬ (0 < blksz ∧ blksz ≤ MAX_ALLOCATE) then s.retd self .E_PAR
  else if ddsp then s.retd self .E_CTX
  else if !s.exists_ then s.retd self .E_NOEXS
  else if p.mplsz < roundSize blksz then s.retd self .E_PAR
  else
    match (if s.isTop p self then p.knlGetBlk s.mem (roundSize blksz) else none) with
    | some (blk, m) => { s with mem := m, live := (blk, blksz.toNat) :: s.live }.retd self .E_OK
    | none =>
      match tmout with
      | .TMO_POL => s.retd self .E_TMOUT
      | _ => s.makeWait p ⟨self, roundSize blksz, blksz.toNat, tmout⟩

/-- tk_rel_mpl -/
def tkRelMpl (self : Tid) (ddsp : Bool) (blk : Nat) : MplSys :=
  if ddsp then s.retd self .E_CTX
  else if !s.exists_ then s.retd self .E_NOEXS
  else if blk < p.mempool ∨ p.mempool + p.mplsz < blk then s.retd self .E_PAR
  else
    match p.knlRelBlk s.mem blk with
    | none => s.retd self .E_PAR
    | some m =>
      ({ s with mem := m, live := s.live.eraseP (·.1 == blk) }.knlMplWakeup p).retd self .E_OK

/-- tk_ref_mpl: the packet; none where it returns an error. -/
def tkRefMpl (ddsp : Bool) : Option Rmpl :=
  if ddsp then none
  else if !s.exists_ then none
  else
    some
      { wtsk := s.waitQueue.head?.map (·.tsk)
        frsz := p.frszLoop s.mem (p.mplsz + 1) (s.mem.next p.freeque) 0
        maxsz := p.knlMaxFreeSize s.mem }

/-- A waiting task leaves the queue and `mpl_rel_wai` runs: `e` is what its call returns, none
where it does not return (tk_ter_tsk). -/
def endWait (t : Tid) (e : Option ER) : MplSys :=
  let s := { s with waitQueue := s.waitQueue.eraseP (·.tsk == t) }
  (match e with
    | some e => s.retd t e
    | none => s).knlMplWakeup p

/-- `knl_change_task_priority`: only a TA_TPRI pool has the hook `mpl_chg_pri`. -/
def chgPri (t : Tid) (priority : Nat) : MplSys :=
  let s := { s with priority := Function.update s.priority t priority }
  match p.tpri, s.waitQueue.find? (·.tsk == t) with
  | true, some x =>
    { s with
      waitQueue := insertTpri s.priority x (s.waitQueue.eraseP (·.tsk == t)) }.knlMplWakeup p
  | _, _ => s

/-- tk_del_mpl -/
def tkDelMpl : MplSys :=
  if !s.exists_ then s
  else
    { s with
      exists_ := false
      waitQueue := []
      ret := s.ret ++ s.waitQueue.map fun x => (x.tsk, .E_DLT) }

end MplSys

inductive MplEvent
  | tkGetMpl (self : Tid) (ddsp : Bool) (blksz : Int) (tmout : Tmo)
  | tkRelMpl (self : Tid) (ddsp : Bool) (blk : Nat)
  /-- `knl_wait_release_tmout` from the timer, tk_rel_wai and tk_ter_tsk -/
  | timeout (t : Tid)
  | tkRelWai (t : Tid)
  | tkTerTsk (t : Tid)
  | chgPri (t : Tid) (priority : Nat)
  | tkDelMpl
  /-- the owner of a block writes the cell at `a`, which begins inside it -/
  | store (blk a next prev : Nat)

namespace MplSys

variable (p : MplCfg) (s : MplSys)

/-- The task waits with a timeout. -/
def timed (t : Tid) : Bool := s.waitQueue.any fun x => x.tsk == t && x.tmout != .TMO_FEVR

def step : MplEvent → Option MplSys
  -- a task that waits makes no call
  | .tkGetMpl self ddsp blksz tmout =>
    if s.waiting self then none else some (s.tkGetMpl p self ddsp blksz tmout)
  | .tkRelMpl self ddsp blk =>
    if s.waiting self = false ∧ s.isLive blk = true then some (s.tkRelMpl p self ddsp blk) else none
  | .timeout t => if s.timed t then some (s.endWait p t (some .E_TMOUT)) else none
  | .tkRelWai t => if s.waiting t then some (s.endWait p t (some .E_RLWAI)) else none
  | .tkTerTsk t => if s.waiting t then some (s.endWait p t none) else none
  | .chgPri t priority => some (s.chgPri p t priority)
  | .tkDelMpl => some s.tkDelMpl
  | .store blk a next prev =>
    if s.live.any fun x => x.1 == blk && decide (blk ≤ a ∧ a < blk + x.2) then
      some { s with mem := (s.mem.setNext a next).setPrev a prev }
    else none

/-- What tk_cre_mpl leaves. -/
def created (m : Qmem) (priority : Tid → Nat) : MplSys :=
  { exists_ := true, mem := p.initMempool m, waitQueue := [], priority, live := [], ret := [] }

end MplSys

def mplMachine (p : MplCfg) : Lts MplSys MplEvent where
  init s := p.Accepted ∧ ∃ m priority, s = MplSys.created p m priority
  step := MplSys.step p

/-- The areas of a pool: the first header and the end of the queue are in the MPLCB. -/
def MplCfg.layout (p : MplCfg) : Layout :=
  { lo := p.mempool - QUEUESZ
    limit := p.mempool + p.mplsz
    areaque := p.areaque
    fin := p.areaqueEnd
    fixed := false }

/-- `n` is the largest size, 0 where there is no block. -/
def LargestSize (blks : List (Nat × Nat)) (n : Nat) : Prop :=
  (∀ x ∈ blks, x.2 ≤ n) ∧ ((blks = [] ∧ n = 0) ∨ ∃ x ∈ blks, x.2 = n)

structure MplOk (p : MplCfg) (s : MplSys) : Prop where
  /-- the areas tile the pool, the area queue and its flags are theirs, no two neighbours are
  free, and the free queue holds the free ones by size; the used ones are the live blocks; and
  tk_ref_mpl reports the free ones -/
  rep : ∃ as cs, Rep p.layout p.c s.mem as cs ∧ LiveIs [] as s.live ∧
    ∃ rmpl, s.tkRefMpl p false = some rmpl ∧ rmpl.frsz = ((frees as).map Prod.snd).sum ∧
      LargestSize (frees as) rmpl.maxsz
  aligned : ∀ x ∈ s.live, x.1 % 8 = p.mempool % 8 ∧ (p.userbuf = false → x.1 % 8 = 0)
  inside : ∀ x ∈ s.live, p.mempool ≤ x.1 ∧ x.1 + x.2 ≤ p.mempool + p.mplsz
  disjoint : s.live.Pairwise Disjoint2
  restored : s.live = [] →
    ∃ cs, Rep p.layout p.c s.mem [⟨p.mempool, p.mplsz, false⟩] cs

end Mtk3Smp
