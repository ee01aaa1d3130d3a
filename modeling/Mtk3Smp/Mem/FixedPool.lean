import Mtk3Smp.Sync.Gcb
import Mtk3Smp.Lib.Lts
import Mtk3Smp.Lib.SChain
import Mathlib.Algebra.Order.Ring.Nat

/-!
# Fixed-size memory pools

`mempfix.c`. The calls work under the object lock of the pool, one write after the other. Only what
is in a critical section is a single step, so that in between the other core ends waits, changes
priorities, waits for the lock, or writes to the blocks that tasks have.
-/

namespace Mtk3Smp

open Gcb

/-- T_CMPF with the attributes TA_TPRI and TA_USERBUF, and the memory that the pool gets: its top
address and its size. -/
structure Cmpf where
  tpri : Bool
  userbuf : Bool
  mpfcnt : BitVec 32
  blfsz : BitVec 32
  mempool : Nat
  size : Nat

/-- `sizeof(FREEL)` -/
def MINSIZE : BitVec 32 := 4

def MINSZ (sz : BitVec 32) : BitVec 32 := (sz + (MINSIZE - 1)) &&& ~~~(MINSIZE - 1)

namespace Cmpf

variable (c : Cmpf)

/-- `mpfcb->blfsz` -/
def blk : Nat := (MINSZ c.blfsz).toNat

def cnt : Nat := c.mpfcnt.toNat

/-- `blfsz * pk_cmpf->mpfcnt` -/
def mpfsz : BitVec 32 := MINSZ c.blfsz * c.mpfcnt

/-- The checks of tk_cre_mpf. -/
def accepted : Bool :=
  0 < c.mpfcnt.toInt && 0 < c.blfsz.toInt && (!c.userbuf || MINSZ c.blfsz == c.blfsz)

/-- The memory: a caller's buffer is for as many blocks as he asks for, and `knl_Imalloc` returns
what `mpfsz` says. -/
structure Placed : Prop where
  covers : if c.userbuf then c.cnt * c.blk ≤ c.size else c.mpfsz.toNat ≤ c.size
  range : c.mempool + c.size ≤ 2 ^ 32

/-- `knl_mempool_end` -/
def mempoolEnd : Nat := (c.mempool + c.mpfsz.toNat) % 2 ^ 32

/-- CHK_PAR in tk_rel_mpf -/
def refuses (blf : Nat) : Bool :=
  blf < c.mempool || c.mempoolEnd ≤ blf ||
    (BitVec.ofNat 32 (blf - c.mempool)).toInt.tmod (MINSZ c.blfsz).toInt != 0

end Cmpf

/-- Where a task is with the calls. -/
inductive MpfPc
  | user
  /-- in `knl_LockOBJ` -/
  | get (tmout : Tmo)
  | rel (blf : Nat)
  | del
  /-- tk_get_mpf with the lock -/
  | inGet (tmout : Tmo)
  /-- before `frbcnt--` -/
  | taken (blf : Nat)
  /-- at `wait_mpf` -/
  | wait (tmout : Tmo)
  /-- tk_rel_mpf with the lock -/
  | inRel (blf : Nat)
  /-- before the look at the wait queue -/
  | give (blf : Nat)
  /-- before the insertion in the free list -/
  | free (blf : Nat)
  /-- before `frbcnt++` -/
  | freed (blf : Nat)
  /-- tk_del_mpf with the lock -/
  | inDel
  /-- before `knl_UnlockOBJ` -/
  | unlock (ercd : ER) (blf : Option Nat)
  | blocked
  deriving DecidableEq, Repr

structure MpfSys where
  /-- `mpfid != 0` -/
  exists_ : Bool
  frbcnt : Int
  unused : Nat
  freelist : Option Nat
  /-- the first word of each block, where a free block has `next` -/
  mem : Nat → Option Nat
  lock : Option Tid
  waitQueue : List (Waiter Unit)
  priority : Tid → Nat
  pc : Tid → MpfPc
  /-- history: the blocks that tasks have, and those with which tk_rel_mpf has been called, until
  they are free again -/
  held : List Nat
  back : List Nat
  /-- history: what the calls have returned, with what they have stored in `*p_blf` -/
  ret : List (Tid × ER × Option Nat)

inductive MpfEvent
  | tkGetMpf (t : Tid) (tmout : Tmo)
  | tkRelMpf (t : Tid) (blf : Nat)
  | tkDelMpf (t : Tid)
  /-- the next step of the task -/
  | go (t : Tid)
  | timeout (t : Tid)
  | tkRelWai (t : Tid)
  | tkTerTsk (t : Tid)
  | chgPri (t : Tid) (priority : Nat)
  /-- a task writes to a block that it has -/
  | write (blf : Nat) (val : Option Nat)

namespace MpfSys

variable (c : Cmpf) (s : MpfSys)

def goto (t : Tid) (p : MpfPc) : MpfSys := { s with pc := Function.update s.pc t p }

/-- The call of the task returns. -/
def retd (t : Tid) (e : ER) (blf : Option Nat) : MpfSys :=
  { s with ret := s.ret ++ [(t, e, blf)], pc := Function.update s.pc t .user }

/-- tk_rel_mpf does not take the block. -/
def keep (blf : Nat) : MpfSys := { s with held := blf :: s.held, back := s.back.erase blf }

/-- The block goes to the first waiting task. -/
def handOver (x : Waiter Unit) (rest : List (Waiter Unit)) (blf : Nat) : MpfSys :=
  { s with waitQueue := rest, held := blf :: s.held, back := s.back.erase blf }.retd x.tsk .E_OK
    (some blf)

/-- `knl_wait_delete`: the rounds, one for each waiting task. -/
def waitDelete : List (Waiter Unit) → MpfSys → MpfSys
  | [], s => s
  | x :: rest, s => waitDelete rest ({ s with waitQueue := rest }.retd x.tsk .E_DLT none)

/-- The next step of the task. -/
def go (t : Tid) : Option MpfSys :=
  match s.pc t with
  | .user | .blocked => none
  | .get tmout => if s.lock = none then some ({ s with lock := some t }.goto t (.inGet tmout)) else none
  | .rel blf => if s.lock = none then some ({ s with lock := some t }.goto t (.inRel blf)) else none
  | .del => if s.lock = none then some ({ s with lock := some t }.goto t .inDel) else none
  | .inGet tmout =>
    if !s.exists_ then some (s.goto t (.unlock .E_NOEXS none))
    else if s.frbcnt ≤ 0 then some (s.goto t (.wait tmout))
    else
      match s.freelist with
      | some free => some ({ s with freelist := s.mem free }.goto t (.taken free))
      | none => some ({ s with unused := (s.unused + c.blk) % 2 ^ 32 }.goto t (.taken s.unused))
  | .taken blf =>
    some ({ s with frbcnt := s.frbcnt - 1, held := blf :: s.held }.goto t (.unlock .E_OK (some blf)))
  | .wait tmout =>
    if tmout = .TMO_POL then some ({ s with lock := none }.retd t .E_TMOUT none)
    else
      some ({ s with
        waitQueue := knlGcbMakeWait c.tpri s.priority ⟨t, tmout, ()⟩ s.waitQueue
        lock := none }.goto t .blocked)
  | .inRel blf =>
    if !s.exists_ then some ((s.keep blf).goto t (.unlock .E_NOEXS none))
    else if c.refuses blf then some ((s.keep blf).goto t (.unlock .E_PAR none))
    else some (s.goto t (.give blf))
  | .give blf =>
    match s.waitQueue with
    | x :: rest => some ((s.handOver x rest blf).goto t (.unlock .E_OK none))
    | [] => some (s.goto t (.free blf))
  | .free blf =>
    some ({ s with
      mem := Function.update s.mem blf s.freelist
      freelist := some blf
      back := s.back.erase blf }.goto t (.freed blf))
  | .freed _ => some ({ s with frbcnt := s.frbcnt + 1 }.goto t (.unlock .E_OK none))
  | .inDel =>
    if !s.exists_ then some (s.goto t (.unlock .E_NOEXS none))
    else some ({ waitDelete s.waitQueue s with exists_ := false }.goto t (.unlock .E_OK none))
  | .unlock ercd blf => some ({ s with lock := none }.retd t ercd blf)

/-- A waiting task leaves the queue. -/
def endWait (t : Tid) (e : ER) : MpfSys :=
  { s with waitQueue := queRemove t s.waitQueue }.retd t e none

/-- tk_ter_tsk, where the task is not `klocked`: it leaves the wait queue of the pool or of the
lock, and a block that it was about to give back stays with whoever knows it. -/
def terTsk (t : Tid) : MpfSys :=
  match s.pc t with
  | .rel blf => (s.keep blf).goto t .user
  | .blocked => { s with waitQueue := queRemove t s.waitQueue }.goto t .user
  | _ => s.goto t .user

def chgPri (t : Tid) (priority : Nat) : MpfSys :=
  let s := { s with priority := Function.update s.priority t priority }
  if c.tpri then { s with waitQueue := Gcb.knlGcbChangePriority s.priority t s.waitQueue } else s

def step : MpfEvent → Option MpfSys
  | .tkGetMpf t tmout => if s.pc t = .user then some (s.goto t (.get tmout)) else none
  -- with a block that some task has
  | .tkRelMpf t blf =>
    if s.pc t = .user ∧ blf ∈ s.held then
      some ({ s with held := s.held.erase blf, back := blf :: s.back }.goto t (.rel blf))
    else none
  | .tkDelMpf t => if s.pc t = .user then some (s.goto t .del) else none
  | .go t => s.go c t
  | .timeout t => if timed t s.waitQueue then some (s.endWait t .E_TMOUT) else none
  | .tkRelWai t => if waiting t s.waitQueue then some (s.endWait t .E_RLWAI) else none
  | .tkTerTsk t => if s.lock = some t then none else some (s.terTsk t)
  | .chgPri t priority => some (s.chgPri c t priority)
  | .write blf val =>
    if blf ∈ s.held then some { s with mem := Function.update s.mem blf val } else none

/-- What tk_cre_mpf leaves. -/
def created (priority : Tid → Nat) (mem : Nat → Option Nat) : MpfSys :=
  { exists_ := true
    frbcnt := c.mpfcnt.toInt
    unused := c.mempool
    freelist := none
    mem
    lock := none
    waitQueue := []
    priority
    pc := fun _ => .user
    held := []
    back := []
    ret := [] }

/-- The blocks that have been handed out and not been given back. -/
def outstanding : List Nat := s.held ++ s.back

end MpfSys

def mpfMachine (c : Cmpf) : Lts MpfSys MpfEvent where
  init s := c.accepted = true ∧ c.Placed ∧ ∃ priority mem, s = MpfSys.created c priority mem
  step := MpfSys.step c

/-- The task is between a change of the free list and that of `frbcnt`. -/
def MpfPc.counting : MpfPc → Bool
  | .taken _ | .freed _ => true
  | _ => false

/-- The block lies in the memory of the pool. -/
def Cmpf.Inside (c : Cmpf) (blf : Nat) : Prop :=
  c.mempool ≤ blf ∧ blf + c.blk ≤ c.mempool + c.size

structure MpfOk (c : Cmpf) (s : MpfSys) : Prop where
  large : c.blfsz.toNat ≤ c.blk
  inside : ∀ blf ∈ s.outstanding, c.Inside blf
  handed : ∀ r ∈ s.ret, ∀ blf, r.2.2 = some blf → c.Inside blf
  disjoint : s.outstanding.Pairwise fun b d => b + c.blk ≤ d ∨ d + c.blk ≤ b
  count : (∀ t, (s.pc t).counting = false) → s.frbcnt + s.outstanding.length = c.cnt
  waits : s.waitQueue ≠ [] → s.frbcnt = 0

end Mtk3Smp
