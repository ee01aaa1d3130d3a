import Mtk3Smp.Lib.Rings

/-!
# Kernel data

The task control blocks, the queues they are linked into and the per-core words of the SMP
build (`knlinc/smp.h`). What the kernel touches only under the kernel lock is `Knl`; the
words that the dispatchers read and write without it are `Slots`.
-/

namespace Mtk3Smp

/-- The processors, `TK_MAX_CORE` of them. -/
inductive Core
  | core0
  | core1
  deriving DecidableEq, Repr

def Core.other : Core → Core
  | .core0 => .core1
  | .core1 => .core0

@[simp] theorem Core.other_other (c : Core) : c.other.other = c := by cases c <;> rfl
@[simp] theorem Core.other_ne (c : Core) : c.other ≠ c := by cases c <;> simp [Core.other]
@[simp] theorem Core.ne_other (c : Core) : c ≠ c.other := (Core.other_ne c).symm

theorem Core.eq_or_other (c d : Core) : d = c ∨ d = c.other := by
  cases c <;> cases d <;> simp [Core.other]

theorem Core.eq_other {c d : Core} (h : d ≠ c) : d = c.other :=
  (Core.eq_or_other c d).resolve_left h

/-- An array with an entry for each core. -/
@[ext] structure PerCore (α : Type) where
  core0 : α
  core1 : α
  deriving DecidableEq

namespace PerCore

variable {α : Type}

def get (a : PerCore α) : Core → α
  | .core0 => a.core0
  | .core1 => a.core1

instance : CoeFun (PerCore α) fun _ => Core → α := ⟨get⟩

def ofFn (f : Core → α) : PerCore α := ⟨f .core0, f .core1⟩

def set (a : PerCore α) (c : Core) (v : α) : PerCore α :=
  match c with
  | .core0 => { a with core0 := v }
  | .core1 => { a with core1 := v }

@[simp] theorem get_ofFn (f : Core → α) (c : Core) : ofFn f c = f c := by cases c <;> rfl

@[simp] theorem get_set_self (a : PerCore α) (c : Core) (v : α) : a.set c v c = v := by
  cases c <;> rfl

@[simp] theorem get_set_ne (a : PerCore α) {c d : Core} (v : α) (h : d ≠ c) :
    a.set c v d = a d := by
  cases c <;> cases d <;> first | rfl | exact absurd rfl h

@[simp] theorem get_set_other (a : PerCore α) (c : Core) (v : α) :
    a.set c v c.other = a c.other := by simp

@[simp] theorem get_other_set (a : PerCore α) (c : Core) (v : α) :
    a.set c.other v c = a c := by simp

theorem get_set (a : PerCore α) (c d : Core) (v : α) :
    a.set c v d = if d = c then v else a d := by
  by_cases h : d = c
  · subst h; simp
  · simp [h]

@[simp] theorem set_set (a : PerCore α) (c : Core) (v w : α) : (a.set c v).set c w = a.set c w := by
  cases c <;> rfl

theorem ext_get {a b : PerCore α} (h : ∀ c, a c = b c) : a = b := by
  cases a
  cases b
  exact PerCore.ext (h .core0) (h .core1)

end PerCore

/-- The bits of a processor mask that `ALL_CORE_BIT` keeps. -/
abbrev CoreMask := PerCore Bool

/-- A task: the index of its TCB in `knl_tcb_table`. -/
abbrev Tid := Nat

/-- A waitable object (GCB), an object lock (OBJLOCK), a mutex and a stack block. -/
abbrev ObjId := Nat
abbrev LockId := Nat
abbrev MtxId := Nat
abbrev Blk := Nat

/-- `NUM_TSKPRI`: internal priorities are `0 … NUM_TSKPRI - 1`, 0 the highest. -/
def NUM_TSKPRI : Nat := 32

/-- `INT_MAX`, the limit of the suspend and wakeup counts. -/
def INT_MAX : Nat := 2147483647

/-- Values of `knl_dispatch_disabled`. -/
def DDS_ENABLE : Nat := 0
def DDS_DISABLE_IMPLICIT : Nat := 1
def DDS_DISABLE : Nat := 2

/-- The error codes of the modelled calls. -/
inductive ER
  | E_OK | E_ID | E_NOEXS | E_OBJ | E_CTX | E_QOVR | E_LIMIT | E_ILUSE | E_TMOUT | E_PAR | E_RLWAI
  | E_DLT
  deriving DecidableEq, Repr

/-- TMO -/
inductive Tmo
  | TMO_POL
  | TMO_FEVR
  | after (ms : Nat)
  deriving DecidableEq, Repr

/-- `TSTAT`. `waitsus` is the bit set `TS_WAIT|TS_SUSPEND`. -/
inductive TStat
  | nonexist | ready | wait | suspend | waitsus | dormant
  deriving DecidableEq, Repr

/-- `knl_task_alive` (`task.h:40`). -/
def TStat.knlTaskAlive : TStat → Bool
  | .ready | .wait | .suspend | .waitsus => true
  | .nonexist | .dormant => false

/-- `(state & TS_WAIT) != 0`. -/
def TStat.hasWait : TStat → Bool
  | .wait | .waitsus => true
  | _ => false

/-- The wait specification and object of a waiting task. Only a TA_TPRI object has a
priority-change hook. -/
inductive Wspec
  | slp
  | dly
  | gcb (obj : ObjId) (tpri : Bool)
  deriving DecidableEq, Repr

/-- Task control block. -/
structure Tcb where
  /-- `tskatr & TA_USERBUF` -/
  userbuf : Bool
  assprc : CoreMask
  ipriority : Nat
  bpriority : Nat
  priority : Nat
  state : TStat
  klockwait : Bool
  klocked : Bool
  stkfree : Bool
  suscnt : Nat
  wupcnt : Nat
  wspec : Wspec
  /-- the block that holds the system stack -/
  isstack : Blk
  mtxlist : List MtxId

/-- The queue heads a TCB can be linked to: `knl_free_tcb`, `knl_ready_queue.tskque[]`,
`OBJLOCK.wtskq` and `GCB.wait_queue`. -/
inductive Que
  | free
  | ready (priority : Nat)
  | lockq (loc : LockId)
  | waitq (obj : ObjId)
  deriving DecidableEq, Repr

/-- History of the operations that reuse a task's stack. -/
inductive StackOp
  | del (t : Tid)
  | setup (t : Tid)
  deriving DecidableEq, Repr

def StackOp.task : StackOp → Tid
  | .del t | .setup t => t

/-- What is only touched under the kernel lock. -/
structure Knl where
  tcb : Tid → Tcb
  rings : Rings Que Tid
  /-- `knl_ready_queue.bitmap`, `.top_priority`, `.klocktsk` -/
  bitmap : Nat → Bool
  topPriority : Nat
  klocktsk : Option Tid
  /-- `OBJLOCK.wtskq.next != NULL` -/
  locked : LockId → Bool
  /-- `NUM_TSKID`: the TCBs are those below -/
  numTskid : Nat
  /-- the next block `knl_Imalloc` hands out, and history: the blocks given back and the
  stack operations, latest first -/
  nextBlk : Blk
  freed : List Blk
  stackOps : List StackOp

/-- A task slot that has never been used. -/
def Tcb.blank : Tcb :=
  { userbuf := false, assprc := .ofFn fun _ => false, ipriority := 0, bpriority := 0, priority := 0,
    state := .nonexist, klockwait := false, klocked := false, stkfree := false, suscnt := 0,
    wupcnt := 0, wspec := .slp, isstack := 0, mtxlist := [] }

/-- `knl_task_initialize` (`task.c:150`) with `n` task IDs. -/
def Knl.boot (n : Nat) : Knl :=
  { tcb := fun _ => .blank
    rings :=
      { que := fun q => if q = .free then List.range n else []
        link := fun t => if t < n then .member .free else .loose
        corrupt := false }
    bitmap := fun _ => false
    topPriority := NUM_TSKPRI
    klocktsk := none
    locked := fun _ => false
    numTskid := n
    nextBlk := 0
    freed := []
    stackOps := [] }

/-- What a `knl_ctxtsk` slot holds: NULL, the core's idle TCB, or a TCB of the table. -/
inductive Cur
  | null
  | idle
  | task (t : Tid)
  deriving DecidableEq, Repr

/-- The per-core words shared with the dispatchers, and `knl_smp_online_mask`. -/
structure Slots where
  ctxtsk : PerCore Cur
  schedtsk : PerCore (Option Tid)
  dispatchDisabled : PerCore Nat
  onlineMask : CoreMask

namespace Knl

/-- Writes fields of one TCB. -/
def setTcb (k : Knl) (t : Tid) (f : Tcb → Tcb) : Knl :=
  { k with tcb := Function.update k.tcb t (f (k.tcb t)) }

@[simp] theorem setTcb_rings (k : Knl) (t : Tid) (f : Tcb → Tcb) :
    (k.setTcb t f).rings = k.rings := rfl
@[simp] theorem setTcb_locked (k : Knl) (t : Tid) (f : Tcb → Tcb) :
    (k.setTcb t f).locked = k.locked := rfl
@[simp] theorem setTcb_numTskid (k : Knl) (t : Tid) (f : Tcb → Tcb) :
    (k.setTcb t f).numTskid = k.numTskid := rfl
@[simp] theorem setTcb_freed (k : Knl) (t : Tid) (f : Tcb → Tcb) :
    (k.setTcb t f).freed = k.freed := rfl
@[simp] theorem setTcb_nextBlk (k : Knl) (t : Tid) (f : Tcb → Tcb) :
    (k.setTcb t f).nextBlk = k.nextBlk := rfl
@[simp] theorem setTcb_stackOps (k : Knl) (t : Tid) (f : Tcb → Tcb) :
    (k.setTcb t f).stackOps = k.stackOps := rfl

theorem setTcb_tcb (k : Knl) (t x : Tid) (f : Tcb → Tcb) :
    (k.setTcb t f).tcb x = if x = t then f (k.tcb t) else k.tcb x := by
  by_cases h : x = t
  · subst h; simp [setTcb]
  · simp [setTcb, h]

@[simp] theorem setTcb_self (k : Knl) (t : Tid) (f : Tcb → Tcb) :
    (k.setTcb t f).tcb t = f (k.tcb t) := by simp [setTcb_tcb]

theorem setTcb_ne {k : Knl} {t x : Tid} {f : Tcb → Tcb} (h : x ≠ t) :
    (k.setTcb t f).tcb x = k.tcb x := by simp [setTcb_tcb, h]

end Knl

/-- `knl_is_ctxtsk` (`task.h:82`). -/
def knlIsCtxtsk (sl : Slots) (t : Tid) : Bool :=
  sl.ctxtsk .core0 == .task t || sl.ctxtsk .core1 == .task t

/-- `knl_ctxtsk_core` (`task.h:92`). -/
def knlCtxtskCore (sl : Slots) (t : Tid) : Option Core :=
  if sl.ctxtsk .core0 = .task t then some .core0
  else if sl.ctxtsk .core1 = .task t then some .core1
  else none

theorem knlIsCtxtsk_iff {sl : Slots} {t : Tid} :
    knlIsCtxtsk sl t = true ↔ ∃ c, sl.ctxtsk c = .task t := by
  simp only [knlIsCtxtsk, Bool.or_eq_true, beq_iff_eq]
  constructor
  · rintro (h | h)
    exacts [⟨_, h⟩, ⟨_, h⟩]
  · rintro ⟨c, h⟩
    cases c
    exacts [.inl h, .inr h]

theorem knlCtxtskCore_some {sl : Slots} {t : Tid} {c : Core} (h : knlCtxtskCore sl t = some c) :
    sl.ctxtsk c = .task t := by
  unfold knlCtxtskCore at h
  split at h
  · obtain rfl : Core.core0 = c := by simpa using h
    assumption
  · split at h
    · obtain rfl : Core.core1 = c := by simpa using h
      assumption
    · cases h

end Mtk3Smp
