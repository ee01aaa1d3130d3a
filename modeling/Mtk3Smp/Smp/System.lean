import Mtk3Smp.Kernel.Calls
import Mtk3Smp.Smp.Access
import Mtk3Smp.Lib.Lts

/-!
# The two-core machine

One step is one access of a core to what it shares with the other: a dispatcher step
(`dispatch.S`), a step into or out of a critical section (`cpu_status.h`, `smp_lock.c`), a
call body under the kernel lock, one run of `knl_smp_reschedule_all`, or one unlocked slot
access of a task. Interrupt handlers nest on the task or on the dispatcher; PendSV, SysTick
and the IPI have the lowest priority, and a pending PendSV is taken before the next
instruction of a task that has interrupts enabled. A reschedule is a single step: it runs
under the kernel lock and writes each slot once, after all its reads.
-/

namespace Mtk3Smp

/-- An open section of the code a core executes, innermost first. -/
inductive Frame
  /-- an interrupt handler, through `knl_hll_inthdr` -/
  | isr
  /-- the IPI handler after `knl_ipi_take`; `resched` is KNL_IPI_RESCHEDULE -/
  | ipi (resched : Bool)
  /-- DI or the mask of ISpinLock, with the PRIMASK to restore -/
  | mask (primask : Bool)
  /-- in `knl_kernel_lock_enter`; `crit` tells BEGIN_CRITICAL_SECTION from DISABLE_INTERRUPT -/
  | enter (crit : Bool) (primask : Bool)
  /-- inside the section -/
  | held (crit : Bool) (primask : Bool)
  /-- END_CRITICAL_SECTION after KNL_KERNEL_LOCK_LEAVE -/
  | tail (primask : Bool)
  /-- a time-event handler, between `knl_kernel_lock_suspend` and `knl_kernel_lock_resume` -/
  | susp (depth : Nat)
  /-- in `knl_force_dispatch`, the lock abandoned -/
  | force
  /-- the context PendSV will discard -/
  | dead
  deriving DecidableEq

def Frame.isHandler : Frame → Bool
  | .isr | .ipi _ => true
  | _ => false

def Frame.isMask : Frame → Bool
  | .mask _ => true
  | _ => false

/-- The PendSV handler `knl_dispatch_entry` (`dispatch.S:84`). -/
inductive Disp
  | idle
  | entry
  /-- dispatching marked disabled -/
  | entered
  /-- context of `x` saved, `x` still in `knl_ctxtsk` -/
  | saved (x : Cur)
  /-- `knl_ctxtsk` cleared, still on the stack of `x` -/
  | cleared (x : Cur)
  /-- on the temporary stack, in `knl_smp_dispatch_release` -/
  | onTmp (x : Cur)
  /-- there, `stkfree` read true, taking the kernel lock -/
  | reclaim (t : Tid)
  | select
  /-- `knl_schedtsk` loaded -/
  | loaded (x : Option Tid)
  /-- `knl_ctxtsk` stored, on the stack of the new task -/
  | restored
  deriving DecidableEq

structure Sys where
  knl : Knl
  slots : Slots
  disp : PerCore Disp
  thr : Tid → Thr
  /-- the holder of the kernel lock is about to run `knl_smp_reschedule_all` -/
  due : Bool
  phase : Phase
  /-- history: the masks that the last reschedule computed -/
  offered : Tid → CoreMask
  /-- `knl_lock_word`, `knl_lock_depth[]` -/
  lock : Option Core
  depth : PerCore Nat
  primask : PerCore Bool
  pendsv : PerCore Bool
  /-- KNL_IPI_RESCHEDULE in `knl_ipi_pending[]` -/
  ipi : PerCore Bool
  frames : PerCore (List Frame)

/-- Both cores in their startup code, core 0 online. -/
def Sys.boot (n : Nat) : Sys :=
  { knl := .boot n
    slots :=
      { ctxtsk := .ofFn fun _ => .null
        schedtsk := .ofFn fun _ => none
        dispatchDisabled := .ofFn fun _ => DDS_ENABLE
        onlineMask := .ofFn fun c => c == .core0 }
    disp := .ofFn fun _ => .idle
    thr := fun _ => .user
    due := false
    phase := .idle
    offered := fun _ => .ofFn fun _ => false
    lock := none
    depth := .ofFn fun _ => 0
    primask := .ofFn fun _ => true
    pendsv := .ofFn fun _ => false
    ipi := .ofFn fun _ => false
    frames := .ofFn fun _ => [] }

/-- The call bodies; `self` is the caller. -/
inductive KEvent
  | creTsk (pk : TCtsk)
  | staTsk (t : Tid)
  | delTsk (t : Tid)
  | delDefer
  | terTsk (t : Tid)
  | extTsk
  | exdTsk
  /-- the end of the three, after the mutexes -/
  | terEnd
  | chgPri (t : Tid) (bpriority priority : Nat)
  /-- `knl_change_task_priority` from the mutex code -/
  | chgTaskPri (t : Tid) (priority : Nat)
  | rotRdq (priority : Nat)
  | susTsk (t : Tid)
  | rsmTsk (t : Tid)
  | frsmTsk (t : Tid)
  | slpTsk (poll : Bool)
  /-- any other blocking call -/
  | block (w : Wspec)
  | wupTsk (t : Tid)
  | relWai (t : Tid)
  | releaseHead (o : ObjId)
  | lockObj (loc : LockId)
  | unlockObj (loc : LockId)

inductive Event
  | irq (c : Core)
  | iret (c : Core)
  | ipi (c : Core)
  | ipiDispatch (c : Core)
  | disint (c : Core)
  | setPrimask (c : Core)
  | begin (c : Core) (crit : Bool)
  | acquire (c : Core)
  | leave (c : Core)
  | endCheck (c : Core)
  | suspend (c : Core)
  | resume (c : Core)
  | startup (c : Core)
  | force (c : Core)
  | online (c : Core)
  | pend (c : Core)
  | disp (c : Core)
  | call (c : Core) (k : Call)
  | access (c : Core)
  | ret (c : Core)
  | knl (c : Core) (e : KEvent)
  | resched (c : Core)

namespace Sys

variable (s : Sys) (c : Core)

/-- `knl_taskindp[c] > 0`. -/
def indp : Bool := (s.frames c).any Frame.isHandler

/-- Core `c` executes task level code: no handler, no dispatcher, no PendSV to take first. -/
def atTask : Bool :=
  !s.indp c && s.disp c == .idle && !(s.pendsv c && !s.primask c)

/-- The task that executes on core `c` at task level. -/
def running : Option Tid :=
  match s.slots.ctxtsk c with
  | .task t => if s.atTask c then some t else none
  | _ => none

/-- The code on core `c` may begin a section: a handler; a task that is between two calls or
in a call past its checks; the startup code. -/
def mayBegin : Bool :=
  s.indp c ||
    (s.atTask c &&
      match s.slots.ctxtsk c with
      | .null => true
      | .idle => false
      | .task t => !(s.thr t).running)

/-- `knl_kernel_lock_enter` finds that its caller was terminated while it waited. -/
def deadCaller : Bool :=
  !s.indp c &&
    match s.slots.ctxtsk c with
    | .task t => (s.knl.tcb t).state == .dormant || (s.knl.tcb t).state == .nonexist
    | _ => false

/-- Core `c` holds the kernel lock, between two bodies. -/
def inSection : Bool :=
  s.lock == some c && !s.due &&
    match s.frames c with
    | .held _ _ :: _ => true
    | _ => false

/-- The caller of tk_ext_tsk or tk_exd_tsk. -/
def userTask : Option Tid :=
  match s.running c with
  | some t => match s.thr t with
    | .user => some t
    | _ => none
  | none => none

/-- The caller of a blocking body: CHECK_DISPATCH passed, no object lock being waited for. -/
def caller : Option Tid :=
  match s.running c with
  | some t => match s.thr t with
    | .passed | .locked _ => some t
    | _ => none
  | none => none

/-- The caller of `knl_LockOBJ(loc)`, on its first round or a retry. -/
def lockCaller (loc : LockId) : Option Tid :=
  match s.running c with
  | some t => match s.thr t with
    | .passed => some t
    | .locking loc' => if loc' = loc then some t else none
    | _ => none
  | none => none

/-- The caller of `knl_UnlockOBJ(loc)`. -/
def unlockCaller (loc : LockId) : Option Tid :=
  match s.running c with
  | some t => match s.thr t with
    | .locked loc' => if loc' = loc then some t else none
    | _ => none
  | none => none

end Sys

/-- `p → some x`, as a partial step. -/
def guardStep (p : Bool) (x : Sys) : Option Sys := if p then some x else none

section Steps

variable (s : Sys) (c : Core)

/-- The next step of the dispatcher of core `c`. -/
def dispStep : Option Sys :=
  let next (d : Disp) : Sys := { s with disp := s.disp.set c d }
  let flag (v : Nat) : Slots :=
    { s.slots with dispatchDisabled := s.slots.dispatchDisabled.set c v }
  let cur (x : Cur) : Slots := { s.slots with ctxtsk := s.slots.ctxtsk.set c x }
  guardStep (s.frames c).isEmpty s >>= fun _ =>
    match s.disp c with
    | .idle => none
    | .entry => some { next .entered with slots := flag DDS_DISABLE_IMPLICIT }
    | .entered =>
      match s.slots.ctxtsk c with
      | .null => some (next .select)
      | x => some (next (.saved x))
    | .saved x => some { next (.cleared x) with slots := cur .null }
    | .cleared x => some (next (.onTmp x))
    | .onTmp (.task t) => some (next (if (s.knl.tcb t).stkfree then .reclaim t else .select))
    | .onTmp _ => some (next .select)
    | .reclaim t =>
      guardStep s.lock.isNone
        { next .select with knl := knlSmpDispatchRelease s.slots s.knl t }
    | .select =>
      some { next (.loaded (s.slots.schedtsk c)) with primask := s.primask.set c true }
    | .loaded x =>
      some { next .restored with slots := cur (match x with | some t => .task t | none => .idle) }
    | .restored =>
      some { next .idle with
        slots := flag DDS_ENABLE
        primask := s.primask.set c false }

/-- The next slot access of the task that runs on core `c`. -/
def accessStep : Option Sys :=
  match s.running c with
  | none => none
  | some t =>
    let next (th : Thr) : Sys := { s with thr := Function.update s.thr t th }
    if !(s.frames c).all Frame.isMask then none else
    match s.thr t with
    | .run k (.primask p) none => some (next (.run k (p (s.primask c)) none))
    | .run k (.dispatch p) none =>
      some { next (.run k p none) with pendsv := s.pendsv.set c true }
    | .run k p none => if p.indexed then some (next (.run k p (some c))) else none
    | .run k (.setDisabled v p) (some i) =>
      some { next (.run k p none) with
        slots := { s.slots with
          dispatchDisabled := s.slots.dispatchDisabled.set i v } }
    | .run k p (some i) => some (next (.run k (p.answer s.slots s.indp i) none))
    | _ => none

/-- The outcome of a call body of core `c`; `none` where the call is not possible. -/
def KEvent.body (e : KEvent) : Option Outcome :=
  let sl := s.slots
  let k := s.knl
  match s.phase, e with
  | .idle, .creTsk pk => if pk.itskpri < NUM_TSKPRI then some (tkCreTsk k pk) else none
  | .idle, .staTsk t => some (tkStaTsk sl k t)
  | .idle, .delTsk t => some (tkDelTsk sl k t)
  | .deferDel t, .delDefer => some (tkDelTskDefer k t)
  | .idle, .terTsk t => some (tkTerTsk sl k t)
  | .idle, .extTsk => (s.userTask c).map fun t => knlTerTsk k t (.ext t)
  | .idle, .exdTsk => (s.userTask c).map fun t => knlTerTsk k t (.exd t)
  | .ter t, .terEnd | .ext t, .terEnd => some (terDormant k t)
  | .exd t, .terEnd => some (exdNonexist k t)
  | .idle, .chgPri t b p =>
    if b < NUM_TSKPRI ∧ p < NUM_TSKPRI then some (tkChgPri k t b p) else none
  | .deferDel _, _ => none
  | ph, .chgTaskPri t p =>
    if p < NUM_TSKPRI ∧ (k.tcb t).state.knlTaskAlive then
      some { knlChangeTaskPriority k t p with phase := ph }
    else none
  | ph, .releaseHead o => some { Mtk3Smp.releaseHead k o with phase := ph }
  | .idle, .rotRdq p => if p < NUM_TSKPRI then some (tkRotRdq k p) else none
  | .idle, .susTsk t => some (tkSusTsk sl k t)
  | .idle, .rsmTsk t => some (tkRsmTsk k t)
  | .idle, .frsmTsk t => some (tkFrsmTsk k t)
  | .idle, .slpTsk poll => (s.caller c).map fun t => tkSlpTsk k t poll
  | .idle, .block w => (s.caller c).map fun t => blockCaller k t w
  | .idle, .wupTsk t => some (tkWupTsk k t)
  | .idle, .relWai t => some (tkRelWai k t)
  | .idle, .lockObj loc => (s.lockCaller c loc).map fun t => knlLockOBJ k t loc
  | .idle, .unlockObj loc => (s.unlockCaller c loc).map fun t => knlUnlockOBJ k t loc
  | _, _ => none

/-- Where the body leaves the tasks that execute it or whose context it rebuilds. -/
def KEvent.thr (e : KEvent) (o : Outcome) : Tid → Thr :=
  match e with
  | .staTsk t => if o.ercd = .E_OK then Function.update s.thr t .user else s.thr
  | .lockObj loc =>
    match s.lockCaller c loc with
    | some t =>
      Function.update s.thr t (if (o.knl.tcb t).klocked then .locked loc else .locking loc)
    | none => s.thr
  | .unlockObj loc =>
    match s.unlockCaller c loc with
    | some t => Function.update s.thr t .passed
    | none => s.thr
  | _ => s.thr

/-- tk_ext_tsk and tk_exd_tsk end in `knl_force_dispatch`, which abandons the lock. -/
def KEvent.exits (e : KEvent) : Bool :=
  match s.phase, e with
  | .ext _, .terEnd | .exd _, .terEnd => true
  | _, _ => false

/-- The state after a body with outcome `o`. -/
def KEvent.install (e : KEvent) (o : Outcome) : Sys :=
  { s with
    knl := o.knl
    slots := { s.slots with
      dispatchDisabled :=
        match o.enable with
        | some i => s.slots.dispatchDisabled.set i DDS_ENABLE
        | none => s.slots.dispatchDisabled }
    due := o.due
    phase := o.phase
    thr := e.thr s c o
    lock := if e.exits s then none else s.lock
    depth := if e.exits s then s.depth.set c 0 else s.depth
    frames := if e.exits s then s.frames.set c [.force] else s.frames }

/-- A call body. -/
def knlStep (e : KEvent) : Option Sys :=
  if s.inSection c then (e.body s c).map (e.install s c) else none

/-- `knl_smp_reschedule_all` on core `c`. -/
def reschedStep : Option Sys :=
  guardStep (s.lock == some c && s.due)
    { s with
      slots := knlSmpRescheduleAll s.slots s.knl
      ipi := .ofFn fun d => s.ipi d || rescheduleRequests s.slots s.knl c d
      offered := knlTaskCoreMask s.slots s.knl
      due := false }

/-- Replaces the innermost sections of core `c`. -/
def Sys.setFrames (fs : List Frame) : Sys := { s with frames := s.frames.set c fs }

/-- `knl_kernel_lock_enter` (`smp_lock.c:89`): recursion, or acquisition with the test for a
caller that was terminated meanwhile. -/
def acquireStep (crit p : Bool) (fs : List Frame) : Option Sys :=
  if s.lock = some c then
    some { s.setFrames c (.held crit p :: fs) with depth := s.depth.set c (s.depth c + 1) }
  else if s.lock = none then
    if s.deadCaller c then some (s.setFrames c [.force])
    else
      some { s.setFrames c (.held crit p :: fs) with
        lock := some c
        depth := s.depth.set c 1 }
  else none

/-- `knl_kernel_lock_leave` (`smp_lock.c:171`). -/
def leaveStep (crit p : Bool) (fs : List Frame) : Option Sys :=
  guardStep (s.inSection c && s.phase == .idle)
    { s.setFrames c (if crit then .tail p :: fs else fs) with
      lock := if s.depth c ≤ 1 then none else s.lock
      depth := s.depth.set c (s.depth c - 1)
      primask := s.primask.set c (if crit then s.primask c else p) }

/-- The rest of END_CRITICAL_SECTION (`cpu_status.h:63`). -/
def endCheckStep (p : Bool) (fs : List Frame) : Sys :=
  { s.setFrames c fs with
    pendsv := s.pendsv.set c (s.pendsv c ||
      (!p && Prog.slotsDiffer (s.slots.ctxtsk c) (s.slots.schedtsk c) &&
        s.slots.dispatchDisabled c == DDS_ENABLE))
    primask := s.primask.set c p }

/-- `knl_force_dispatch` (`cpu_cntl.c:171`) after `knl_kernel_lock_abandon`. -/
def forceStep : Sys :=
  { s.setFrames c [.dead] with
    slots := { s.slots with
      dispatchDisabled := s.slots.dispatchDisabled.set c DDS_DISABLE_IMPLICIT }
    pendsv := s.pendsv.set c true
    primask := s.primask.set c false }

/-- Entry of an exception of the lowest priority: nothing but task code is interrupted. -/
def Sys.lowestIrq : Bool :=
  !s.primask c && s.disp c == .idle && (s.frames c == [] || s.frames c == [.dead])

/-- The steps of core `c` into, in and out of handlers and sections. -/
def frameStep (e : Event) : Option Sys :=
  match e with
  | .irq _ => guardStep (!s.primask c) (s.setFrames c (.isr :: s.frames c))
  | .iret _ =>
    match s.frames c with
    | .isr :: fs => some (s.setFrames c fs)
    | _ => none
  | .ipi _ =>
    guardStep (s.lowestIrq c)
      { s.setFrames c (.ipi (s.ipi c) :: s.frames c) with ipi := s.ipi.set c false }
  | .ipiDispatch _ =>
    match s.frames c with
    | .ipi r :: fs =>
      some { s.setFrames c (.isr :: fs) with pendsv := s.pendsv.set c (s.pendsv c || r) }
    | _ => none
  | .disint _ =>
    guardStep (s.mayBegin c)
      { s.setFrames c (.mask (s.primask c) :: s.frames c) with primask := s.primask.set c true }
  | .setPrimask _ =>
    match s.frames c with
    | .mask p :: fs => some { s.setFrames c fs with primask := s.primask.set c p }
    | _ => none
  | .begin _ crit =>
    guardStep (s.mayBegin c && !(s.lock == some c && s.due))
      { s.setFrames c (.enter crit (s.primask c) :: s.frames c) with
        primask := s.primask.set c true }
  | .acquire _ =>
    match s.frames c with
    | .enter crit p :: fs => acquireStep s c crit p fs
    | _ => none
  | .leave _ =>
    match s.frames c with
    | .held crit p :: fs => leaveStep s c crit p fs
    | _ => none
  | .endCheck _ =>
    match s.frames c with
    | .tail p :: fs => some (endCheckStep s c p fs)
    | _ => none
  | .suspend _ =>
    guardStep (s.inSection c && s.phase == .idle && s.indp c)
      { s.setFrames c (.susp (s.depth c) :: s.frames c) with
        lock := none
        depth := s.depth.set c 0 }
  | .resume _ =>
    match s.frames c with
    | .susp d :: fs =>
      guardStep s.lock.isNone { s.setFrames c fs with lock := some c, depth := s.depth.set c d }
    | _ => none
  | .startup _ =>
    guardStep (s.atTask c && s.slots.ctxtsk c == .null && s.frames c == [])
      (s.setFrames c [.force])
  | .force _ =>
    match s.frames c with
    | .force :: _ => some (forceStep s c)
    | _ => none
  | .pend _ =>
    guardStep (s.pendsv c && s.lowestIrq c)
      { s.setFrames c [] with
        pendsv := s.pendsv.set c false
        disp := s.disp.set c .entry }
  | _ => none

/-- The beginning and the end of an unlocked call of the running task. -/
def callStep (e : Event) : Option Sys :=
  match s.running c with
  | none => none
  | some t =>
    let next (th : Thr) : Option Sys :=
      guardStep ((s.frames c).all Frame.isMask) { s with thr := Function.update s.thr t th }
    match e, s.thr t with
    | .call _ k, .user => next (.run k k.prog none)
    | .ret _, .run .checkDispatch (.ret (.ercd .E_OK)) none => next .passed
    | .ret _, .run _ (.ret _) none => next .user
    | .ret _, .passed => next .user
    | _, _ => none

end Steps

/-- One step of the machine. -/
def Sys.step (s : Sys) (e : Event) : Option Sys :=
  match e with
  | .disp c => dispStep s c
  | .access c => accessStep s c
  | .call c _ | .ret c => callStep s c e
  | .knl c k => knlStep s c k
  | .resched c => reschedStep s c
  | .online c =>
    some { s with
      slots := { s.slots with onlineMask := s.slots.onlineMask.set c true } }
  | .irq c | .iret c | .ipi c | .ipiDispatch c | .disint c | .setPrimask c | .begin c _
  | .acquire c | .leave c | .endCheck c | .suspend c | .resume c | .startup c | .force c
  | .pend c => frameStep s c e

/-- The machine, started with any number of task IDs. -/
def machine : Lts Sys Event where
  init s := ∃ n, s = Sys.boot n
  step := Sys.step

/-! ## Courses of events -/

/-- A critical section of core `c` around `es`. -/
def critical (c : Core) (es : List Event) : List Event :=
  [.begin c true, .acquire c] ++ es ++ [.leave c, .endCheck c]

/-- An interrupt handler of core `c` that makes one kernel call. -/
def handler (c : Core) (es : List Event) : List Event :=
  .irq c :: critical c es ++ [.iret c]

/-- PendSV of core `c` is taken and makes `n` steps. -/
def dispatch (c : Core) (n : Nat) : List Event := .pend c :: List.replicate n (.disp c)

end Mtk3Smp
