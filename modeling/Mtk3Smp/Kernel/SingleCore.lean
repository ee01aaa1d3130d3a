import Mtk3Smp.Kernel.Calls
import Mtk3Smp.Lib.Lts

/-!
# The kernel on one core

The build without TK_SUPPORT_SMP. `knl_schedtsk` is a single word, and most operations
change it without looking the top task up again: `knl_make_ready` stores its task when
that raises `top_priority`, `knl_make_non_ready` reselects when it removes the scheduled
task, `knl_LockOBJ` stores nothing. An event is a step into or out of a critical section,
a handler or the dispatcher, or a call body inside a section; a call that does several
things in one section is several bodies. `release` and `inherit` stand for every wake-up
of a waiting task and every change of priority through a mutex.
-/

namespace Mtk3Smp

/-- `knl_ready_queue_top` (`ready_queue.h:84`). The queue after the last one is the field
`null`, which is never set. -/
def knlReadyQueueTop (k : Knl) : Option Tid :=
  match k.klocktsk with
  | some t => some t
  | none =>
    if k.topPriority < NUM_TSKPRI then (k.rings.que (.ready k.topPriority)).head? else none

namespace Single

/-- What the sections work on: the kernel data and `knl_schedtsk`. -/
structure Sched where
  knl : Knl
  schedtsk : Option Tid

/-! ## Task states (`task.c`, `task.h`, `wait.h`, `wait.c`) -/

/-- `knl_reschedule` (`task.h:153`). -/
def knlReschedule (k : Knl) : Sched := { knl := k, schedtsk := knlReadyQueueTop k }

/-- A body that both builds share: it ends in `knl_reschedule` or leaves `knl_schedtsk`. -/
def Sched.after (x : Sched) (o : Outcome) : Sched :=
  if o.due then knlReschedule o.knl else { x with knl := o.knl }

/-- `knl_make_ready` (`task.c:238`). `knl_ready_queue_insert` returns whether it lowered
`top_priority`. -/
def knlMakeReady (x : Sched) (t : Tid) : Sched :=
  let k := x.knl.setTcb t fun y => { y with state := .ready }
  { knl := knlReadyQueueInsert k t
    schedtsk := if (k.tcb t).priority < k.topPriority then some t else x.schedtsk }

/-- `knl_make_non_ready` (`task.c:258`). -/
def knlMakeNonReady (x : Sched) (t : Tid) : Sched :=
  let k := knlReadyQueueDelete x.knl t
  { knl := k, schedtsk := if x.schedtsk = some t then knlReadyQueueTop k else x.schedtsk }

/-- `knl_rotate_ready_queue` (`task.c:324`). -/
def knlRotateReadyQueue (x : Sched) (priority : Nat) : Sched :=
  knlReschedule (knlReadyQueueRotate x.knl priority)

/-- `knl_rotate_ready_queue_run` (`task.c:333`). -/
def knlRotateReadyQueueRun (x : Sched) : Sched :=
  if x.schedtsk = none then x
  else knlReschedule (knlReadyQueueRotate x.knl x.knl.topPriority)

/-- `knl_make_non_wait` (`wait.h:143`). -/
def knlMakeNonWait (x : Sched) (t : Tid) : Sched :=
  if (x.knl.tcb t).state = .wait then knlMakeReady x t
  else { x with knl := x.knl.setTcb t fun y => { y with state := .suspend } }

/-- `knl_wait_release` (`wait.h:155`). -/
def knlWaitRelease (x : Sched) (t : Tid) : Sched :=
  knlMakeNonWait { x with knl := { x.knl with rings := x.knl.rings.remove t } } t

/-- `knl_make_wait` (`wait.c:146`). -/
def knlMakeWait (x : Sched) (self : Tid) : Sched :=
  match (x.knl.tcb self).state with
  | .ready =>
    let x := knlMakeNonReady x self
    { x with knl := x.knl.setTcb self fun y => { y with state := .wait } }
  | .suspend => { x with knl := x.knl.setTcb self fun y => { y with state := .waitsus } }
  | _ => x

/-- The link of a task that `knl_make_wait` has made wait: self-linked, or in the wait queue
of the object (`knl_gcb_make_wait`, `wait.c:213`). -/
def linkWaiting (k : Knl) (self : Tid) : Wspec → Knl
  | .slp | .dly => { k with rings := k.rings.selfLink self }
  | .gcb o false => { k with rings := k.rings.insertLast (.waitq o) self }
  | .gcb o true => knlQueueInsertTpri k self o

/-- The blocking part of the calls that wait. -/
def blockCaller (x : Sched) (self : Tid) (w : Wspec) : Sched :=
  let x := knlMakeWait { x with knl := x.knl.setTcb self fun y => { y with wspec := w } } self
  { x with knl := linkWaiting x.knl self w }

/-- `knl_ter_tsk` (`task_manage.c:265`) up to `knl_signal_all_mutex`. -/
def knlTerTsk (x : Sched) (t : Tid) : Sched :=
  match (x.knl.tcb t).state with
  | .ready => knlMakeNonReady x t
  | .wait | .waitsus => { x with knl := { x.knl with rings := x.knl.rings.remove t } }
  | _ => x

/-! ## The machine -/

/-- The call that `knl_ter_tsk` is part of. -/
inductive Ending
  | ter
  | ext
  | exd
  deriving DecidableEq

/-- Where a task is in a call of `mempfix.c`. -/
inductive Mempfix
  | out
  /-- in the retry loop of `knl_LockOBJ` -/
  | entering (loc : LockId)
  /-- between `knl_LockOBJ` and `knl_UnlockOBJ` -/
  | inside (loc : LockId)
  deriving DecidableEq

structure Cpu extends Sched where
  ctxtsk : Cur
  dispatchDisabled : Nat
  taskindp : Nat
  /-- PRIMASK, outside the critical sections -/
  primask : Bool
  /-- PendSV is pending -/
  pendsv : Bool
  /-- inside a critical section -/
  cs : Bool
  /-- the task that `knl_ter_tsk` has reached the mutexes of -/
  ending : Option (Tid × Ending)
  mpf : Tid → Mempfix

/-- The calls that have a single body. -/
inductive Call
  | cre (pk : TCtsk)
  | del (t : Tid)
  | sta (t : Tid)
  | sus (t : Tid)
  | rsm (t : Tid)
  | frsm (t : Tid)
  | chgPri (t : Tid) (bpriority priority : Nat)
  | rotRdq (priority : Nat)
  | rotRdqRun
  /-- `knl_wait_release` by a call or by the timer handler -/
  | release (t : Tid)
  /-- `knl_change_task_priority` by a mutex operation -/
  | inherit (t : Tid) (priority : Nat)

/-- What `knl_signal_all_mutex` and the release hook may do. -/
def Call.ofMutex : Call → Bool
  | .release _ | .inherit .. => true
  | _ => false

inductive Event
  /-- a handler begins, or returns -/
  | irq
  | ret
  /-- `DI`, `EI` in a task -/
  | di
  | ei
  | disDsp
  | enaDsp
  /-- `BEGIN_CRITICAL_SECTION`, `DISABLE_INTERRUPT` -/
  | enter
  /-- `END_CRITICAL_SECTION` -/
  | leave
  /-- `ENABLE_INTERRUPT` -/
  | enable
  /-- `knl_force_dispatch` at the end of the startup -/
  | force
  /-- the dispatcher: PendSV is taken, and the load of `knl_schedtsk` -/
  | pendsv
  | switch
  | call (c : Call)
  | ter (t : Tid)
  | ext
  | exd
  /-- the end of tk_ter_tsk, tk_ext_tsk, tk_exd_tsk, after the mutexes -/
  | finish
  /-- a call that waits, up to `END_CRITICAL_SECTION` -/
  | block (w : Wspec)
  | lockOBJ (loc : LockId)
  | unlockOBJ
  /-- the label `wait_mpf` of tk_get_mpf, up to `END_CRITICAL_SECTION` -/
  | waitMpf (o : ObjId) (tpri : Bool)

namespace Cpu

variable (s : Cpu)

/-- `in_indp()` (`cpu_status.h:153`). -/
def inIndp : Bool := decide (0 < s.taskindp) || s.ctxtsk == .null

/-- `in_ddsp()` (`cpu_status.h:159`). -/
def inDdsp : Bool := s.dispatchDisabled != 0 || s.inIndp || s.primask

/-- The task that executes, when no handler does. -/
def caller : Option Tid :=
  match s.taskindp, s.ctxtsk with
  | 0, .task t => some t
  | _, _ => none

/-- The test of `END_CRITICAL_SECTION` and tk_ena_dsp: `knl_ctxtsk` and `knl_schedtsk`
differ. -/
def stale : Bool :=
  match s.schedtsk with
  | none => s.ctxtsk != .null
  | some t => s.ctxtsk != .task t

def endSection : Cpu :=
  { s with
    cs := false
    pendsv := s.pendsv || (!s.primask && (s.stale && s.dispatchDisabled == 0)) }

/-- `knl_force_dispatch` (`cpu_cntl.c:171`). -/
def forceDispatch : Cpu :=
  { s with
    cs := false, dispatchDisabled := DDS_DISABLE_IMPLICIT, ctxtsk := .null, pendsv := true,
    primask := false }

def setSched (x : Sched) : Cpu := { s with toSched := x }

def setMpf (t : Tid) (m : Mempfix) : Cpu := { s with mpf := Function.update s.mpf t m }

/-- `CHECK_NONSELF` (`check.h:109`). -/
def nonself (t : Tid) (r : Except ER Sched) : Except ER Sched :=
  if s.caller = some t then .error .E_OBJ else r

/-- `tk_sta_tsk` (`task_manage.c:223`). -/
def tkStaTsk (t : Tid) : Except ER Sched :=
  match (s.knl.tcb t).state with
  | .nonexist => .error .E_NOEXS
  | .dormant => .ok (knlMakeReady s.toSched t)
  | _ => .error .E_OBJ

/-- `tk_del_tsk` (`task_manage.c:184`). -/
def tkDelTsk (t : Tid) : Except ER Sched :=
  match (s.knl.tcb t).state with
  | .nonexist => .error .E_NOEXS
  | .dormant => .ok { s.toSched with knl := knlDelTsk s.knl t }
  | _ => .error .E_OBJ

/-- `tk_sus_tsk` (`task_sync.c:28`). -/
def tkSusTsk (t : Tid) : Except ER Sched :=
  let state := (s.knl.tcb t).state
  if state = .nonexist then .error .E_NOEXS
  else if state = .dormant then .error .E_OBJ
  else if (s.knl.tcb t).klocked then .error .E_OBJ
  else if s.ctxtsk = .task t ∧ DDS_DISABLE ≤ s.dispatchDisabled then .error .E_CTX
  else if (s.knl.tcb t).suscnt = INT_MAX then .error .E_QOVR
  else
    let x := { s.toSched with knl := s.knl.setTcb t fun y => { y with suscnt := y.suscnt + 1 } }
    match state with
    | .ready =>
      let x := knlMakeNonReady x t
      .ok { x with knl := x.knl.setTcb t fun y => { y with state := .suspend } }
    | .wait => .ok { x with knl := x.knl.setTcb t fun y => { y with state := .waitsus } }
    | _ => .ok x

/-- `tk_rsm_tsk` and `tk_frsm_tsk` (`task_sync.c:90`, `task_sync.c:136`): `count` is the new
suspend count. -/
def resumeTsk (t : Tid) (count : Nat) : Except ER Sched :=
  let x := { s.toSched with knl := s.knl.setTcb t fun y => { y with suscnt := count } }
  match (s.knl.tcb t).state with
  | .nonexist => .error .E_NOEXS
  | .dormant | .ready | .wait => .error .E_OBJ
  | .suspend => .ok (if count = 0 then knlMakeReady x t else x)
  | .waitsus =>
    .ok (if count = 0 then
        { x with knl := x.knl.setTcb t fun y => { y with state := .wait } }
      else x)

/-- `tk_chg_pri` (`task_manage.c:408`), with the value of `knl_chg_pri_mutex`. -/
def tkChgPri (t : Tid) (bpriority priority : Nat) : Except ER Sched :=
  if NUM_TSKPRI ≤ priority then .error .E_PAR
  else if (s.knl.tcb t).state = .nonexist then .error .E_NOEXS
  else .ok (s.toSched.after (Mtk3Smp.tkChgPri s.knl t bpriority priority))

/-- A waiting task is linked, alone or in a wait queue; one that is being terminated is not,
unless it was queued again. -/
def releasable (t : Tid) : Bool :=
  (s.knl.tcb t).state.hasWait &&
    (s.ending.all (fun e => e.1 != t) ||
      match s.knl.rings.link t with
      | .member (.waitq _) => true
      | _ => false)

/-- The body of a call; the error codes of a failing one leave the state as it is. -/
def body : Call → Except ER Sched
  | .cre pk =>
    if NUM_TSKPRI ≤ pk.itskpri then .error .E_PAR
    else .ok (s.toSched.after (tkCreTsk s.knl pk))
  | .del t => s.nonself t (s.tkDelTsk t)
  | .sta t => s.nonself t (s.tkStaTsk t)
  | .sus t => s.nonself t (s.tkSusTsk t)
  | .rsm t => s.nonself t (s.resumeTsk t ((s.knl.tcb t).suscnt - 1))
  | .frsm t => s.nonself t (s.resumeTsk t 0)
  | .chgPri t bpriority priority => s.tkChgPri t bpriority priority
  | .rotRdq priority => .ok (knlRotateReadyQueue s.toSched priority)
  | .rotRdqRun => .ok (knlRotateReadyQueueRun s.toSched)
  | .release t =>
    if s.releasable t then .ok (knlWaitRelease s.toSched t) else .error .E_OBJ
  | .inherit t priority =>
    if (s.knl.tcb t).state.knlTaskAlive && decide (priority < NUM_TSKPRI) then
      .ok (s.toSched.after (knlChangeTaskPriority s.knl t priority))
    else .error .E_OBJ

def guardStep (p : Bool) (x : Cpu) : Option Cpu := if p then some x else none

/-- `tk_ter_tsk` (`task_manage.c:362`), up to the mutexes of the task. -/
def terStep (t : Tid) : Cpu :=
  if !(s.knl.tcb t).state.knlTaskAlive || (s.knl.tcb t).klocked || s.caller == some t then s
  else { s.setSched (knlTerTsk s.toSched t) with ending := some (t, .ter) }

/-- `tk_ext_tsk` (`task_manage.c:297`) and `tk_exd_tsk`, up to the mutexes of the task. -/
def exitStep (e : Ending) : Option Cpu := do
  let t ← s.caller
  guardStep (s.mpf t == .out) { s.setSched (knlTerTsk s.toSched t) with ending := some (t, e) }

/-- The rest of the three calls. -/
def finishStep : Option Cpu := do
  let (t, e) ← s.ending
  let s := { s.setMpf t .out with ending := none }
  match e with
  | .ter => some { s with knl := knlMakeDormant s.knl t }
  | .ext => some { s with knl := knlMakeDormant s.knl t }.forceDispatch
  | .exd => some { s with knl := knlDelTsk s.knl t }.forceDispatch

/-- `knl_LockOBJ` (`klock.c:28`), one round of the retry loop. -/
def lockStep (loc : LockId) : Option Cpu := do
  let t ← s.caller
  let x := s.toSched.after (knlLockOBJ s.knl t loc)
  let m := if (x.knl.tcb t).klocked then .inside loc else .entering loc
  guardStep (s.mpf t == .entering loc || (s.mpf t == .out && !s.inDdsp))
    ((s.setSched x).setMpf t m)

/-- `knl_UnlockOBJ` (`klock.c:75`). -/
def unlockStep : Option Cpu := do
  let t ← s.caller
  match s.mpf t with
  | .inside loc =>
    some ((s.setSched (s.toSched.after (knlUnlockOBJ s.knl t loc))).setMpf t .out)
  | _ => none

/-- `knl_gcb_make_wait` and `knl_UnlockOBJ` in tk_get_mpf (`mempfix.c:253`). What
CHECK_DISPATCH found at the start of the call still holds: only the caller changes it. -/
def waitMpfStep (o : ObjId) (tpri : Bool) : Option Cpu := do
  let t ← s.caller
  let x := s.setSched (blockCaller s.toSched t (.gcb o tpri))
  let y ← x.unlockStep
  guardStep (!s.inDdsp) y.endSection

/-- A call that waits, after CHECK_DISPATCH. -/
def blockStep (w : Wspec) : Option Cpu := do
  let t ← s.caller
  guardStep (s.mpf t == .out && !s.inDdsp) (s.setSched (blockCaller s.toSched t w)).endSection

/-- A task begins no section with a dispatch pending, unless it has interrupts disabled. -/
def mayEnter : Bool :=
  decide (0 < s.taskindp) || (s.caller.isSome && (s.primask || !s.pendsv))

/-- The steps outside the critical sections. -/
def outer : Event → Option Cpu
  | .irq => guardStep (!s.primask) { s with taskindp := s.taskindp + 1 }
  | .ret => guardStep (decide (0 < s.taskindp)) { s with taskindp := s.taskindp - 1 }
  | .di => guardStep (s.taskindp == 0 && s.mayEnter) { s with primask := true }
  | .ei => guardStep (s.taskindp == 0 && s.mayEnter) { s with primask := false }
  | .disDsp =>
    guardStep (s.taskindp == 0 && s.mayEnter && !s.primask)
      { s with dispatchDisabled := DDS_DISABLE }
  | .enaDsp =>
    guardStep (s.taskindp == 0 && s.mayEnter && !s.primask)
      { s with dispatchDisabled := DDS_ENABLE, pendsv := s.pendsv || s.stale }
  | .enter => guardStep s.mayEnter { s with cs := true }
  | .pendsv =>
    guardStep (s.pendsv && !s.primask && s.taskindp == 0)
      { s with pendsv := false, dispatchDisabled := DDS_DISABLE_IMPLICIT, ctxtsk := .null }
  | .switch =>
    guardStep (s.ctxtsk == .null && s.dispatchDisabled == DDS_DISABLE_IMPLICIT && !s.pendsv &&
        s.taskindp == 0)
      { s with ctxtsk := s.schedtsk.elim .idle .task, dispatchDisabled := DDS_ENABLE }
  | _ => none

/-- The steps inside a critical section. -/
def inner : Event → Option Cpu
  | .call c =>
    match s.body c with
    | .ok x => guardStep (s.ending.isNone || c.ofMutex) (s.setSched x)
    | .error _ => some s
  | .ter t => guardStep s.ending.isNone (s.terStep t)
  | .ext => if s.ending.isNone then s.exitStep .ext else none
  | .exd => if s.ending.isNone then s.exitStep .exd else none
  | .finish => s.finishStep
  | .block w => if s.ending.isNone then s.blockStep w else none
  | .lockOBJ loc => if s.ending.isNone then s.lockStep loc else none
  | .unlockOBJ => if s.ending.isNone then s.unlockStep else none
  | .waitMpf o tpri => if s.ending.isNone then s.waitMpfStep o tpri else none
  | .leave => guardStep s.ending.isNone s.endSection
  | .enable =>
    guardStep (s.ending.isNone && s.taskindp == 0 && s.ctxtsk != .null)
      { s with cs := false, primask := false }
  | .force => guardStep (s.ending.isNone && s.ctxtsk == .null && s.taskindp == 0) s.forceDispatch
  | _ => none

def step (e : Event) : Option Cpu := if s.cs then s.inner e else s.outer e

/-- The startup code, before the initial task is created. -/
def boot (n : Nat) : Cpu :=
  { knl := .boot n, schedtsk := none, ctxtsk := .null, dispatchDisabled := DDS_ENABLE,
    taskindp := 0, primask := true, pendsv := false, cs := true, ending := none,
    mpf := fun _ => .out }

end Cpu

def machine : Lts Cpu Event where
  init s := ∃ n, s = .boot n
  step := Cpu.step

end Single

end Mtk3Smp
