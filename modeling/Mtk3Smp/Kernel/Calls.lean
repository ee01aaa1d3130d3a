import Mtk3Smp.Kernel.Schedule

/-!
# Kernel call bodies

What the calls of `task_manage.c`, `task_sync.c`, `wait.c`, `klock.c` and `task.c` do to the
kernel data inside their critical sections. A body ends where it calls
`knl_smp_reschedule_all`, which is a step of its own (`due`); statements after that call
which touch neither the slots nor the queues are done before it. A call with more than one
reschedule, or with a second access to the slots, is a sequence of bodies, and `phase` says
which part of it comes next. The timer queue and the returned packets are left out.
-/

namespace Mtk3Smp

/-- Where the holder of the kernel lock is between two bodies. -/
inductive Phase
  /-- at a point where a call may begin or end -/
  | idle
  /-- in `knl_ter_tsk`, called by tk_ter_tsk: mutexes of `t` are being released -/
  | ter (t : Tid)
  /-- the same in tk_ext_tsk and in tk_exd_tsk -/
  | ext (t : Tid)
  | exd (t : Tid)
  /-- in tk_del_tsk, `knl_is_ctxtsk(tcb)` found true -/
  | deferDel (t : Tid)
  deriving DecidableEq, Repr

/-- The task that `knl_ter_tsk` is working on. -/
def Phase.dying : Phase → Option Tid
  | .ter t | .ext t | .exd t => some t
  | .idle | .deferDel _ => none

/-- Result of a body. -/
structure Outcome where
  knl : Knl
  ercd : ER
  /-- `knl_smp_reschedule_all` comes next -/
  due : Bool
  phase : Phase
  /-- the core whose `knl_dispatch_disabled` slot is set to `DDS_ENABLE` -/
  enable : Option Core

namespace Outcome

def fail (k : Knl) (e : ER) : Outcome :=
  { knl := k, ercd := e, due := false, phase := .idle, enable := none }
def done (k : Knl) : Outcome :=
  { knl := k, ercd := .E_OK, due := false, phase := .idle, enable := none }
def resched (k : Knl) : Outcome :=
  { knl := k, ercd := .E_OK, due := true, phase := .idle, enable := none }

end Outcome

/-! ## Task states (`task.c`, `wait.h`) -/

/-- `knl_make_dormant` (`task.c:195`). -/
def knlMakeDormant (k : Knl) (t : Tid) : Knl :=
  k.setTcb t fun x =>
    { x with
      state := .dormant, priority := x.ipriority, bpriority := x.ipriority, wupcnt := 0,
      suscnt := 0, klockwait := false, klocked := false, stkfree := false, mtxlist := [] }

/-- `knl_make_ready` (`task.c:238`). -/
def knlMakeReady (k : Knl) (t : Tid) : Knl :=
  knlReadyQueueInsert (k.setTcb t fun x => { x with state := .ready }) t

/-- `knl_make_non_ready` (`task.c:258`). -/
def knlMakeNonReady (k : Knl) (t : Tid) : Knl := knlReadyQueueDelete k t

/-- `knl_setup_context` (`cpu_task.h:45`), as an entry of the history. -/
def knlSetupContext (k : Knl) (t : Tid) : Knl := { k with stackOps := .setup t :: k.stackOps }

/-- `knl_queue_insert_tpri` (`wait.h:78`). -/
def knlQueueInsertTpri (k : Knl) (t : Tid) (o : ObjId) : Knl :=
  { k with
    rings := k.rings.insertBefore (.waitq o)
      (fun q => decide ((k.tcb t).priority < (k.tcb q).priority)) t }

/-- `knl_gcb_change_priority` (`wait.c:235`). -/
def knlGcbChangePriority (k : Knl) (t : Tid) (o : ObjId) : Knl :=
  knlQueueInsertTpri { k with rings := k.rings.remove t } t o

/-- `knl_change_task_priority` (`task.c:294`). Of the wait specifications with a
priority-change hook the model has those that reposition the task in its wait queue; the
mutex hook also propagates, which is a further body. -/
def knlChangeTaskPriority (k : Knl) (t : Tid) (priority : Nat) : Outcome :=
  if (k.tcb t).state = .ready then
    .resched <| knlReadyQueueInsert
      ((knlReadyQueueDelete k t).setTcb t fun x => { x with priority := priority }) t
  else
    let k := k.setTcb t fun x => { x with priority := priority }
    match (k.tcb t).state.hasWait, (k.tcb t).wspec with
    | true, .gcb o true => .done (knlGcbChangePriority k t o)
    | _, _ => .done k

/-- `knl_make_non_wait` (`wait.h:143`). -/
def knlMakeNonWait (k : Knl) (t : Tid) : Outcome :=
  if (k.tcb t).state = .wait then .resched (knlMakeReady k t)
  else .done (k.setTcb t fun x => { x with state := .suspend })

/-- `knl_wait_release` (`wait.h:155`). -/
def knlWaitRelease (k : Knl) (t : Tid) : Outcome :=
  knlMakeNonWait { k with rings := k.rings.remove t } t

/-- `knl_make_wait` (`wait.c:146`). -/
def knlMakeWait (k : Knl) (self : Tid) : Knl :=
  match (k.tcb self).state with
  | .ready => (knlMakeNonReady k self).setTcb self fun x => { x with state := .wait }
  | .suspend => k.setTcb self fun x => { x with state := .waitsus }
  | _ => k

/-- Whether `knl_make_wait` reschedules. -/
def makeWaitDue (k : Knl) (self : Tid) : Bool := (k.tcb self).state == .ready

/-- The blocking part of the calls that wait: the wait specification, `knl_make_wait` and
the link of the caller, self-linked (tk_slp_tsk, tk_dly_tsk) or in the wait queue of the
object (`knl_gcb_make_wait`, `wait.c:213`). -/
def blockCaller (k : Knl) (self : Tid) (w : Wspec) : Outcome :=
  let due := makeWaitDue k self
  let k := knlMakeWait (k.setTcb self fun x => { x with wspec := w }) self
  let k :=
    match w with
    | .slp | .dly => { k with rings := k.rings.selfLink self }
    | .gcb o false => { k with rings := k.rings.insertLast (.waitq o) self }
    | .gcb o true => knlQueueInsertTpri k self o
  { knl := k, ercd := .E_TMOUT, due := due, phase := .idle, enable := none }

/-! ## Task management (`task_manage.c`) -/

/-- What tk_cre_tsk reads of its packet: TA_USERBUF with the user's buffer, the affinity when
TA_ASSPRC is given, and the internal priority. -/
structure TCtsk where
  bufptr : Option Blk
  assprc : Option CoreMask
  itskpri : Nat

/-- The affinity rule of tk_cre_tsk: a missing or empty mask admits every core. -/
def TCtsk.affinity (pk : TCtsk) : CoreMask :=
  match pk.assprc with
  | some m => if m .core0 || m .core1 then m else .ofFn fun _ => true
  | none => .ofFn fun _ => true

/-- `tk_cre_tsk` (`task_manage.c:29`), with the stack block that `knl_Imalloc` returns. -/
def tkCreTsk (k : Knl) (pk : TCtsk) : Outcome :=
  let stack := pk.bufptr.getD k.nextBlk
  let k := if pk.bufptr.isSome then k else { k with nextBlk := k.nextBlk + 1 }
  match k.rings.que .free with
  | [] =>
    .fail (if pk.bufptr.isSome then k else { k with freed := stack :: k.freed }) .E_LIMIT
  | t :: _ =>
    let k := { k with rings := k.rings.remove t }
    let k := k.setTcb t fun x =>
      { x with
        userbuf := pk.bufptr.isSome, assprc := pk.affinity, ipriority := pk.itskpri,
        isstack := stack }
    .done (knlSetupContext (knlMakeDormant k t) t)

/-- `knl_del_tsk` (`task_manage.c:138`). -/
def knlDelTsk (k : Knl) (t : Tid) : Knl :=
  let k := if (k.tcb t).userbuf then k else { k with freed := (k.tcb t).isstack :: k.freed }
  let k := { k with
    rings := k.rings.insertLast .free t
    stackOps := .del t :: k.stackOps }
  k.setTcb t fun x => { x with state := .nonexist }

/-- The locked part of `knl_smp_dispatch_release` (`task_manage.c:161`). -/
def knlSmpDispatchRelease (sl : Slots) (k : Knl) (t : Tid) : Knl :=
  if (k.tcb t).stkfree && !knlIsCtxtsk sl t then
    knlDelTsk (k.setTcb t fun x => { x with stkfree := false }) t
  else k

/-- `tk_del_tsk` (`task_manage.c:184`) up to the test of `knl_is_ctxtsk`, and on from there
when the task is current nowhere. -/
def tkDelTsk (sl : Slots) (k : Knl) (t : Tid) : Outcome :=
  match (k.tcb t).state with
  | .nonexist => .fail k .E_NOEXS
  | .dormant =>
    if knlIsCtxtsk sl t then { Outcome.done k with phase := .deferDel t }
    else .done (knlDelTsk k t)
  | _ => .fail k .E_OBJ

/-- The deferred branch of tk_del_tsk. -/
def tkDelTskDefer (k : Knl) (t : Tid) : Outcome :=
  .done (k.setTcb t fun x => { x with stkfree := true, state := .nonexist })

/-- `tk_sta_tsk` (`task_manage.c:223`). -/
def tkStaTsk (sl : Slots) (k : Knl) (t : Tid) : Outcome :=
  match (k.tcb t).state with
  | .nonexist => .fail k .E_NOEXS
  | .dormant =>
    if knlIsCtxtsk sl t then .fail k .E_OBJ
    else .resched (knlMakeReady (knlSetupContext k t) t)
  | _ => .fail k .E_OBJ

/-- `knl_ter_tsk` (`task_manage.c:265`) up to `knl_signal_all_mutex`; `next` is the call it
is part of. -/
def knlTerTsk (k : Knl) (t : Tid) (next : Phase) : Outcome :=
  match (k.tcb t).state with
  | .ready => { Outcome.resched (knlMakeNonReady k t) with phase := next }
  | .wait | .waitsus =>
    { Outcome.done { k with rings := k.rings.remove t } with phase := next }
  | _ => { Outcome.done k with phase := next }

/-- `tk_ter_tsk` (`task_manage.c:362`), up to the mutexes of the task. -/
def tkTerTsk (sl : Slots) (k : Knl) (t : Tid) : Outcome :=
  match (k.tcb t).state with
  | .nonexist => .fail k .E_NOEXS
  | .dormant => .fail k .E_OBJ
  | _ =>
    if (k.tcb t).klocked then .fail k .E_OBJ
    else { knlTerTsk k t (.ter t) with enable := knlCtxtskCore sl t }

/-- The end of tk_ter_tsk and tk_ext_tsk. -/
def terDormant (k : Knl) (t : Tid) : Outcome := .done (knlMakeDormant k t)

/-- The end of `tk_exd_tsk` (`task_manage.c:329`). -/
def exdNonexist (k : Knl) (t : Tid) : Outcome :=
  .done (k.setTcb t fun x => { x with stkfree := true, state := .nonexist })

/-- `tk_chg_pri` (`task_manage.c:408`), with the value of `knl_chg_pri_mutex`. -/
def tkChgPri (k : Knl) (t : Tid) (bpriority priority : Nat) : Outcome :=
  if (k.tcb t).state = .nonexist then .fail k .E_NOEXS
  else knlChangeTaskPriority (k.setTcb t fun x => { x with bpriority := bpriority }) t priority

/-- `tk_rot_rdq` (`task_manage.c:448`) at the internal priority it determines. -/
def tkRotRdq (k : Knl) (priority : Nat) : Outcome := .resched (knlReadyQueueRotate k priority)

/-! ## Task-dependent synchronisation (`task_sync.c`) -/

/-- `tk_sus_tsk` (`task_sync.c:28`). -/
def tkSusTsk (sl : Slots) (k : Knl) (t : Tid) : Outcome :=
  let state := (k.tcb t).state
  if state = .nonexist then .fail k .E_NOEXS
  else if state = .dormant then .fail k .E_OBJ
  else if (k.tcb t).klocked then .fail k .E_OBJ
  else if (knlCtxtskCore sl t).any fun c => decide (DDS_DISABLE ≤ sl.dispatchDisabled c) then
    .fail k .E_CTX
  else if (k.tcb t).suscnt = INT_MAX then .fail k .E_QOVR
  else
    let k := k.setTcb t fun x => { x with suscnt := x.suscnt + 1 }
    match state with
    | .ready =>
      .resched ((knlMakeNonReady k t).setTcb t fun x => { x with state := .suspend })
    | .wait => .done (k.setTcb t fun x => { x with state := .waitsus })
    | _ => .done k

/-- `tk_rsm_tsk` and `tk_frsm_tsk` (`task_sync.c:90`, `task_sync.c:136`): `count` is the new
suspend count. -/
def resumeTsk (k : Knl) (t : Tid) (count : Nat) : Outcome :=
  match (k.tcb t).state with
  | .nonexist => .fail k .E_NOEXS
  | .dormant | .ready | .wait => .fail k .E_OBJ
  | .suspend =>
    let k := k.setTcb t fun x => { x with suscnt := count }
    if count = 0 then .resched (knlMakeReady k t) else .done k
  | .waitsus =>
    let k := k.setTcb t fun x => { x with suscnt := count }
    if count = 0 then .done (k.setTcb t fun x => { x with state := .wait }) else .done k

def tkRsmTsk (k : Knl) (t : Tid) : Outcome := resumeTsk k t ((k.tcb t).suscnt - 1)
def tkFrsmTsk (k : Knl) (t : Tid) : Outcome := resumeTsk k t 0

/-- `tk_slp_tsk` (`task_sync.c:190`); `poll` is `tmout == TMO_POL`. -/
def tkSlpTsk (k : Knl) (self : Tid) (poll : Bool) : Outcome :=
  if 0 < (k.tcb self).wupcnt then
    .done (k.setTcb self fun x => { x with wupcnt := x.wupcnt - 1 })
  else if poll then .fail k .E_TMOUT
  else blockCaller k self .slp

/-- `tk_wup_tsk` (`task_sync.c:220`). -/
def tkWupTsk (k : Knl) (t : Tid) : Outcome :=
  let x := k.tcb t
  if x.state = .nonexist then .fail k .E_NOEXS
  else if x.state = .dormant then .fail k .E_OBJ
  else if x.state.hasWait && x.wspec == .slp then knlWaitRelease k t
  else if x.wupcnt = INT_MAX then .fail k .E_QOVR
  else .done (k.setTcb t fun x => { x with wupcnt := x.wupcnt + 1 })

/-- `tk_rel_wai` (`task_manage.c:535`) and `knl_wait_release_tmout` (`wait.c:122`), up to the
release hook. -/
def tkRelWai (k : Knl) (t : Tid) : Outcome :=
  match (k.tcb t).state with
  | .nonexist => .fail k .E_NOEXS
  | .wait | .waitsus => knlWaitRelease k t
  | _ => .fail k .E_OBJ

/-- Release of the first task of a wait queue, as the signalling and the deleting calls do
(`knl_wait_delete`, `wait.c:182`, one round). -/
def releaseHead (k : Knl) (o : ObjId) : Outcome :=
  match k.rings.que (.waitq o) with
  | [] => .done k
  | t :: _ => knlWaitRelease k t

/-! ## Object locks (`klock.c`) -/

/-- The body of the retry loop of `knl_LockOBJ` (`klock.c:28`). -/
def knlLockOBJ (k : Knl) (self : Tid) (loc : LockId) : Outcome :=
  if (k.tcb self).klocked then .done k
  else if k.locked loc then
    let k := (knlReadyQueueDelete k self).setTcb self fun x => { x with klockwait := true }
    .resched { k with rings := k.rings.insertLast (.lockq loc) self }
  else
    let k := { k with locked := Function.update k.locked loc true, klocktsk := some self }
    .done (k.setTcb self fun x => { x with klocked := true })

/-- `knl_UnlockOBJ` (`klock.c:75`). -/
def knlUnlockOBJ (k : Knl) (self : Tid) (loc : LockId) : Outcome :=
  let k := { k.setTcb self fun x => { x with klocked := false } with klocktsk := none }
  match k.rings.que (.lockq loc) with
  | [] => .resched { k with locked := Function.update k.locked loc false }
  | t :: _ =>
    let k := { k with rings := k.rings.remove t }
    let k := k.setTcb t fun x => { x with klockwait := false, klocked := true }
    .resched (knlReadyQueueInsertTop k t)

end Mtk3Smp
