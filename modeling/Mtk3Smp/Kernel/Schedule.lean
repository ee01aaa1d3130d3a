import Mtk3Smp.Kernel.State
import Mathlib.Data.List.Basic

/-!
# Ready queue and SMP assignment

`ready_queue.h` and `ready_queue_smp.c`: the ready queue operations, the choice of one task
for each core and its publication in `knl_schedtsk[]`. The ring operations are those of
`sys/queue.h`, through `Rings`. Diagnostic counters are left out.
-/

namespace Mtk3Smp

/-! ## Ready queue -/

/-- `knl_ready_queue_calc_top_priority` (`ready_queue.h:51`). -/
def knlReadyQueueCalcTopPriority (bitmap : Nat → Bool) (pos : Nat) : Nat :=
  ((List.range' pos (NUM_TSKPRI - pos)).find? bitmap).getD NUM_TSKPRI

/-- What `knl_ready_queue_insert` and `knl_ready_queue_insert_top` share; `link` puts the
TCB into the queue of its priority. -/
def readyQueueInsertWith (link : Rings Que Tid → Que → Tid → Rings Que Tid) (k : Knl)
    (t : Tid) : Knl :=
  let p := (k.tcb t).priority
  { k with
    rings := link k.rings (.ready p) t
    bitmap := Function.update k.bitmap p true
    klocktsk := if (k.tcb t).klocked then some t else k.klocktsk
    topPriority := if p < k.topPriority then p else k.topPriority }

/-- `knl_ready_queue_insert` (`ready_queue.h:109`). -/
def knlReadyQueueInsert (k : Knl) (t : Tid) : Knl := readyQueueInsertWith Rings.insertLast k t

/-- `knl_ready_queue_insert_top` (`ready_queue.h:133`). -/
def knlReadyQueueInsertTop (k : Knl) (t : Tid) : Knl :=
  readyQueueInsertWith Rings.insertFirst k t

/-- `knl_ready_queue_delete` (`ready_queue.h:160`). A task that waits for an object lock is
in the wait queue of the lock and only leaves that. -/
def knlReadyQueueDelete (k : Knl) (t : Tid) : Knl :=
  let p := (k.tcb t).priority
  let k := { k with klocktsk := if k.klocktsk = some t then none else k.klocktsk }
  let k := { k with rings := k.rings.remove t }
  if (k.tcb t).klockwait then
    k.setTcb t fun x => { x with klockwait := false }
  else if (k.rings.que (.ready p)).isEmpty then
    let k := { k with bitmap := Function.update k.bitmap p false }
    if p = k.topPriority then
      { k with topPriority := knlReadyQueueCalcTopPriority k.bitmap p }
    else k
  else k

/-- `knl_ready_queue_rotate` (`ready_queue.h:207`). -/
def knlReadyQueueRotate (k : Knl) (priority : Nat) : Knl :=
  match k.rings.que (.ready priority) with
  | [] => k
  | t :: _ => { k with rings := (k.rings.remove t).insertLast (.ready priority) t }

/-- The order in which the scan of `knl_ready_queue_assign` visits the ready queue. -/
def Knl.readyTasks (k : Knl) : List Tid :=
  (List.range NUM_TSKPRI).flatMap fun p => k.rings.que (.ready p)

/-! ## Choice of a task for each core -/

/-- `knl_popcount` (`ready_queue_smp.c:99`) of a processor mask. -/
def knlPopcount (m : CoreMask) : Nat := (m .core0).toNat + (m .core1).toNat

/-- The first core whose `knl_schedtsk` slot holds the task. -/
def schedtskCore (sl : Slots) (t : Tid) : Option Core :=
  if sl.schedtsk .core0 = some t then some .core0
  else if sl.schedtsk .core1 = some t then some .core1
  else none

/-- `knl_task_core_mask` (`ready_queue_smp.c:117`): the core a task is current on, else the
core it is published to, else the online cores of its affinity that accept another task. -/
def knlTaskCoreMask (sl : Slots) (k : Knl) (t : Tid) : CoreMask :=
  match knlCtxtskCore sl t with
  | some c => .ofFn fun x => x == c && sl.onlineMask x
  | none =>
    match schedtskCore sl t with
    | some c => .ofFn fun x => x == c && sl.onlineMask x
    | none => .ofFn fun x =>
      (k.tcb t).assprc x && (sl.onlineMask x && decide (sl.dispatchDisabled x < DDS_DISABLE))

/-- An entry of the local arrays `candidate[]` and `masks[]`. -/
structure Candidate where
  task : Tid
  mask : CoreMask

/-- `knl_already_candidate` (`ready_queue_smp.c:86`). -/
def knlAlreadyCandidate (cand : List Candidate) (t : Tid) : Bool :=
  cand.any fun x => x.task == t

/-- `knl_candidate_feasible` (`ready_queue_smp.c:184`). -/
def knlCandidateFeasible (cand : List Candidate) (next : CoreMask) : Bool :=
  knlPopcount next != 0 &&
    decide (cand.length + 1 ≤ knlPopcount (.ofFn fun c => next c || cand.any fun x => x.mask c))

/-- The body of the scan loops of `knl_ready_queue_assign`, `count < TK_MAX_CORE` included. -/
def offer (sl : Slots) (k : Knl) (cand : List Candidate) (t : Tid) : List Candidate :=
  if cand.length < 2 && !knlAlreadyCandidate cand t &&
      knlCandidateFeasible cand (knlTaskCoreMask sl k t) then
    cand ++ [⟨t, knlTaskCoreMask sl k t⟩]
  else cand

/-- The scan order: object-lock holders first and across every priority. -/
def scanOrder (k : Knl) : List Tid :=
  (k.readyTasks.filter fun t => (k.tcb t).klocked) ++
    (k.readyTasks.filter fun t => !(k.tcb t).klocked)

def candidates (sl : Slots) (k : Knl) : List Candidate :=
  (scanOrder k).foldl (offer sl k) []

abbrev Selection := PerCore (Option Tid)

/-- Puts a candidate on the first free core that `ok` allows. -/
def place (ok : Candidate → Core → Bool) (out : Selection) (x : Candidate) : Option Selection :=
  if ok x .core0 && (out .core0).isNone then some (out.set .core0 (some x.task))
  else if ok x .core1 && (out .core1).isNone then
    some (out.set .core1 (some x.task))
  else none

/-- One of the three loops of `knl_assign_cores`: places what it can and leaves the rest. -/
def placeAll (ok : Candidate → Core → Bool) :
    Selection → List Candidate → Selection × List Candidate
  | out, [] => (out, [])
  | out, x :: xs =>
    match place ok out x with
    | some out' => placeAll ok out' xs
    | none => ((placeAll ok out xs).1, x :: (placeAll ok out xs).2)

/-- `knl_assign_cores` (`ready_queue_smp.c:205`): pinned candidates first, then those that
may stay where they are current, then the rest. -/
def knlAssignCores (sl : Slots) (cand : List Candidate) : Selection :=
  let pinned := placeAll (fun x c => knlPopcount x.mask == 1 && x.mask c) (.ofFn fun _ => none) cand
  let stay := placeAll (fun x c => sl.ctxtsk c == .task x.task && x.mask c) pinned.1 pinned.2
  (placeAll (fun x c => x.mask c) stay.1 stay.2).1

/-- `knl_ready_queue_assign` (`ready_queue_smp.c:251`). -/
def knlReadyQueueAssign (sl : Slots) (k : Knl) : Selection :=
  knlAssignCores sl (candidates sl k)

/-! ## Publication -/

/-- Drops a selection that the other core's slot already publishes. -/
def dropPublished (sl : Slots) (c : Core) (sel : Selection) : Selection :=
  if (sel c).isSome && sl.schedtsk c.other == sel c && sel c.other != sel c then
    sel.set c none
  else sel

/-- Drops a second selection of one task. -/
def dropDuplicate (sel : Selection) : Selection :=
  if (sel .core1).isSome && sel .core1 == sel .core0 then sel.set .core1 none
  else sel

/-- Refuses a selection that the affinity of the task excludes. -/
def dropIllegal (k : Knl) (c : Core) (sel : Selection) : Selection :=
  match sel c with
  | some t => if (k.tcb t).assprc c then sel else sel.set c none
  | none => sel

/-- The selection that `knl_smp_reschedule_all` publishes, after its guards. -/
def guardedSelection (sl : Slots) (k : Knl) : Selection :=
  dropIllegal k .core1 <| dropIllegal k .core0 <| dropDuplicate <|
    dropPublished sl .core1 <| dropPublished sl .core0 <| knlReadyQueueAssign sl k

/-- `knl_smp_reschedule_all` (`ready_queue_smp.c:315`), the writes to `knl_schedtsk[]`. -/
def knlSmpRescheduleAll (sl : Slots) (k : Knl) : Slots :=
  let sel := guardedSelection sl k
  { sl with
    schedtsk := .ofFn fun c => if sl.onlineMask c then sel c else sl.schedtsk c }

/-- The cores that core `self` sends `KNL_IPI_RESCHEDULE` to in `knl_smp_reschedule_all`. -/
def rescheduleRequests (sl : Slots) (k : Knl) (self c : Core) : Bool :=
  c != self && (sl.onlineMask c && sl.schedtsk c != guardedSelection sl k c)

end Mtk3Smp
