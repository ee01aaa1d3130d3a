import Mtk3Smp.Kernel.PriorityMap
import Mtk3Smp.Lib.RingLinks
import Mtk3Smp.Lib.Lts

/-!
# The ready queue over its links

`ready_queue.h` for any number of priorities: the queues are rings of pointers through the
TCBs, and `bitmap` and `top_priority` say which of them hold tasks. A task that waits for an
object lock has its link in the queue of the lock instead. `RdySys` runs the operations in
any order, each on a task that is in the queue its state says, beside lists that change as
the operations say.
-/

namespace Mtk3Smp

universe u

inductive Tskque
  /-- `tskque[priority]` -/
  | ready (priority : Nat)
  /-- `wtskq` of an object lock -/
  | lock (loc : Nat)
  deriving DecidableEq

/-- `RDYQUE`, with what its operations read of the TCBs. -/
structure RDYQUE (τ : Type u) where
  topPriority : Nat
  links : RingLinks Tskque τ
  bitmap : Bitmap
  klocktsk : Option τ
  priority : τ → Nat
  klocked : τ → Bool
  klockwait : τ → Bool

variable {τ : Type u} [DecidableEq τ] (c : RdyCfg)

/-- `isQueEmpty(&rq->tskque[priority])` -/
def RDYQUE.isQueEmpty (rq : RDYQUE τ) (priority : Nat) : Bool :=
  rq.links.next (.head (.ready priority)) = .head (.ready priority)

namespace RdySys

/-- The queues of the object locks are set up as the locks are taken; here all of them are. -/
def knlReadyQueueInitialize (rq : RDYQUE τ) : RDYQUE τ :=
  { rq with
    topPriority := c.numTskpri
    links :=
      { next := fun a => match a with | .head q => .head q | .node x => rq.links.next (.node x)
        prev := fun a => match a with | .head q => .head q | .node x => rq.links.prev (.node x) }
    bitmap := .zero c
    klocktsk := none }

def knlReadyQueueInsert (rq : RDYQUE τ) (tcb : τ) : RDYQUE τ × Bool :=
  let priority := rq.priority tcb
  let rq := { rq with
    links := rq.links.insert tcb (.head (.ready priority))
    bitmap := rq.bitmap.set c priority
    klocktsk := if rq.klocked tcb then some tcb else rq.klocktsk }
  if priority < rq.topPriority then ({ rq with topPriority := priority }, true) else (rq, false)

def knlReadyQueueInsertTop (rq : RDYQUE τ) (tcb : τ) : RDYQUE τ :=
  let priority := rq.priority tcb
  let rq := { rq with
    links := rq.links.insert tcb (rq.links.next (.head (.ready priority)))
    bitmap := rq.bitmap.set c priority
    klocktsk := if rq.klocked tcb then some tcb else rq.klocktsk }
  if priority < rq.topPriority then { rq with topPriority := priority } else rq

/-- `none` where the search for the next priority does not end. -/
def knlReadyQueueDelete (rq : RDYQUE τ) (tcb : τ) : Option (RDYQUE τ) :=
  let priority := rq.priority tcb
  let rq := { rq with
    klocktsk := if rq.klocktsk = some tcb then none else rq.klocktsk
    links := rq.links.remove tcb }
  if rq.klockwait tcb then
    some { rq with klockwait := Function.update rq.klockwait tcb false }
  else if !rq.isQueEmpty priority then some rq
  else
    let rq := { rq with bitmap := rq.bitmap.clr c priority }
    if priority ≠ rq.topPriority then some rq
    else (rq.bitmap.nextTop c priority).map fun top => { rq with topPriority := top }

def knlReadyQueueRotate (rq : RDYQUE τ) (priority : Nat) : RDYQUE τ :=
  match rq.links.removeNext (.ready priority) with
  | (_, none) => rq
  | (links, some tcb) => { rq with links := links.insert tcb (.head (.ready priority)) }

/-- The value is the new head of the queue. -/
def knlReadyQueueMoveLast (rq : RDYQUE τ) (tcb : τ) : RDYQUE τ × RingNode Tskque τ :=
  let tskque := RingNode.head (.ready (rq.priority tcb))
  let links := (rq.links.remove tcb).insert tcb tskque
  ({ rq with links := links }, links.next tskque)

/-- `spec` has the queues as lists. -/
structure State (τ : Type u) where
  rq : RDYQUE τ
  spec : Rings Tskque τ

inductive Event (τ : Type u)
  | insert (tcb : τ)
  | insertTop (tcb : τ)
  | delete (tcb : τ)
  | rotate (priority : Nat)
  | moveLast (tcb : τ)
  /-- a new priority, while the task is in no ready queue -/
  | setPriority (tcb : τ) (priority : Nat)
  | setKlocked (tcb : τ) (klocked : Bool)
  /-- `klocktsk`, as `knl_LockOBJ` and `knl_UnlockOBJ` set it -/
  | setKlocktsk (tcb : Option τ)
  /-- `knl_LockOBJ`: the deleted task waits for the lock -/
  | lockWait (tcb : τ) (loc : Nat)
  /-- `knl_UnlockOBJ`: the first task that waits gets the lock -/
  | unlock (loc : Nat)

/-- In no queue. -/
def unqueued (s : State τ) (tcb : τ) : Bool :=
  match s.spec.link tcb with
  | .member _ => false
  | _ => true

/-- In the queue that the state of the task says. -/
def inItsQueue (s : State τ) (tcb : τ) : Bool :=
  match s.spec.link tcb with
  | .member (.ready p) => p = s.rq.priority tcb ∧ s.rq.klockwait tcb = false
  | .member (.lock _) => s.rq.klockwait tcb
  | _ => false

/-- In the ready queue of its priority. -/
def isReady (s : State τ) (tcb : τ) : Bool :=
  s.spec.link tcb = .member (.ready (s.rq.priority tcb))

def notReady (s : State τ) (tcb : τ) : Bool :=
  match s.spec.link tcb with
  | .member (.ready _) => false
  | _ => true

/-- The move to the end of its queue, as it is for the lists. -/
def toLast (spec : Rings Tskque τ) (priority : Nat) (tcb : τ) : Rings Tskque τ :=
  (spec.remove tcb).insertLast (.ready priority) tcb

def step (s : State τ) : Event τ → Option (State τ)
  | .insert tcb =>
    if unqueued s tcb then
      some { rq := (knlReadyQueueInsert c s.rq tcb).1
             spec := s.spec.insertLast (.ready (s.rq.priority tcb)) tcb }
    else none
  | .insertTop tcb =>
    if unqueued s tcb then
      some { rq := knlReadyQueueInsertTop c s.rq tcb
             spec := s.spec.insertFirst (.ready (s.rq.priority tcb)) tcb }
    else none
  | .delete tcb =>
    if inItsQueue s tcb then
      (knlReadyQueueDelete c s.rq tcb).map fun rq => { rq := rq, spec := s.spec.remove tcb }
    else none
  | .rotate priority =>
    if priority < c.numTskpri then
      some { rq := knlReadyQueueRotate s.rq priority
             spec := match s.spec.que (.ready priority) with
               | [] => s.spec
               | tcb :: _ => toLast s.spec priority tcb }
    else none
  | .moveLast tcb =>
    if isReady s tcb then
      some { rq := (knlReadyQueueMoveLast s.rq tcb).1
             spec := toLast s.spec (s.rq.priority tcb) tcb }
    else none
  | .setPriority tcb priority =>
    if priority < c.numTskpri ∧ notReady s tcb then
      some { s with rq := { s.rq with priority := Function.update s.rq.priority tcb priority } }
    else none
  | .setKlocked tcb klocked =>
    some { s with rq := { s.rq with klocked := Function.update s.rq.klocked tcb klocked } }
  | .setKlocktsk tcb => some { s with rq := { s.rq with klocktsk := tcb } }
  | .lockWait tcb loc =>
    if unqueued s tcb then
      some { rq := { s.rq with
               klockwait := Function.update s.rq.klockwait tcb true
               links := s.rq.links.insert tcb (.head (.lock loc)) }
             spec := s.spec.insertLast (.lock loc) tcb }
    else none
  | .unlock loc =>
    match s.rq.links.removeNext (.lock loc) with
    | (_, none) => none
    | (links, some tcb) =>
      some { rq := { s.rq with
               links := links
               klockwait := Function.update s.rq.klockwait tcb false
               klocked := Function.update s.rq.klocked tcb true }
             spec := s.spec.remove tcb }

/-- After `knl_ready_queue_initialize`, with no task in a queue. -/
def Init (s : State τ) : Prop :=
  s.spec = Rings.empty ∧ (∀ t, s.rq.priority t < c.numTskpri) ∧
    ∃ rq, s.rq = knlReadyQueueInitialize c rq

def rdySys (τ : Type u) [DecidableEq τ] (c : RdyCfg) : Lts (State τ) (Event τ) where
  init := Init c
  step := step c

end RdySys

end Mtk3Smp
