import Mtk3Smp.Sync.Gcb
import Mtk3Smp.Lib.Lts
import Mtk3Smp.Lib.SChain

/-!
# Mailboxes

`mailbox.c`, `mailbox.h`. The messages are linked through the headers that their senders provide,
so the queue lies in memory that other code writes as well. Each call is one critical section.
Over it, `Box` is what a mailbox is for: an ordered list of what has been posted.
-/

namespace Mtk3Smp

open Gcb

/-- The address of a message, a `T_MSG *` that is not NULL. -/
abbrev PkMsg := Nat

/-- What a mailbox has taken and given, in the order in which it did. -/
inductive MbxLog
  | snd (pkMsg : PkMsg) (msgpri : Int)
  | rcv (t : Tid) (pkMsg : PkMsg)
  deriving DecidableEq, Repr

/-- The attributes TA_TPRI and TA_MPRI. -/
structure Cmbx where
  tpri : Bool
  mpri : Bool

structure MbxSys where
  /-- `mbxid != 0` -/
  exists_ : Bool
  /-- `mq_head.msgque[0]`, where NULL is none, and `mq_tail` -/
  mqHead : Option PkMsg
  mqTail : PkMsg
  /-- `msgque[0]` and `msgpri` of the messages -/
  msgque : PkMsg → Option PkMsg
  msgpri : PkMsg → Int
  waitQueue : List (Waiter Unit)
  priority : Tid → Nat
  /-- history: the messages sent and received, and what the failing calls of tk_rcv_mbx returned -/
  log : List MbxLog
  failed : List (Tid × ER)

namespace MbxSys

variable (c : Cmbx) (s : MbxSys)

/-- `nextmsg(msg)`; none is `&mq_head`. -/
def nextmsg : Option PkMsg → Option PkMsg
  | none => s.mqHead
  | some msg => s.msgque msg

/-- `nextmsg(msg) = v` -/
def setNextmsg (v : Option PkMsg) : Option PkMsg → MbxSys
  | none => { s with mqHead := v }
  | some msg => { s with msgque := Function.update s.msgque msg v }

/-- The loop of `knl_queue_insert_mpri`, from `prevmsg` on: the message to insert behind, and the
one that it is in front of. `fuel` bounds its rounds. -/
def mpriLoop (msgpri : Int) : Nat → Option PkMsg → Option (Option PkMsg × Option PkMsg)
  | 0, _ => none
  | fuel + 1, prevmsg =>
    match s.nextmsg prevmsg with
    | none => some (prevmsg, none)
    | some msg =>
      if msgpri < s.msgpri msg then some (prevmsg, some msg)
      else mpriLoop msgpri fuel (some msg)

/-- `knl_queue_insert_mpri`; none where the loop does not end within as many rounds as messages
have been sent and received. -/
def knlQueueInsertMpri (pkMsg : PkMsg) : Option MbxSys :=
  (s.mpriLoop (s.msgpri pkMsg) (s.log.length + 1) none).map fun (prevmsg, msg) =>
    (s.setNextmsg msg (some pkMsg)).setNextmsg (some pkMsg) prevmsg

/-- "Connect to end of queue" -/
def connectEnd (pkMsg : PkMsg) : MbxSys :=
  let s := s.setNextmsg none (some pkMsg)
  let s :=
    match s.mqHead with
    | none => s.setNextmsg (some pkMsg) none
    | some _ => s.setNextmsg (some pkMsg) (some s.mqTail)
  { s with mqTail := pkMsg }

/-- tk_snd_mbx; none where it does not return. -/
def tkSndMbx (pkMsg : PkMsg) : Option (MbxSys × ER) :=
  if !s.exists_ then some (s, .E_NOEXS)
  else if c.mpri ∧ s.msgpri pkMsg ≤ 0 then some (s, .E_PAR)
  else
    let sent := s.log ++ [.snd pkMsg (s.msgpri pkMsg)]
    match s.waitQueue with
    | tcb :: queue =>
      some ({ s with waitQueue := queue, log := sent ++ [.rcv tcb.tsk pkMsg] }, .E_OK)
    | [] =>
      if c.mpri then (s.knlQueueInsertMpri pkMsg).map fun s => ({ s with log := sent }, .E_OK)
      else some ({ s.connectEnd pkMsg with log := sent }, .E_OK)

def fail (t : Tid) (e : ER) : MbxSys := { s with failed := s.failed ++ [(t, e)] }

/-- tk_rcv_mbx, called by the task `self`; `ddsp` is `in_ddsp()`. -/
def tkRcvMbx (self : Tid) (ddsp : Bool) (tmout : Tmo) : MbxSys :=
  if ddsp then s.fail self .E_CTX
  else if !s.exists_ then s.fail self .E_NOEXS
  else
    match s.mqHead with
    | some msg => { s with mqHead := s.msgque msg, log := s.log ++ [.rcv self msg] }
    | none =>
      if tmout = .TMO_POL then s.fail self .E_TMOUT
      else { s with waitQueue := knlGcbMakeWait c.tpri s.priority ⟨self, tmout, ()⟩ s.waitQueue }

/-- A waiting task leaves the queue (there is no `rel_wai_hook`): `e` is what its call returns,
none where it does not return (tk_ter_tsk). -/
def endWait (t : Tid) (e : Option ER) : MbxSys :=
  let s := { s with waitQueue := queRemove t s.waitQueue }
  match e with
  | some e => s.fail t e
  | none => s

/-- `knl_change_task_priority`: only a TA_TPRI mailbox has the hook `mbx_chg_pri`. -/
def chgPri (t : Tid) (priority : Nat) : MbxSys :=
  let s := { s with priority := Function.update s.priority t priority }
  if c.tpri then { s with waitQueue := Gcb.knlGcbChangePriority s.priority t s.waitQueue } else s

/-- tk_del_mbx -/
def tkDelMbx : MbxSys :=
  if !s.exists_ then s
  else
    { s with
      exists_ := false
      waitQueue := []
      failed := s.failed ++ s.waitQueue.map fun x => (x.tsk, .E_DLT) }

end MbxSys

inductive MbxEvent
  | tkSndMbx (pkMsg : PkMsg)
  | tkRcvMbx (self : Tid) (ddsp : Bool) (tmout : Tmo)
  /-- `knl_wait_release_tmout` from the timer, tk_rel_wai and tk_ter_tsk -/
  | timeout (t : Tid)
  | tkRelWai (t : Tid)
  | tkTerTsk (t : Tid)
  | chgPri (t : Tid) (priority : Nat)
  | tkDelMbx
  /-- other code, or another mailbox, writes the header of a message -/
  | store (pkMsg : PkMsg) (msgque : Option PkMsg) (msgpri : Int)

namespace MbxSys

variable (c : Cmbx) (s : MbxSys)

def step : MbxEvent → Option MbxSys
  | .tkSndMbx pkMsg => (s.tkSndMbx c pkMsg).map Prod.fst
  -- a task that waits makes no call
  | .tkRcvMbx self ddsp tmout =>
    if waiting self s.waitQueue then none else some (s.tkRcvMbx c self ddsp tmout)
  | .timeout t => if timed t s.waitQueue then some (s.endWait t (some .E_TMOUT)) else none
  | .tkRelWai t => if waiting t s.waitQueue then some (s.endWait t (some .E_RLWAI)) else none
  | .tkTerTsk t => if waiting t s.waitQueue then some (s.endWait t none) else none
  | .chgPri t priority => some (s.chgPri c t priority)
  | .tkDelMbx => some s.tkDelMbx
  | .store pkMsg msgque msgpri =>
    some
      { s with
        msgque := Function.update s.msgque pkMsg msgque
        msgpri := Function.update s.msgpri pkMsg msgpri }

/-- What tk_cre_mbx leaves; memory and `mq_tail` hold anything. -/
def created (mqTail : PkMsg) (msgque : PkMsg → Option PkMsg) (msgpri : PkMsg → Int)
    (priority : Tid → Nat) : MbxSys :=
  { exists_ := true, mqHead := none, mqTail, msgque, msgpri, waitQueue := [], priority
    log := [], failed := [] }

end MbxSys

def mbxMachine (c : Cmbx) : Lts MbxSys MbxEvent where
  init s := ∃ mqTail msgque msgpri priority, s = MbxSys.created mqTail msgque msgpri priority
  step := MbxSys.step c

/-! ## What a mailbox is for -/

/-- A message posted, with its number in the order of posting. -/
structure Posted where
  num : Nat
  pkMsg : PkMsg
  msgpri : Int

/-- What a mailbox orders its messages by, before the order of posting. -/
def Posted.rank (mpri : Bool) (x : Posted) : Int := if mpri then x.msgpri else 0

/-- `x` is to be received before `y`. -/
def Posted.Before (mpri : Bool) (x y : Posted) : Prop :=
  x.rank mpri < y.rank mpri ∨ x.rank mpri = y.rank mpri ∧ x.num < y.num

/-- The messages that wait to be received, and how many have been posted. -/
structure Box where
  queue : List Posted
  posted : Nat

/-- A message goes behind those of its rank; only the first one can be received. -/
def Box.apply (mpri : Bool) (b : Box) : MbxLog → Option Box
  | .snd pkMsg msgpri =>
    some ⟨KeyOrder.insert (Posted.rank mpri) ⟨b.posted, pkMsg, msgpri⟩ b.queue, b.posted + 1⟩
  | .rcv _ pkMsg =>
    match b.queue with
    | x :: rest => if x.pkMsg = pkMsg then some ⟨rest, b.posted⟩ else none
    | [] => none

/-- The box after all of the log; none where the log is not one of a box. -/
def replay (mpri : Bool) (log : List MbxLog) : Option Box :=
  log.foldlM (Box.apply mpri) ⟨[], 0⟩

/-- The messages sent and the messages received, in order. -/
def sent (log : List MbxLog) : List PkMsg :=
  log.filterMap fun
    | .snd m _ => some m
    | .rcv _ _ => none

def received (log : List MbxLog) : List PkMsg :=
  log.filterMap fun
    | .snd _ _ => none
    | .rcv _ m => some m

/-- The message has been sent and has not been received. -/
def MbxSys.queued (s : MbxSys) (pkMsg : PkMsg) : Prop :=
  (received s.log).count pkMsg < (sent s.log).count pkMsg

/-- The mailbox is the box that its log describes. -/
structure MbxOk (c : Cmbx) (s : MbxSys) : Prop where
  /-- the queued messages, which `mq_head` leads through -/
  box : ∃ b, replay c.mpri s.log = some b ∧ SChain s.msgque s.mqHead (b.queue.map (·.pkMsg)) ∧
    b.queue.Pairwise (Posted.Before c.mpri) ∧
    -- each message sent is received once or queued
    (sent s.log).Perm (received s.log ++ b.queue.map (·.pkMsg)) ∧
    (c.mpri = false → sent s.log = received s.log ++ b.queue.map (·.pkMsg))
  /-- what has been received was the first one then -/
  order : ∀ pre t m post, s.log = pre ++ .rcv t m :: post →
    ∃ b x rest, replay c.mpri pre = some b ∧ b.queue = x :: rest ∧ x.pkMsg = m ∧
      ∀ y ∈ rest, x.Before c.mpri y
  exclusive : s.mqHead ≠ none → s.waitQueue = []
  /-- every tk_snd_mbx returns -/
  returns : ∀ pkMsg, ¬ s.queued pkMsg → (s.tkSndMbx c pkMsg).isSome

/-- A queued message belongs to the mailbox: its header is not written, nor is it sent again. -/
def MbxOwned (s : MbxSys) : MbxEvent → Prop
  | .tkSndMbx pkMsg | .store pkMsg _ _ => ¬ s.queued pkMsg
  | _ => True

instance (s : MbxSys) (e : MbxEvent) : Decidable (MbxOwned s e) := by
  unfold MbxOwned MbxSys.queued
  cases e <;> infer_instance

end Mtk3Smp
