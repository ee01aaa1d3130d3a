import Mtk3Smp.Ipc.MessageBuffer

/-!
# Creation and deletion of message buffers

tk_cre_mbf and tk_del_mbf (`messagebuf.c`) by any number of tasks on two cores, with the buffers
that `knl_Imalloc` and `knl_Ifree` deal in. tk_cre_mbf allocates before its critical section and
frees after it; tk_del_mbf decides after its critical section whether to free, by the attribute
that the control block has then.
-/

namespace Mtk3Smp

/-- A buffer: the `n`-th that `knl_Imalloc` has returned, or one of the user's. -/
inductive Msgbuf
  | kernel (n : Nat)
  | user (adr : Nat)
  deriving DecidableEq, Repr

def Msgbuf.isUser : Msgbuf → Bool
  | .kernel _ => false
  | .user _ => true

/-- MBFCB: `userbuf` is `mbfatr & TA_USERBUF`. -/
structure MbfSlot where
  mbfid : Nat
  userbuf : Bool
  buffer : Option Msgbuf
  deriving DecidableEq

/-- T_CMBF -/
structure Cmbf where
  userbuf : Bool
  bufsz : Int
  maxmsz : Int
  bufptr : Option Nat

/-- Where a task is in tk_cre_mbf or tk_del_mbf. -/
inductive MbfPc
  | idle
  /-- before the critical section of tk_cre_mbf -/
  | creating (userbuf : Bool) (msgbuf : Option Msgbuf)
  /-- after it, with E_LIMIT -/
  | limit (userbuf : Bool) (msgbuf : Option Msgbuf)
  /-- after the critical section of tk_del_mbf -/
  | deleting (i : Nat) (msgbuf : Option Msgbuf)
  deriving DecidableEq

structure MbfLife where
  /-- `knl_mbfcb_table` and `knl_free_mbfcb` -/
  slot : Nat → MbfSlot
  free : List Nat
  pc : Tid → MbfPc
  /-- the blocks allocated so far -/
  count : Nat
  /-- history: what went to `knl_Ifree`, and the buffers whose deletion has returned -/
  freed : List Msgbuf
  deleted : List Msgbuf

inductive MbfLifeEvent
  /-- tk_cre_mbf up to its critical section; `mem`: `knl_Imalloc` finds memory -/
  | tkCreMbf (t : Tid) (pk : Cmbf) (mem : Bool)
  /-- its critical section -/
  | creSection (t : Tid)
  /-- what follows E_LIMIT -/
  | creLimit (t : Tid)
  /-- tk_del_mbf up to the end of its critical section -/
  | tkDelMbf (t : Tid) (mbfid : Nat)
  /-- what follows that -/
  | delFree (t : Tid)

namespace MbfLife

variable (s : MbfLife)

def setPc (t : Tid) (pc : MbfPc) : MbfLife := { s with pc := Function.update s.pc t pc }

/-- `knl_Ifree` -/
def knlIfree (b : Msgbuf) : MbfLife := { s with freed := b :: s.freed }

/-- tk_cre_mbf up to its critical section: after an error the task has returned. -/
def tkCreMbf (t : Tid) (pk : Cmbf) (mem : Bool) : MbfLife :=
  if pk.bufsz < 0 ∨ pk.maxmsz ≤ 0 then s
  else
    let bufsz := ROUNDSZ pk.bufsz.toNat
    if 0 < bufsz then
      if pk.userbuf then
        if bufsz ≠ pk.bufsz.toNat then s
        else s.setPc t (.creating pk.userbuf (pk.bufptr.map .user))
      else if mem then
        { s with count := s.count + 1 }.setPc t (.creating pk.userbuf (some (.kernel s.count)))
      else s
    else s.setPc t (.creating pk.userbuf none)

/-- The critical section of tk_cre_mbf. -/
def creSection (t : Tid) (userbuf : Bool) (msgbuf : Option Msgbuf) : MbfLife :=
  match s.free with
  | [] => s.setPc t (.limit userbuf msgbuf)
  | i :: rest =>
    { s with
      free := rest
      slot := Function.update s.slot i { mbfid := i + 1, userbuf, buffer := msgbuf } }.setPc t .idle

/-- What tk_cre_mbf does after E_LIMIT. -/
def creLimit (t : Tid) (userbuf : Bool) (msgbuf : Option Msgbuf) : MbfLife :=
  let s := s.setPc t .idle
  match msgbuf with
  | none => s
  | some b => if !userbuf then s.knlIfree b else s

/-- tk_del_mbf up to the end of its critical section, for the index of an ID in range. -/
def tkDelMbf (t : Tid) (i : Nat) : MbfLife :=
  if (s.slot i).mbfid = 0 then s.setPc t (.deleting i none)
  else
    { s with
      free := s.free ++ [i]
      slot := Function.update s.slot i { s.slot i with mbfid := 0 } }.setPc t
        (.deleting i (s.slot i).buffer)

/-- What follows in tk_del_mbf. -/
def delFree (t : Tid) (i : Nat) (msgbuf : Option Msgbuf) : MbfLife :=
  let s := s.setPc t .idle
  match msgbuf with
  | none => s
  | some b =>
    let s := { s with deleted := b :: s.deleted }
    if !(s.slot i).userbuf then s.knlIfree b else s

/-- `num` is `NUM_MBFID`. -/
def step (num : Nat) : MbfLifeEvent → Option MbfLife
  | .tkCreMbf t pk mem => if s.pc t = .idle then some (s.tkCreMbf t pk mem) else none
  | .creSection t =>
    match s.pc t with
    | .creating userbuf msgbuf => some (s.creSection t userbuf msgbuf)
    | _ => none
  | .creLimit t =>
    match s.pc t with
    | .limit userbuf msgbuf => some (s.creLimit t userbuf msgbuf)
    | _ => none
  | .tkDelMbf t mbfid =>
    if s.pc t = .idle then
      if mbfid = 0 ∨ num < mbfid then some s else some (s.tkDelMbf t (mbfid - 1))
    else none
  | .delFree t =>
    match s.pc t with
    | .deleting i msgbuf => some (s.delFree t i msgbuf)
    | _ => none

/-- `knl_messagebuffer_initialize`; the control blocks hold what they may. -/
def boot (num : Nat) (slot : Nat → MbfSlot) : MbfLife :=
  { slot := fun i => { slot i with mbfid := 0 }
    free := List.range num
    pc := fun _ => .idle
    count := 0
    freed := []
    deleted := [] }

end MbfLife

def mbfLifeMachine (num : Nat) : Lts MbfLife MbfLifeEvent where
  init s := ∃ slot, s = .boot num slot
  step s e := s.step num e

end Mtk3Smp
