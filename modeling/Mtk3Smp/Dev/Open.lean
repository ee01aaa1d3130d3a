import Mtk3Smp.Kernel.State
import Mtk3Smp.Lib.Lts

/-!
# Opening and closing devices

tk_opn_dev and tk_cls_dev (`deviceio.c`) by any number of tasks. What runs between LockDM and
UnlockDM is one step; openfn and closefn run outside the lock, so that their beginning and their
return are steps of their own. The requests of a descriptor are left out.
-/

namespace Mtk3Smp

abbrev Omode := UInt32

def TD_READ : Omode := 0x0001
def TD_WRITE : Omode := 0x0002
def TD_UPDATE : Omode := 0x0003
def TD_EXCL : Omode := 0x0100
def TD_WEXCL : Omode := 0x0200
def TD_REXCL : Omode := 0x0400

/-- The errors of tk_opn_dev; `driver` is one that openfn returned. -/
inductive OpenErr
  | E_PAR | E_BUSY | E_NOEXS | E_LIMIT | E_SYS
  | driver (ercd : Int)
  deriving DecidableEq, Repr

/-- What tk_opn_dev looks at in a DevCB: whether it is registered, `nsub`, and
`drvatr & TDA_OPENREQ`. -/
structure Ddev where
  registered : Bool
  nsub : Nat
  openreq : Bool

/-- OpnCB; `resid` is 0 until the open is complete and from when the close begins. -/
structure OpnCb where
  devcb : Nat
  unitno : Nat
  omode : Omode
  resid : Bool

/-- A driver call on a unit: its number, and whether it has returned with success. -/
structure DrvCall where
  num : Nat
  isOpen : Bool
  result : Option Bool
  deriving DecidableEq

/-- Where a task is in tk_opn_dev or tk_cls_dev; `i` is the index of its OpnCB. -/
inductive OpenPc
  | idle
  /-- openfn is to be called -/
  | openCall (i : Nat)
  | openRun (i : Nat) (num : Nat)
  /-- openfn has failed -/
  | openFail (i : Nat) (ercd : Int)
  /-- `resid` is to be set -/
  | openDone (i : Nat)
  /-- in `abort_allrequest` -/
  | closing (i : Nat)
  /-- closefn is to be called -/
  | closeCall (i : Nat) (dev unitno : Nat)
  | closeRun (i : Nat) (dev unitno : Nat) (num : Nat)
  /-- the OpnCB is to be freed -/
  | closeEnd (i : Nat)
  deriving DecidableEq

structure OpenSys where
  ddev : Nat → Ddev
  /-- `knl_OpnCBtbl` and `knl_FreeOpnCB` -/
  opncb : Nat → OpnCb
  free : List Nat
  /-- `devcb->openq` -/
  openq : Nat → List Nat
  pc : Tid → OpenPc
  /-- the result of the last tk_opn_dev that returned, a descriptor or an error -/
  result : Tid → Option (Except OpenErr Nat)
  /-- history: the driver calls begun, and the last one on each unit of each device -/
  calls : Nat
  last : Nat → Nat → Option DrvCall

inductive OpenEvent
  /-- tk_opn_dev up to UnlockDM; `sem`: tk_cre_sem succeeds -/
  | tkOpnDev (t : Tid) (dev unitno : Nat) (omode : Omode) (sem : Bool)
  | openBegin (t : Tid)
  /-- openfn returns -/
  | openReturn (t : Tid) (ercd : Int)
  /-- the last critical section of tk_opn_dev -/
  | openFinish (t : Tid)
  /-- tk_cls_dev up to UnlockDM -/
  | tkClsDev (t : Tid) (dd : Nat)
  /-- the critical section of `knl_close_device` after `abort_allrequest` -/
  | closeSection (t : Tid)
  | closeBegin (t : Tid)
  /-- closefn returns -/
  | closeReturn (t : Tid) (ercd : Int)
  /-- the last critical section of `knl_close_device` -/
  | closeFinish (t : Tid)

/-! ## Open modes -/

/-- The counters of `chkopenmode`. -/
structure ModeCounts where
  read : Nat
  write : Nat
  rexcl : Nat
  wexcl : Nat

/-- One round of its loop. -/
def countMode (unitno : Nat) (n : ModeCounts) (o : OpnCb) : ModeCounts :=
  if unitno = 0 ∨ o.unitno = 0 ∨ o.unitno = unitno then
    let n := if o.omode &&& TD_READ ≠ 0 then { n with read := n.read + 1 } else n
    let n := if o.omode &&& TD_WRITE ≠ 0 then { n with write := n.write + 1 } else n
    let n := if o.omode &&& (TD_EXCL ||| TD_REXCL) ≠ 0 then { n with rexcl := n.rexcl + 1 } else n
    if o.omode &&& (TD_EXCL ||| TD_WEXCL) ≠ 0 then { n with wexcl := n.wexcl + 1 } else n
  else n

/-- `chkopenmode`: the error, if any. -/
def chkopenmode (openq : List OpnCb) (unitno : Nat) (omode : Omode) : Option OpenErr :=
  if omode &&& TD_UPDATE = 0 then some .E_PAR
  else
    let n := openq.foldl (countMode unitno) ⟨0, 0, 0, 0⟩
    if omode &&& (TD_EXCL ||| TD_REXCL) ≠ 0 ∧ 0 < n.read then some .E_BUSY
    else if omode &&& (TD_EXCL ||| TD_WEXCL) ≠ 0 ∧ 0 < n.write then some .E_BUSY
    else if omode &&& TD_READ ≠ 0 ∧ 0 < n.rexcl then some .E_BUSY
    else if omode &&& TD_WRITE ≠ 0 ∧ 0 < n.wexcl then some .E_BUSY
    else none

namespace OpenSys

variable (s : OpenSys)

def setPc (t : Tid) (pc : OpenPc) : OpenSys := { s with pc := Function.update s.pc t pc }

def returns (t : Tid) (r : Except OpenErr Nat) : OpenSys :=
  { s with result := Function.update s.result t (some r) }.setPc t .idle

def setResid (i : Nat) (resid : Bool) : OpenSys :=
  { s with opncb := Function.update s.opncb i { s.opncb i with resid } }

/-- The blocks on `devcb->openq`. -/
def opened (dev : Nat) : List OpnCb := (s.openq dev).map s.opncb

/-- `knl_chkopen` -/
def knlChkopen (dev unitno : Nat) : Bool := (s.opened dev).any fun o => o.unitno == unitno

/-- `newOpnCB`, with the block that it takes. -/
def newOpnCB (dev unitno : Nat) (omode : Omode) (i : Nat) (rest : List Nat) : OpenSys :=
  { s with
    free := rest
    openq := Function.update s.openq dev (s.openq dev ++ [i])
    opncb := Function.update s.opncb i { devcb := dev, unitno, omode, resid := false } }

/-- `knl_delOpnCB` without the insertion into the free queue. -/
def knlDelOpnCB (i : Nat) : OpenSys :=
  let dev := (s.opncb i).devcb
  { s with openq := Function.update s.openq dev ((s.openq dev).erase i) }.setResid i false

/-- `QueInsert(&opncb->q, &knl_FreeOpnCB)` -/
def freeOpnCB (i : Nat) : OpenSys := { s with free := s.free ++ [i] }

/-- A driver call begins. -/
def beginCall (dev unitno : Nat) (isOpen : Bool) : OpenSys :=
  { s with
    calls := s.calls + 1
    last := Function.update s.last dev
      (Function.update (s.last dev) unitno (some ⟨s.calls, isOpen, none⟩)) }

/-- The driver call `num` returns; it need not be the last one any more. -/
def endCall (dev unitno num : Nat) (ok : Bool) : OpenSys :=
  { s with
    last := Function.update s.last dev (Function.update (s.last dev) unitno
      ((s.last dev unitno).map fun x => if x.num = num then { x with result := some ok } else x)) }

/-- tk_opn_dev up to UnlockDM. -/
def tkOpnDev (t : Tid) (dev unitno : Nat) (omode : Omode) (sem : Bool) : OpenSys :=
  if (s.ddev dev).registered = false ∨ (s.ddev dev).nsub < unitno then
    s.returns t (.error .E_NOEXS)
  else
    match chkopenmode (s.opened dev) unitno omode with
    | some e => s.returns t (.error e)
    | none =>
      let skip := s.knlChkopen dev unitno && !(s.ddev dev).openreq
      match s.free with
      | [] => s.returns t (.error .E_LIMIT)
      | i :: rest =>
        let s := s.newOpnCB dev unitno omode i rest
        if !sem then ((s.knlDelOpnCB i).freeOpnCB i).returns t (.error .E_SYS)
        else s.setPc t (if skip then .openDone i else .openCall i)

/-- tk_cls_dev up to UnlockDM; `max` is `MAX_OPNDEV`. -/
def tkClsDev (max : Nat) (t : Tid) (dd : Nat) : OpenSys :=
  if dd < 1 ∨ max < dd then s
  else if (s.opncb (dd - 1)).resid then (s.setResid (dd - 1) false).setPc t (.closing (dd - 1))
  else s

/-- The critical section of `knl_close_device` in which the OpnCB leaves the queue. -/
def closeSection (t : Tid) (i : Nat) : OpenSys :=
  let dev := (s.opncb i).devcb
  let unitno := (s.opncb i).unitno
  let s := s.knlDelOpnCB i
  if s.knlChkopen dev unitno && !(s.ddev dev).openreq then s.setPc t (.closeEnd i)
  else s.setPc t (.closeCall i dev unitno)

def step (max : Nat) : OpenEvent → Option OpenSys
  | .tkOpnDev t dev unitno omode sem =>
    if s.pc t = .idle then some (s.tkOpnDev t dev unitno omode sem) else none
  | .openBegin t =>
    match s.pc t with
    | .openCall i =>
      some ((s.beginCall (s.opncb i).devcb (s.opncb i).unitno true).setPc t (.openRun i s.calls))
    | _ => none
  | .openReturn t ercd =>
    match s.pc t with
    | .openRun i num =>
      some ((s.endCall (s.opncb i).devcb (s.opncb i).unitno num (0 ≤ ercd)).setPc t
        (if 0 ≤ ercd then .openDone i else .openFail i ercd))
    | _ => none
  | .openFinish t =>
    match s.pc t with
    | .openDone i => some ((s.setResid i true).returns t (.ok (i + 1)))
    | .openFail i ercd =>
      some (((s.knlDelOpnCB i).freeOpnCB i).returns t (.error (.driver ercd)))
    | _ => none
  | .tkClsDev t dd => if s.pc t = .idle then some (s.tkClsDev max t dd) else none
  | .closeSection t =>
    match s.pc t with
    | .closing i => some (s.closeSection t i)
    | _ => none
  | .closeBegin t =>
    match s.pc t with
    | .closeCall i dev unitno =>
      some ((s.beginCall dev unitno false).setPc t (.closeRun i dev unitno s.calls))
    | _ => none
  | .closeReturn t ercd =>
    match s.pc t with
    | .closeRun i dev unitno num =>
      some ((s.endCall dev unitno num (0 ≤ ercd)).setPc t (.closeEnd i))
    | _ => none
  | .closeFinish t =>
    match s.pc t with
    | .closeEnd i => some ((s.freeOpnCB i).setPc t .idle)
    | _ => none

/-- `knl_initDevIO`, with the registered devices. -/
def boot (max : Nat) (ddev : Nat → Ddev) (opncb : Nat → OpnCb) : OpenSys :=
  { ddev
    opncb := fun i => { opncb i with resid := false }
    free := List.range max
    openq := fun _ => []
    pc := fun _ => .idle
    result := fun _ => none
    calls := 0
    last := fun _ _ => none }

end OpenSys

/-- tk_opn_dev and tk_cls_dev with `max` open management blocks. -/
def openMachine (max : Nat) : Lts OpenSys OpenEvent where
  init s := ∃ ddev opncb, s = .boot max ddev opncb
  step s e := s.step max e

end Mtk3Smp
