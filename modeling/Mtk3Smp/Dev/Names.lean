import Mtk3Smp.Lib.Lts
import Mathlib.Data.Int.Basic
import Mathlib.Logic.Function.Basic

/-!
# Device names

tk_def_dev, tk_get_dev and tk_ref_dev (`device.c`), with `knl_phydevnm` and `logdevnm`. A name is
the list of its bytes in front of the NUL. Each call works on the table between LockDM and
UnlockDM, so that a run is a sequence of registrations.
-/

namespace Mtk3Smp

abbrev DevNm := List UInt8

def L_DEVNM : Nat := 8
def MAX_UNIT : Int := 255

/-- A DevCB: the name, empty where `devnm[0]` is NUL, and `ddev.nsub`. -/
structure DevCb where
  devnm : DevNm
  nsub : Int

inductive DevErr
  | E_PAR | E_ID | E_NOEXS | E_LIMIT | E_BUSY
  deriving DecidableEq, Repr

structure DevTbl where
  /-- `knl_DevCBtbl`, `knl_UsedDevCB` and `knl_FreeDevCB` -/
  devcb : Nat → DevCb
  used : List Nat
  free : List Nat

def isDigit (c : UInt8) : Bool := 48 ≤ c.toNat && c.toNat ≤ 57

/-- INT arithmetic, which wraps. -/
def toINT (n : Int) : Int := (n + 2147483648) % 4294967296 - 2147483648

/-- The second loop of `knl_phydevnm`. -/
def unitLoop : Int → DevNm → Int
  | unitno, [] => unitno
  | unitno, c :: rest => unitLoop (toINT (unitno * 10 + (c.toNat - 48))) rest

/-- `knl_phydevnm`: what it writes to `pdevnm`, in front of the NUL, and the unit number. -/
def knlPhydevnm (ldevnm : DevNm) : DevNm × Int :=
  let pdevnm := ldevnm.takeWhile fun c => !isDigit c
  match ldevnm.dropWhile fun c => !isDigit c with
  | [] => (pdevnm, 0)
  | c :: rest => (pdevnm, toINT (unitLoop 0 (c :: rest) + 1))

/-- The loop of `logdevnm`, down from the end of `unostr`. -/
def unoLoop (unitno : Nat) (cp : DevNm) : DevNm :=
  let cp := UInt8.ofNat (48 + unitno % 10) :: cp
  if unitno / 10 = 0 then cp else unoLoop (unitno / 10) cp
termination_by unitno

def logdevnm (pdevnm : DevNm) (unitno : Nat) : DevNm :=
  if 0 < unitno then pdevnm ++ unoLoop (unitno - 1) [] else pdevnm

namespace DevTbl

variable (s : DevTbl)

/-- DID and DEVID, for the index in the table. -/
def did (i : Nat) : Int := (i + 1) * 256
def devid (i : Nat) (unitno : Int) : Int := did i + unitno

def knlSearchDevCB (devnm : DevNm) : Option Nat :=
  s.used.find? fun i => (s.devcb i).devnm.head? == devnm.head? && (s.devcb i).devnm == devnm

def setDevCb (i : Nat) (x : DevCb) : DevTbl := { s with devcb := Function.update s.devcb i x }

/-- `newDevCB`; `nsub` is set next. -/
def newDevCB (devnm : DevNm) (nsub : Int) (i : Nat) (rest : List Nat) : DevTbl :=
  { s with used := s.used ++ [i], free := rest }.setDevCb i
    { devnm := devnm.take (L_DEVNM + 1), nsub }

def delDevCB (i : Nat) : DevTbl :=
  { s with used := s.used.erase i, free := s.free ++ [i] }.setDevCb i
    { s.devcb i with devnm := [] }

/-- The length that a logical name of the device may have. -/
def logLength (len : Nat) (nsub : Int) : Nat :=
  let len := if 0 < nsub then len + 1 else len
  let len := if 10 < nsub then len + 1 else len
  if 100 < nsub then len + 1 else len

/-- tk_def_dev; `nsub` is none where `pk_ddev` is NULL, and `inUse` says whether the device has open
descriptors. -/
def tkDefDev (devnm : DevNm) (nsub : Option Int) (inUse : Bool) : Except DevErr Int × DevTbl :=
  if devnm.length = 0 ∨ L_DEVNM < devnm.length then (.error .E_PAR, s)
  else
    match nsub with
    | some nsub =>
      if nsub < 0 ∨ MAX_UNIT < nsub then (.error .E_PAR, s)
      else if L_DEVNM < logLength devnm.length nsub then (.error .E_PAR, s)
      else
        match s.knlSearchDevCB devnm with
        | some i => (.ok (did i), s.setDevCb i { s.devcb i with nsub })
        | none =>
          match s.free with
          | [] => (.error .E_LIMIT, s)
          | i :: rest => (.ok (did i), s.newDevCB devnm nsub i rest)
    | none =>
      match s.knlSearchDevCB devnm with
      | none => (.error .E_NOEXS, s)
      | some i => if inUse then (.error .E_BUSY, s) else (.ok (did i), s.delDevCB i)

/-- tk_get_dev: DID and the name; `max` is `MAX_REGDEV`. -/
def tkGetDev (max : Nat) (devid : Int) : Except DevErr (Int × DevNm) :=
  if devid / 256 < 1 ∨ max < devid / 256 then .error .E_ID
  else
    let i := (devid / 256 - 1).toNat
    let x := s.devcb i
    if x.devnm = [] ∨ x.nsub < devid % 256 then .error .E_NOEXS
    else .ok (did i, logdevnm x.devnm (devid % 256).toNat)

/-- tk_ref_dev, and the search of tk_opn_dev. -/
def tkRefDev (devnm : DevNm) : Except DevErr Int :=
  let (pdevnm, unitno) := knlPhydevnm devnm
  match s.knlSearchDevCB pdevnm with
  | none => .error .E_NOEXS
  | some i => if (s.devcb i).nsub < unitno then .error .E_NOEXS else .ok (devid i unitno)

/-- `initDevCB` -/
def boot (max : Nat) (devcb : Nat → DevCb) : DevTbl :=
  { devcb := fun i => { devcb i with devnm := [] }, used := [], free := List.range max }

end DevTbl

inductive DevEvent
  | tkDefDev (devnm : DevNm) (nsub : Option Int) (inUse : Bool)

/-- Registrations, with a table of `max` entries. -/
def deviceMachine (max : Nat) : Lts DevTbl DevEvent where
  init s := ∃ devcb, s = .boot max devcb
  step s
    | .tkDefDev devnm nsub inUse => some (s.tkDefDev devnm nsub inUse).2

end Mtk3Smp
