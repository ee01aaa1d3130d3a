import Mtk3Smp.Lib.Lts
import Mathlib.Data.Nat.Init

/-!
# The I2C controller

A transfer of `i2c_trans` with `i2c_inthdr` (`i2c_rp2040.c`), from `set_com_start` on. The task and
the handler share `ll_devcb` and the controller under `ll_lock`; each section is a single step. The
controller executes the commands of I2C_DATA_CMD in order, and never shows an error.
-/

namespace Mtk3Smp

inductive I2cSts
  | I2C_STS_START | I2C_STS_SEND | I2C_STS_RECV | I2C_STS_STOP
  deriving DecidableEq

/-- A word written to I2C_DATA_CMD. -/
structure I2cCmd where
  read : Bool
  restart : Bool
  stop : Bool
  dat : UInt8
  deriving DecidableEq

inductive I2cErr
  | E_Io | E_TMOUT | E_RLWAI | E_CTX
  deriving DecidableEq

/-- Where the task is in `i2c_trans`; an error of `none` is E_OK. -/
inductive I2cPc
  | start
  /-- at the head of the loop -/
  | loop (err : Option I2cErr)
  /-- in front of the section of the loop -/
  | enter
  /-- in front of the test of `ioerr` -/
  | check
  /-- tk_wai_flg is to be called -/
  | wait
  | waiting
  /-- tk_wai_flg has returned E_OK -/
  | woken
  /-- tk_wai_flg has failed -/
  | fail (err : I2cErr)
  | done (err : Option I2cErr)
  deriving DecidableEq

structure I2cSys where
  /-- `ll_devcb` of the unit: the buffers are what the pointers still have in front of them, and
  what has been stored -/
  state : I2cSts
  ioerr : Option I2cErr
  sdatNum : Nat
  rdatNum : Nat
  sbuf : List UInt8
  rbuf : List UInt8
  /-- the bit of `done_flgid` -/
  flgptn : Bool
  /-- I2C_INT_TX_EMPTY and I2C_INT_RX_FULL in I2C_INTR_MASK -/
  txMask : Bool
  rxMask : Bool
  /-- the commands written to I2C_DATA_CMD, of which the first `executed` are done, and the bytes
  to be read from it -/
  cmds : List I2cCmd
  executed : Nat
  rxFifo : List UInt8
  /-- the handler is in front of its section -/
  hdr : Bool
  pc : I2cPc
  /-- history: the bytes received from the bus -/
  received : List UInt8

inductive I2cEvent
  | start
  | loop
  | enter
  | check
  | waiFlg
  /-- tk_wai_flg returns an error -/
  | giveUp (err : I2cErr)
  | wake
  | fail
  /-- the controller executes a command; `byte` is what a read command receives -/
  | bus (byte : UInt8)
  | hdrEnter
  | inthdr

namespace I2cSys

variable (s : I2cSys)

/-- The bits of I2C_INTR_STAT. -/
def txEmpty : Bool := s.txMask && s.executed == s.cmds.length
def rxFull : Bool := s.rxMask && !s.rxFifo.isEmpty

/-- `out_w(I2C_DATA_CMD(unit), cmd)` -/
def out (cmd : I2cCmd) : I2cSys := { s with cmds := s.cmds ++ [cmd] }

/-- tk_set_flg(done_flgid, 1) -/
def setFlg : I2cSys :=
  if s.pc = .waiting then { s with pc := .woken } else { s with flgptn := true }

/-- The end of the handler where `wup` is TRUE. -/
def wup : I2cSys := { s with txMask := false, rxMask := false }.setFlg

/-- The error handling of the handler. -/
def abort : I2cSys := { s with ioerr := some .E_Io, state := .I2C_STS_STOP }.wup

/-- The case I2C_STS_SEND with TX_EMPTY. -/
def hdrSend : I2cSys :=
  let dat := s.sbuf.headD 0
  let s := { s with sbuf := s.sbuf.tail, sdatNum := s.sdatNum - 1 }
  if s.sdatNum ≠ 0 then s.out { read := false, restart := false, stop := false, dat }
  else if s.rdatNum ≠ 0 then
    let s := { s with state := .I2C_STS_START }
    (s.out { read := false, restart := true, stop := false, dat }).wup
  else
    let s := { s with state := .I2C_STS_STOP }
    (s.out { read := false, restart := false, stop := true, dat }).wup

/-- The case I2C_STS_RECV with RX_FULL. -/
def hdrRecv : I2cSys :=
  let s := { s with
    rbuf := s.rbuf ++ [s.rxFifo.headD 0]
    rxFifo := s.rxFifo.tail
    rdatNum := s.rdatNum - 1 }
  if s.rdatNum ≠ 0 then s.out { read := true, restart := false, stop := false, dat := 0 }
  else { s with state := .I2C_STS_STOP }.wup

/-- The section of `i2c_inthdr`. -/
def inthdr : I2cSys :=
  match s.state with
  | .I2C_STS_SEND => if s.txEmpty then s.hdrSend else s.abort
  | .I2C_STS_RECV => if s.rxFull then s.hdrRecv else s.abort
  | _ => s.abort

/-- The section in the loop of `i2c_trans`. -/
def loopSection : I2cSys :=
  let s := { s with flgptn := false, pc := .check }
  if 0 < s.sdatNum then { s with txMask := true, state := .I2C_STS_SEND }
  else
    let stop := if 1 < s.rdatNum then false else true
    { s with rxMask := true, state := .I2C_STS_RECV }.out
      { read := true, restart := false, stop, dat := 0 }

/-- The controller executes the next command. -/
def bus (byte : UInt8) (cmd : I2cCmd) : I2cSys :=
  if cmd.read then
    { s with
      executed := s.executed + 1
      rxFifo := s.rxFifo ++ [byte]
      received := s.received ++ [byte] }
  else { s with executed := s.executed + 1 }

def step : I2cEvent → Option I2cSys
  | .start =>
    if s.pc = .start then
      some { s with ioerr := none, txMask := false, rxMask := false, pc := .loop none }
    else none
  | .loop =>
    match s.pc with
    | .loop err =>
      some { s with pc := if s.state = .I2C_STS_STOP then .done err else .enter }
    | _ => none
  | .enter => if s.pc = .enter then some s.loopSection else none
  | .check =>
    if s.pc = .check then
      match s.ioerr with
      | some err => some { s with pc := .done (some err) }
      | none => some { s with pc := .wait }
    else none
  | .waiFlg =>
    if s.pc = .wait then
      some (if s.flgptn then { s with flgptn := false, pc := .woken }
        else { s with pc := .waiting })
    else none
  | .giveUp err =>
    if s.pc = .wait ∨ s.pc = .waiting then some { s with pc := .fail err } else none
  | .wake => if s.pc = .woken then some { s with pc := .loop s.ioerr } else none
  | .fail =>
    match s.pc with
    | .fail err =>
      some { s with
        txMask := false, rxMask := false, state := .I2C_STS_STOP, pc := .done (some err) }
    | _ => none
  | .bus byte => s.cmds[s.executed]?.map fun cmd => s.bus byte cmd
  | .hdrEnter =>
    if s.hdr = false ∧ (s.txEmpty || s.rxFull) = true then some { s with hdr := true } else none
  | .inthdr => if s.hdr = true then some { s.inthdr with hdr := false } else none

/-- `set_com_start`, with interrupts masked since the transfer before. -/
def comStart (sbuf : List UInt8) (rdatNum : Nat) : I2cSys where
  state := .I2C_STS_START
  ioerr := none
  sdatNum := sbuf.length
  rdatNum := rdatNum
  sbuf := sbuf
  rbuf := []
  flgptn := false
  txMask := false
  rxMask := false
  cmds := []
  executed := 0
  rxFifo := []
  hdr := false
  pc := .start
  received := []

end I2cSys

/-- A transfer that sends `sbuf` and receives `rdatNum` bytes; the error and the flag of the
transfer before may be left. -/
def i2cMachine (sbuf : List UInt8) (rdatNum : Nat) : Lts I2cSys I2cEvent where
  init s := ∃ ioerr flgptn, s = { I2cSys.comStart sbuf rdatNum with ioerr, flgptn }
  step := I2cSys.step

end Mtk3Smp
