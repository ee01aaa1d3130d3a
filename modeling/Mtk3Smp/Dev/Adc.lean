import Mtk3Smp.Lib.Lts
import Mathlib.Data.Int.Basic
import Mathlib.Logic.Function.Basic

/-!
# The A/D converter

`adc_convert` and `adc_inthdr` (`adc_rp2040.c`). The lock of the device driver interface lets one
call in at a time; the sections under `ll_lock` are single steps. A sample carries the request and
the channel that its conversion was started for.
-/

namespace Mtk3Smp

def ADC_CH_NUM : Int := 5

/-- A result in ADC_FIFO: whose conversion it is, of which channel. -/
structure AdcSample where
  req : Option Nat
  ch : Int
  value : UInt32
  deriving DecidableEq

/-- `in_w(ADC_FIFO) & 0x0FFF` -/
def AdcSample.data (x : AdcSample) : AdcSample := { x with value := x.value &&& 0x0FFF }

/-- How tk_wai_flg fails: a timeout, tk_rel_wai, or before it waits at all. -/
inductive AdcWaitErr
  | E_TMOUT | E_RLWAI | E_CTX
  deriving DecidableEq

inductive AdcErr
  | E_PAR | E_Io
  | wait (err : AdcWaitErr)
  deriving DecidableEq

/-- Where the interrupt handler is: in front of its section, and in front of ClearInt. -/
inductive AdcHdr
  | out | entered | left
  deriving DecidableEq

/-- Where the task is in `adc_convert`. -/
inductive AdcPc
  | idle
  /-- in the loop on ADC_CS_READY -/
  | ready
  /-- tk_wai_flg is to be called -/
  | wait
  | waiting
  /-- in front of the last section; `err` is what tk_wai_flg has returned -/
  | leave (err : Option AdcWaitErr)
  deriving DecidableEq

/-- A call that has returned: the request, its channel, the result, and its buffer then. -/
structure AdcDone where
  req : Nat
  ch : Int
  rtn : Except AdcErr Nat
  data : Option AdcSample

structure AdcSys where
  /-- `ll_devcb`; `buf` is the buffer of a request -/
  buf : Option Nat
  asz : Nat
  active : Bool
  /-- the bit of `done_flgid` -/
  flgptn : Bool
  /-- ADC_INTE, ADC_FCS_EN, the conversion in progress, and ADC_FIFO -/
  inte : Bool
  fcsEn : Bool
  conv : Option (Nat × Int)
  fifo : List AdcSample
  /-- the interrupt is pending -/
  latched : Bool
  hdr : AdcHdr
  pc : AdcPc
  /-- the arguments of the call, which is the `req`-th one; `null` says that its buffer is NULL -/
  req : Nat
  ch : Int
  null : Bool
  /-- the buffers of the requests -/
  mem : Nat → Option AdcSample
  /-- history: the calls that have returned -/
  done : List AdcDone
  /-- history: the buffers written to, and whether their call was in progress -/
  writes : List (Nat × Bool)

inductive AdcEvent
  | adcOpen
  | adcClose
  | adcConvert (ch size : Int) (null : Bool)
  /-- ADC_CS_READY is set, and the section that starts the conversion -/
  | start
  | waiFlg
  /-- tk_wai_flg returns an error -/
  | giveUp (err : AdcWaitErr)
  | leave
  /-- the conversion ends -/
  | convEnd (value : UInt32)
  /-- the NVIC latches the interrupt -/
  | latch
  | hdrEnter
  /-- the section of the handler; `junk` is read where ADC_FIFO is empty -/
  | hdrSection (junk : UInt32)
  | hdrClear

namespace AdcSys

variable (s : AdcSys)

/-- `adc_convert` returns. -/
def adcReturn (rtn : Except AdcErr Nat) : AdcSys :=
  { s with
    pc := .idle
    done := s.done ++ [{ req := s.req, ch := s.ch, rtn, data := s.mem s.req }] }

/-- The call, up to the checks. -/
def adcConvert (ch size : Int) (null : Bool) : AdcSys :=
  let s := { s with req := s.req + 1, ch, null }
  if ch < 0 ∨ ch > ADC_CH_NUM - 1 then s.adcReturn (.error .E_PAR)
  else if size ≠ 1 then s.adcReturn (.error .E_PAR)
  else { s with pc := .ready }

/-- The section that starts the conversion. -/
def start : AdcSys :=
  { s with
    flgptn := false
    buf := if s.null then none else some s.req
    asz := 0
    active := true
    inte := true
    conv := some (s.req, s.ch)
    pc := .wait }

/-- tk_wai_flg(done_flgid, 1, TWF_ORW | TWF_BITCLR, &flgptn, DEVCNF_ADC_TMOSCAN) -/
def waiFlg : AdcSys :=
  if s.flgptn then { s with flgptn := false, pc := .leave none } else { s with pc := .waiting }

/-- The section after the wait. -/
def leave (err : Option AdcWaitErr) : AdcSys :=
  let s := if err ≠ none ∧ s.active then { s with inte := false, active := false, buf := none }
    else s
  match err with
  | some err => s.adcReturn (.error (.wait err))
  | none => s.adcReturn (if s.asz = 1 then .ok 1 else .error .E_Io)

/-- tk_set_flg(done_flgid, 1) -/
def setFlg : AdcSys :=
  if s.pc = .waiting then { s with pc := .leave none } else { s with flgptn := true }

/-- The sample that is read from ADC_FIFO. -/
def inFifo (junk : UInt32) : AdcSample := s.fifo.headD { req := none, ch := 0, value := junk }

/-- The section of `adc_inthdr`. -/
def hdrSection (junk : UInt32) : AdcSys :=
  match s.active, s.buf with
  | true, some buf =>
    { s with
      mem := Function.update s.mem buf (some (s.inFifo junk).data)
      writes := s.writes ++ [(buf, decide (s.pc ≠ AdcPc.idle ∧ s.req = buf))]
      fifo := s.fifo.tail
      asz := 1
      active := false
      inte := false }.setFlg
  | _, _ => { s with inte := false }

def step : AdcEvent → Option AdcSys
  | .adcOpen => if s.pc = .idle then some { s with fcsEn := true } else none
  | .adcClose => if s.pc = .idle then some { s with inte := false } else none
  -- a request needs an open device
  | .adcConvert ch size null =>
    if s.pc = .idle ∧ s.fcsEn = true then some (s.adcConvert ch size null) else none
  | .start => if s.pc = .ready ∧ s.conv = none then some s.start else none
  | .waiFlg => if s.pc = .wait then some s.waiFlg else none
  | .giveUp err =>
    if s.pc = .wait ∨ s.pc = .waiting then some { s with pc := .leave (some err) } else none
  | .leave =>
    match s.pc with
    | .leave err => some (s.leave err)
    | _ => none
  | .convEnd value =>
    match s.conv with
    | some (req, ch) =>
      some { s with
        conv := none
        fifo := if s.fcsEn then s.fifo ++ [{ req := some req, ch, value }] else s.fifo }
    | none => none
  -- the level is looked at while the handler is not active
  | .latch =>
    if s.hdr = .out ∧ s.inte = true ∧ s.fifo ≠ [] then some { s with latched := true } else none
  | .hdrEnter =>
    if s.hdr = .out ∧ s.latched = true then some { s with hdr := .entered, latched := false }
    else none
  | .hdrSection junk =>
    if s.hdr = .entered then some { s.hdrSection junk with hdr := .left } else none
  | .hdrClear => if s.hdr = .left then some { s with hdr := .out, latched := false } else none

/-- After `dev_adc_llinit`. -/
structure Boot : Prop where
  quiet : s.active = false ∧ s.inte = false ∧ s.conv = none ∧ s.fifo = [] ∧ s.latched = false
  flg : s.flgptn = false
  hdr : s.hdr = .out
  pc : s.pc = .idle
  history : s.done = [] ∧ s.writes = []

end AdcSys

def adcMachine : Lts AdcSys AdcEvent where
  init := AdcSys.Boot
  step := AdcSys.step

end Mtk3Smp
