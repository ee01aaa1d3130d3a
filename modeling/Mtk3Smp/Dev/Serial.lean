import Mtk3Smp.Lib.Cyclic
import Mtk3Smp.Sync.EventFlag

/-!
# The rings of the serial driver

`ser.c` and `ser_rp2040.c`: the interrupt handler of a UART, one task in `read_data` and one in
`write_data`. The handler and the tasks share the rings under `ll_buf_lock`, and a task waits for
the event flag of its ring outside the lock. What the UART shows (UART_MIS, UART_DR, UART_FR) is
given by the events.
-/

namespace Mtk3Smp

open Gcb

def DEVCONF_SER_BUFFSIZE : Nat := 50

/-- DEV_SER_ERR_ROVR, DEV_SER_ERR_BE, and the fields of UART_MIS and UART_DR. -/
def DEV_SER_ERR_ROVR : UInt32 := 0x80
def DEV_SER_ERR_BE : UInt32 := 0x04
def UART_MIS_RX : UInt32 := 0x10
def UART_MIS_TX : UInt32 := 0x20
def UART_MIS_BE : UInt32 := 0x200
def UART_DR_ERR : UInt32 := 0x0F00
def UART_DR_DATA : UInt32 := 0x00FF

/-- The flags of `dev_ser_llinit`: TA_TFIFO. -/
def serCflg : Cflg := { tpri := false, wmul := false, iflgptn := 0 }

/-- T_SER_BUFF, with the flag `wait_flgid`. -/
structure SerBuff where
  top : Nat
  tail : Nat
  data : Nat → UInt8
  flg : FlgSys

/-- Where the interrupt handler is. -/
inductive HdrPc
  | out
  /-- in the section, UART_MIS not read yet -/
  | enter
  /-- tk_set_flg of the receive ring is to be called -/
  | rcvSet (mis : UInt32)
  /-- the transmission process -/
  | tx (mis : UInt32)
  /-- tk_set_flg of the send ring is to be called, and the byte written to UART_DR -/
  | sndSet (mis : UInt32) (byte : UInt8)
  /-- the break error handling and the end of the section -/
  | leave (mis : UInt32)
  deriving DecidableEq

/-- Where a task is in `read_data` or `write_data`. -/
inductive SerPc
  | idle
  /-- at the head of the loop -/
  | loop
  /-- DEV_SER_BUF_LOCK is to be called (of `write_data`, `next` being computed) -/
  | lock
  /-- in the section -/
  | section
  /-- DEV_SER_BUF_UNLOCK after a byte -/
  | unlockByte
  /-- DEV_SER_BUF_UNLOCK after tk_clr_flg -/
  | unlockWait
  /-- tk_wai_flg is to be called -/
  | wait
  /-- in tk_wai_flg -/
  | waiting
  deriving DecidableEq

/-- Who holds `ll_buf_lock`. -/
inductive SerHolder
  | handler | reader | writer
  deriving DecidableEq

/-- The task in `read_data`: `buf` has what `*pd++` has stored. -/
structure SerReader where
  tsk : Tid
  pc : SerPc
  size : Nat
  rsize : Nat
  tail : Nat
  buf : List UInt8

/-- The task in `write_data`: `buf` is `req->buf`, of which `ssize` bytes are left. -/
structure SerWriter where
  tsk : Tid
  pc : SerPc
  buf : List UInt8
  ssize : Nat
  next : Nat

structure SerSys where
  snd : SerBuff
  rcv : SerBuff
  comError : UInt32
  lock : Option SerHolder
  /-- UART_IMSC_TXIM -/
  txim : Bool
  hdr : HdrPc
  reader : SerReader
  writer : SerWriter
  /-- history: the bytes received without line error, each with whether the ring had space, and
  the bytes written to UART_DR -/
  received : List (UInt8 × Bool)
  sent : List UInt8
  /-- history: what the reads and writes that have returned have read and written -/
  reads : List (List UInt8)
  writes : List (List UInt8)
  /-- history: the last error and `req->asize` of each side -/
  readRes : Option (ER × Nat)
  writeRes : Option (ER × Nat)
  /-- history: the bits of `com_error` that have been read and cleared -/
  reported : UInt32

inductive SerEvent
  | hdrLock
  /-- UART_MIS and UART_DR are read -/
  | hdrReceive (mis data : UInt32)
  | hdrRcvSet
  | hdrTransmit
  | hdrSndSet
  | hdrLeave
  /-- `read_data` is called with `req->size` -/
  | readData (size : Nat)
  | readLoop
  | readLock
  | readSection
  | readUnlock
  /-- tk_wai_flg; `ddsp` is `in_ddsp()` -/
  | readWait (ddsp : Bool) (tmo : Tmo)
  | readWake
  /-- `write_data` is called with `req->buf` -/
  | writeData (buf : List UInt8)
  | writeLoop
  | writeLock
  /-- `txff` is UART_FR_TXFF -/
  | writeSection (txff : Bool)
  | writeUnlock
  | writeWait (ddsp : Bool) (tmo : Tmo)
  | writeWake
  /-- the wait of a task ends without the flag, or its priority changes -/
  | rcvFlg (e : FlgEvent)
  | sndFlg (e : FlgEvent)
  /-- a task reads TDN_SER_COMERR -/
  | readComErr

/-- The index after `i`. -/
def serNext (i : Nat) : Nat := if i + 1 ≥ DEVCONF_SER_BUFFSIZE then 0 else i + 1

namespace SerBuff

variable (b : SerBuff)

/-- The number of bytes in the ring, as the calls with size 0 compute it. -/
def count : Nat :=
  if b.top < b.tail then b.top + DEVCONF_SER_BUFFSIZE - b.tail else b.top - b.tail

/-- The bytes in the ring, the oldest first. -/
def contents : List UInt8 := Cyclic.read DEVCONF_SER_BUFFSIZE b.data b.tail b.count

/-- `data[top] = x; top = next` -/
def store (x : UInt8) (next : Nat) : SerBuff :=
  { b with data := Function.update b.data b.top x, top := next }

/-- tk_set_flg(wait_flgid, 1) -/
def setFlg : SerBuff := { b with flg := (b.flg.tkSetFlg 1).1 }

/-- tk_clr_flg(wait_flgid, 0) -/
def clrFlg : SerBuff := { b with flg := (b.flg.tkClrFlg 0).1 }

/-- tk_wai_flg(wait_flgid, 1, TWF_ORW | TWF_BITCLR, &flgptn, tmo) -/
def waiFlg (t : Tid) (ddsp : Bool) (tmo : Tmo) : SerBuff :=
  { b with flg := b.flg.tkWaiFlg serCflg t ddsp 1 (TWF_ORW ||| TWF_BITCLR) tmo }

/-- What the last tk_wai_flg has returned. -/
def err : ER :=
  match b.flg.ret.getLast? with
  | some (_, e, _) => e
  | none => .E_OK

end SerBuff

namespace SerSys

variable (s : SerSys)

/-- `dev_ser_notify_err` -/
def devSerNotifyErr (err : UInt32) : SerSys := { s with comError := s.comError ||| err }

/-- `dev_ser_notify_rcv` up to tk_set_flg. -/
def devSerNotifyRcv (data : UInt8) : SerSys :=
  let next := serNext s.rcv.top
  if next ≠ s.rcv.tail then
    { s with rcv := s.rcv.store data next, received := s.received ++ [(data, true)] }
  else { s with received := s.received ++ [(data, false)] }.devSerNotifyErr DEV_SER_ERR_ROVR

/-- The reception process of `usart_inthdr`. -/
def hdrReceive (mis data : UInt32) : SerSys :=
  if mis &&& UART_MIS_RX ≠ 0 then
    if data &&& UART_DR_ERR ≠ 0 then
      { s with hdr := .tx mis }.devSerNotifyErr ((data >>> 8) &&& 0x0F)
    else { s with hdr := .rcvSet mis }.devSerNotifyRcv (data &&& UART_DR_DATA).toUInt8
  else { s with hdr := .tx mis }

/-- The transmission process, with `dev_ser_get_snddat` up to tk_set_flg. -/
def hdrTransmit (mis : UInt32) : SerSys :=
  if mis &&& UART_MIS_TX ≠ 0 then
    if s.snd.top ≠ s.snd.tail then
      { s with
        hdr := .sndSet mis (s.snd.data s.snd.tail)
        snd := { s.snd with tail := serNext s.snd.tail } }
    else { s with hdr := .leave mis, txim := false }
  else { s with hdr := .leave mis }

/-- The end of the handler. -/
def hdrLeave (mis : UInt32) : SerSys :=
  let s := if mis &&& UART_MIS_BE ≠ 0 then s.devSerNotifyErr DEV_SER_ERR_BE else s
  { s with hdr := .out, lock := none }

def setReader (pc : SerPc) : SerSys := { s with reader := { s.reader with pc } }

def setWriter (pc : SerPc) : SerSys := { s with writer := { s.writer with pc } }

/-- `read_data` returns. -/
def readReturn (err : ER) : SerSys :=
  let asize := s.reader.size - s.reader.rsize
  { s with
    readRes := some (err, asize)
    reads := s.reads ++ [s.reader.buf.take asize]
    reader := { s.reader with pc := .idle, size := 0, rsize := 0, buf := [] } }

/-- The section of `read_data`: a byte is taken, or the flag cleared. -/
def readSection : SerSys :=
  if s.rcv.top ≠ s.reader.tail then
    let tail := serNext s.reader.tail
    { s with
      rcv := { s.rcv with tail }
      reader := { s.reader with
        pc := .unlockByte, tail, buf := s.reader.buf ++ [s.rcv.data s.reader.tail] } }
  else { s with rcv := s.rcv.clrFlg }.setReader .unlockWait

/-- `write_data` returns. -/
def writeReturn (err : ER) : SerSys :=
  let asize := s.writer.buf.length - s.writer.ssize
  { s with
    writeRes := some (err, asize)
    writes := s.writes ++ [s.writer.buf.take asize]
    writer := { s.writer with pc := .idle, buf := [], ssize := 0 } }

/-- LLD_SER_SEND, when the transmit FIFO is not full. -/
def lldSerSend (byte : UInt8) : SerSys := { s with sent := s.sent ++ [byte], txim := true }

/-- `*pd` of `write_data` -/
def writeByte : UInt8 := s.writer.buf.getD (s.writer.buf.length - s.writer.ssize) 0

/-- The section of `write_data`: a byte goes to the UART or to the ring, or the flag is cleared. -/
def writeSection (txff : Bool) : SerSys :=
  if s.writer.next ≠ s.snd.tail then
    let byte := s.writeByte
    let s := if s.snd.top = s.snd.tail ∧ !txff then s.lldSerSend byte
      else { s with snd := s.snd.store byte s.writer.next }
    s.setWriter .unlockByte
  else { s with snd := s.snd.clrFlg }.setWriter .unlockWait

/-- What happens to a flag apart from the calls of the driver. -/
def external : FlgEvent → Bool
  | .timeout _ | .tkRelWai _ | .chgPri .. => true
  | _ => false

def stepHdr : SerEvent → Option SerSys
  | .hdrLock =>
    if s.hdr = .out ∧ s.lock = none then some { s with hdr := .enter, lock := some .handler }
    else none
  -- an interrupt that is masked does not show in UART_MIS
  | .hdrReceive mis data =>
    if s.hdr = .enter ∧ (mis &&& UART_MIS_TX ≠ 0 → s.txim = true) then some (s.hdrReceive mis data)
    else none
  | .hdrRcvSet =>
    match s.hdr with
    | .rcvSet mis => some { s with rcv := s.rcv.setFlg, hdr := .tx mis }
    | _ => none
  | .hdrTransmit =>
    match s.hdr with
    | .tx mis => some (s.hdrTransmit mis)
    | _ => none
  | .hdrSndSet =>
    match s.hdr with
    | .sndSet mis byte =>
      some { s with snd := s.snd.setFlg, hdr := .leave mis, sent := s.sent ++ [byte] }
    | _ => none
  | .hdrLeave =>
    match s.hdr with
    | .leave mis => some (s.hdrLeave mis)
    | _ => none
  | _ => none

def stepReader : SerEvent → Option SerSys
  | .readData size =>
    if s.reader.pc = .idle then
      if size ≠ 0 then
        some { s with reader := { s.reader with
          pc := .loop, size, rsize := size, tail := s.rcv.tail, buf := [] } }
      else if s.lock = none then some { s with readRes := some (.E_OK, s.rcv.count) }
      else none
    else none
  | .readLoop =>
    if s.reader.pc = .loop then
      if s.reader.rsize = 0 then some (s.readReturn .E_OK) else some (s.setReader .lock)
    else none
  | .readLock =>
    if s.reader.pc = .lock ∧ s.lock = none then
      some ({ s with lock := some .reader }.setReader .section)
    else none
  | .readSection => if s.reader.pc = .section then some s.readSection else none
  | .readUnlock =>
    if s.reader.pc = .unlockByte then
      some { s with
        lock := none
        reader := { s.reader with pc := .loop, rsize := s.reader.rsize - 1 } }
    else if s.reader.pc = .unlockWait then some ({ s with lock := none }.setReader .wait)
    else none
  | .readWait ddsp tmo =>
    if s.reader.pc = .wait then
      some ({ s with rcv := s.rcv.waiFlg s.reader.tsk ddsp tmo }.setReader .waiting)
    else none
  | .readWake =>
    if s.reader.pc = .waiting ∧ waiting s.reader.tsk s.rcv.flg.waitQueue = false then
      if s.rcv.err = .E_OK then some (s.setReader .loop) else some (s.readReturn s.rcv.err)
    else none
  | .rcvFlg e =>
    if external e then (FlgSys.step serCflg s.rcv.flg e).map fun flg =>
      { s with rcv := { s.rcv with flg } }
    else none
  | .readComErr =>
    if s.lock = none then
      some { s with comError := 0, reported := s.reported ||| s.comError }
    else none
  | _ => none

def stepWriter : SerEvent → Option SerSys
  | .writeData buf =>
    if s.writer.pc = .idle then
      if buf ≠ [] then
        some { s with writer := { s.writer with pc := .loop, buf, ssize := buf.length } }
      else if s.lock = none then
        some { s with writeRes := some (.E_OK, DEVCONF_SER_BUFFSIZE - s.snd.count) }
      else none
    else none
  | .writeLoop =>
    if s.writer.pc = .loop then
      if s.writer.ssize = 0 then some (s.writeReturn .E_OK)
      else some { s with writer := { s.writer with pc := .lock, next := serNext s.snd.top } }
    else none
  | .writeLock =>
    if s.writer.pc = .lock ∧ s.lock = none then
      some ({ s with lock := some .writer }.setWriter .section)
    else none
  | .writeSection txff => if s.writer.pc = .section then some (s.writeSection txff) else none
  | .writeUnlock =>
    if s.writer.pc = .unlockByte then
      some { s with
        lock := none
        writer := { s.writer with pc := .loop, ssize := s.writer.ssize - 1 } }
    else if s.writer.pc = .unlockWait then some ({ s with lock := none }.setWriter .wait)
    else none
  | .writeWait ddsp tmo =>
    if s.writer.pc = .wait then
      some ({ s with snd := s.snd.waiFlg s.writer.tsk ddsp tmo }.setWriter .waiting)
    else none
  | .writeWake =>
    if s.writer.pc = .waiting ∧ waiting s.writer.tsk s.snd.flg.waitQueue = false then
      if s.snd.err = .E_OK then some (s.setWriter .loop) else some (s.writeReturn s.snd.err)
    else none
  | .sndFlg e =>
    if external e then (FlgSys.step serCflg s.snd.flg e).map fun flg =>
      { s with snd := { s.snd with flg } }
    else none
  | _ => none

/-- An event is one of the handler, of the reader's side or of the writer's. -/
def step (e : SerEvent) : Option SerSys :=
  (s.stepHdr e).or ((s.stepReader e).or (s.stepWriter e))

/-- The open driver: `buff_init` of both rings and LLD_SER_START. -/
def boot (rd wr : Tid) (data : Nat → UInt8) (priority : Tid → Nat) : SerSys :=
  let buff : SerBuff := { top := 0, tail := 0, data, flg := FlgSys.created serCflg priority }
  { snd := buff
    rcv := buff
    comError := 0
    lock := none
    txim := false
    hdr := .out
    reader := { tsk := rd, pc := .idle, size := 0, rsize := 0, tail := 0, buf := [] }
    writer := { tsk := wr, pc := .idle, buf := [], ssize := 0, next := 0 }
    received := []
    sent := []
    reads := []
    writes := []
    readRes := none
    writeRes := none
    reported := 0 }

end SerSys

/-- The serial driver with its interrupt handler, a reading and a writing task. -/
def serMachine : Lts SerSys SerEvent where
  init s := ∃ rd wr data priority, s = .boot rd wr data priority
  step := SerSys.step

end Mtk3Smp
