import Mtk3Smp.Lib.Cyclic
import Mtk3Smp.Lib.Lts
import Mtk3Smp.Tstdlib.Bitop

/-!
# The ring of the USB console

`usb_console.c`. Callers of `tm_usb_console_put` append to a ring, and the service task copies
it out in chunks and hands the chunks to the CDC layer. Both touch the ring under `tx_lock`
alone, which is taken with interrupts masked, so a section that holds it is not interleaved
with another one; everything else is.
-/

namespace Mtk3Smp

namespace UsbConsole

abbrev UW := BitVec 32

abbrev USB_TX_SIZE : Nat := 4096
abbrev USB_TX_MASK : UW := 4095
abbrev USB_TX_CHUNK : Nat := 64

structure Ring where
  txBuffer : Nat → UB
  txHead : UW
  txTail : UW

namespace Ring

variable (r : Ring)

def isFull : Prop := (r.txHead + 1) &&& USB_TX_MASK = r.txTail

instance : Decidable r.isFull := inferInstanceAs (Decidable (_ = _))

def append (x : UB) : Ring :=
  { r with
    txBuffer := Function.update r.txBuffer r.txHead.toNat x
    txHead := (r.txHead + 1) &&& USB_TX_MASK }

def first : UB := r.txBuffer r.txTail.toNat

def advance : Ring := { r with txTail := (r.txTail + 1) &&& USB_TX_MASK }

/-- `tm_usb_pending` -/
def pending : UW := (r.txHead - r.txTail) &&& USB_TX_MASK

/-- The bytes in the ring, the oldest one first. -/
def queued : List UB := Cyclic.read USB_TX_SIZE r.txBuffer r.txTail.toNat r.pending.toNat

end Ring

/-- A call of `tm_usb_console_put` that holds the lock: `size` bytes from `buf[pos]` on are to
come. -/
structure Put where
  buf : Nat → UB
  pos : Nat
  size : Int
  /-- history: the size of the call, and what has become of the bytes before `pos` -/
  total : Int
  accepted : List UB
  dropped : Nat

/-- What became of the bytes of a call. -/
structure Done where
  bytes : List UB
  accepted : List UB
  dropped : Nat

/-- Where the service task is. -/
inductive Service
  | outside
  /-- at the test of the outer loop -/
  | test (available : Nat)
  /-- in the section that fills `chunk` -/
  | fill (available : Nat) (chunk : List UB)
  /-- in the loop of `tm_tusb_write_char` -/
  | write (available : Nat) (chunk : List UB) (i : Nat)

structure Usb where
  ring : Ring
  tmUsbDropped : UW
  /-- the call that holds the lock -/
  put : Option Put
  service : Service
  /-- what has been handed to the CDC layer -/
  delivered : List UB
  /-- history: the calls that have returned, what `tm_tusb_write_available` last reported, and
  how much has been handed over since -/
  calls : List Done
  report : Nat
  handed : Nat

inductive Event
  /-- a call gets the lock -/
  | put (buf : Nat → UB) (size : Int)
  | putNext
  /-- the device is mounted and its CDC layer has room for `available` bytes -/
  | drain (available : Nat)
  | serviceNext

namespace Usb

variable (s : Usb)

def isLocked : Bool :=
  match s.put, s.service with
  | none, .fill _ _ => true
  | none, _ => false
  | some _, _ => true

/-- One round of the loop of `tm_usb_console_put`, or the end of it. -/
def putNext (p : Put) : Usb :=
  if p.size > 0 then
    if s.ring.isFull then
      { s with
        tmUsbDropped := s.tmUsbDropped + 1
        put := some { p with pos := p.pos + 1, size := p.size - 1, dropped := p.dropped + 1 } }
    else
      { s with
        ring := s.ring.append (p.buf p.pos)
        put := some { p with
          pos := p.pos + 1, size := p.size - 1, accepted := p.accepted ++ [p.buf p.pos] } }
  else
    { s with
      put := none
      calls := s.calls ++ [⟨(List.range p.total.toNat).map p.buf, p.accepted, p.dropped⟩] }

def serviceNext : Option Usb :=
  match s.service with
  | .outside => none
  | .test available =>
    if available > 0 then
      if s.isLocked then none else some { s with service := .fill available [] }
    else some { s with service := .outside }
  | .fill available chunk =>
    if chunk.length < USB_TX_CHUNK ∧ chunk.length < available ∧
        s.ring.txTail ≠ s.ring.txHead then
      some { s with
        ring := s.ring.advance
        service := .fill available (chunk ++ [s.ring.first]) }
    else if chunk.length = 0 then some { s with service := .outside }
    else some { s with service := .write available chunk 0 }
  | .write available chunk i =>
    match chunk[i]? with
    | some x =>
      some { s with
        service := .write available chunk (i + 1)
        delivered := s.delivered ++ [x]
        handed := s.handed + 1 }
    | none => some { s with service := .test (available - chunk.length) }

def step : Event → Option Usb
  | .put buf size =>
    if s.isLocked then none else some { s with put := some ⟨buf, 0, size, size, [], 0⟩ }
  | .putNext => s.put.map s.putNext
  | .drain available =>
    match s.service with
    | .outside =>
      some { s with service := .test available, report := available, handed := 0 }
    | _ => none
  | .serviceNext => s.serviceNext

structure Init (s : Usb) : Prop where
  head : s.ring.txHead = 0
  tail : s.ring.txTail = 0
  dropped : s.tmUsbDropped = 0
  put : s.put = none
  service : s.service = .outside
  delivered : s.delivered = []
  calls : s.calls = []
  report : s.report = 0
  handed : s.handed = 0

/-- What the service task has taken from the ring and not handed over yet. -/
def inHand : List UB :=
  match s.service with
  | .fill _ chunk => chunk
  | .write _ chunk i => chunk.drop i
  | _ => []

/-- The accepted bytes, in the order of the calls. -/
def accepted : List UB :=
  s.calls.flatMap Done.accepted ++ (s.put.elim [] Put.accepted)

/-- The bytes of all the calls that have been dropped. -/
def droppedBytes : Nat :=
  (s.calls.map Done.dropped).sum + s.put.elim 0 Put.dropped

end Usb

end UsbConsole

def usbConsole : Lts UsbConsole.Usb UsbConsole.Event where
  init := UsbConsole.Usb.Init
  step := UsbConsole.Usb.step

end Mtk3Smp
