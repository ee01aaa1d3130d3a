import Mtk3Smp.Lib.Lts
import Mtk3Smp.Tstdlib.Bitop
import Mathlib.Algebra.Order.Ring.Nat

/-!
# What the sessions use of lwIP

The sessions of `lib/libnet/lwip` run in one task: a poll and a callback are not interleaved.
What a call into lwIP answers is an input of the step that makes it.
-/

namespace Mtk3Smp

namespace Net

abbrev UH := BitVec 16
abbrev UW := BitVec 32
abbrev Ip4 := BitVec 32
abbrev Err := Int

def ERR_OK : Err := 0
def ERR_MEM : Err := -1
def ERR_BUF : Err := -2
def ERR_TIMEOUT : Err := -3
def ERR_VAL : Err := -6
def ERR_USE : Err := -8
def ERR_ARG : Err := -16

/-- A chain of pbufs; `tot_len` is a `u16_t`. -/
structure Pbuf where
  payload : List UB
  fits : payload.length < 2 ^ 16

def Pbuf.totLen (p : Pbuf) : Nat := p.payload.length

/-- `pbuf_copy_partial`: the bytes copied, as many as it returns. -/
def Pbuf.copyPartial (p : Pbuf) (len offset : Nat) : List UB := (p.payload.drop offset).take len

theorem Pbuf.length_copyPartial {p : Pbuf} {len offset : Nat} (h : offset + len ≤ p.totLen) :
    (p.copyPartial len offset).length = len := by
  unfold totLen at h
  unfold copyPartial
  rw [List.length_take, List.length_drop]
  omega

theorem Pbuf.copyPartial_append (p : Pbuf) (len offset : Nat) :
    p.payload.drop offset = p.copyPartial len offset ++ p.payload.drop (offset + len) := by
  unfold copyPartial
  rw [← List.drop_drop]
  exact (List.take_append_drop len _).symm

structure Netif where
  isUp : Bool
  isLinkUp : Bool
  ip4Addr : Ip4

/-- The test before a session goes on. -/
def Netif.isReady (n : Netif) : Bool := n.isUp && n.isLinkUp && n.ip4Addr != 0

/-- The pcbs that lwIP has, and which ones it has been passed; `true` where it still had it. -/
structure Pcbs where
  live : Nat → Bool
  passed : List (Nat × Bool)

namespace Pcbs

variable (l : Pcbs) (h : Nat)

def empty : Pcbs := ⟨fun _ => false, []⟩

/-- A new pcb is none that lwIP already has. -/
def isNew : Option Nat → Bool
  | some h => !l.live h
  | none => true

def new : Pcbs := { l with live := Function.update l.live h true }

def use : Pcbs := { l with passed := l.passed ++ [(h, l.live h)] }

/-- A row of calls. -/
def uses (n : Nat) : Pcbs := { l with passed := l.passed ++ .replicate n (h, l.live h) }

/-- Remove, close and abort. -/
def release : Pcbs := { l.use h with live := Function.update l.live h false }

/-- lwIP frees the pcb before it calls the error callback. -/
def free : Pcbs := { l with live := Function.update l.live h false }

/-- No pcb has been passed that lwIP had no more. -/
def Safe : Prop := ∀ e ∈ l.passed, e.2 = true

variable {l h}

theorem safe_empty : empty.Safe := fun _ he => nomatch he

theorem Safe.new (safe : l.Safe) : (l.new h).Safe := safe

theorem Safe.free (safe : l.Safe) : (l.free h).Safe := safe

theorem Safe.use (safe : l.Safe) (hl : l.live h = true) : (l.use h).Safe := by
  intro e he
  rcases List.mem_append.1 he with he | he
  · exact safe e he
  · rw [List.mem_singleton.1 he]
    exact hl

theorem Safe.uses (safe : l.Safe) (hl : l.live h = true) (n : Nat) : (l.uses h n).Safe := by
  intro e he
  rcases List.mem_append.1 he with he | he
  · exact safe e he
  · rw [(List.mem_replicate.1 he).2]
    exact hl

theorem Safe.release (safe : l.Safe) (hl : l.live h = true) : (l.release h).Safe := safe.use hl

theorem live_new : (l.new h).live h = true := by
  unfold Pcbs.new
  exact Function.update_self _ _ _

end Pcbs

/-! ## The messages -/

/-- `hash ^= payload[i]; hash *= 16777619U`, byte after byte -/
def fnv (bytes : List UB) : UW :=
  bytes.foldl (fun hash b => (hash ^^^ b.setWidth 32) * 16777619) 2166136261

def hashBytes (hash : UW) : List UB :=
  [(hash >>> 24).setWidth 8, (hash >>> 16).setWidth 8, (hash >>> 8).setWidth 8, hash.setWidth 8]

/-- The common body of `make_payload` and `make_record`. -/
def message (tag : UB) (count size : Nat) (value : UH) : List UB :=
  let head : List UB := [0x55, 0x54, 0x4b, tag, (value >>> 8).setWidth 8, value.setWidth 8,
    BitVec.ofNat 8 count, BitVec.ofNat 8 size]
  let fill := (List.range (size - 12)).map fun i =>
    BitVec.ofNat 8 (0x5a + value.toNat * 29 + (8 + i) * 17)
  head ++ fill ++ hashBytes (fnv (head ++ fill))

theorem length_message {tag : UB} {count size : Nat} {value : UH} (h : 12 ≤ size) :
    (message tag count size value).length = size := by
  unfold message hashBytes
  simp only [List.length_append, List.length_map, List.length_range, List.length_cons,
    List.length_nil]
  omega

end Net

end Mtk3Smp
