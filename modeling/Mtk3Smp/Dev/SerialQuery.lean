import Mtk3Smp.Dev.SerialProps
import Mtk3Smp.Mem.HeapSizes

/-!
# The capacity queries of the serial driver

A request of size 0 asks `read_data` for the number of bytes received and `write_data` for
the space left. Both take the difference of the `UW` indices as a signed number and correct
it for the wrap. The rings are those of a driver built with any buffer size.
-/

namespace Mtk3Smp

/-- A build of the driver: the size of `T_SER_BUFF.data`, which an `SZ` can count. -/
structure SerCfg where
  buffSize : Nat
  pos : 0 < buffSize
  fits : buffSize < 2 ^ 31

/-- `T_SER_BUFF`, without its wait flag. -/
structure SerRing where
  top : Nat
  tail : Nat
  data : Nat → UInt8

namespace SerRing

variable (c : SerCfg) (b : SerRing)

def next (i : Nat) : Nat := if i + 1 ≥ c.buffSize then 0 else i + 1

/-- `dev_ser_get_snddat`: the byte, where there is one. -/
def devSerGetSnddat : SerRing × Option UInt8 :=
  if b.top ≠ b.tail then ({ b with tail := next c b.tail }, some (b.data b.tail)) else (b, none)

/-- `dev_ser_notify_rcv`: whether the byte was taken. -/
def devSerNotifyRcv (x : UInt8) : SerRing × Bool :=
  let next := next c b.top
  if next ≠ b.tail then
    ({ b with data := Function.update b.data b.top x, top := next }, true)
  else (b, false)

/-- The section of `read_data`; `none` where the task has to wait. -/
def readByte : Option (SerRing × UInt8) :=
  if b.top ≠ b.tail then some ({ b with tail := next c b.tail }, b.data b.tail) else none

/-- The section of `write_data`; `none` where the task has to wait. `send` is whether the
hardware accepts the byte, if it is offered to it. -/
def writeByte (send : Bool) (x : UInt8) : Option SerRing :=
  let next := next c b.top
  if next ≠ b.tail then
    if b.top = b.tail ∧ send then some b
    else some { b with data := Function.update b.data b.top x, top := next }
  else none

/-- `read_data` with a size, up to its first wait. -/
def readAll : Nat → SerRing → Option (List UInt8)
  | 0, _ => some []
  | rsize + 1, b => (readByte c b).bind fun r => (readAll rsize r.1).map (r.2 :: ·)

/-- `write_data` of these bytes, up to its first wait, while the hardware accepts none. -/
def writeAll : List UInt8 → SerRing → Option SerRing
  | [], b => some b
  | x :: rest, b => (writeByte c b false x).bind (writeAll rest)

/-- `top - tail` as an SZ or INT, corrected for the wrap. -/
def used : Int :=
  let size := toW (toUW ((b.top : Int) - b.tail))
  if size < 0 then size + c.buffSize else size

/-- `read_data` with size 0: `req->asize` -/
def readQuery : Int := b.used c

/-- `write_data` with size 0: `req->asize` -/
def writeQuery : Int := c.buffSize - b.used c

end SerRing

structure SerRings where
  snd : SerRing
  rcv : SerRing

namespace SerRings

inductive Event
  | notifyRcv (x : UInt8)
  | readByte
  | writeByte (send : Bool) (x : UInt8)
  | getSnddat

/-- Each event is a section under the buffer lock. -/
def step (c : SerCfg) (s : SerRings) : Event → Option SerRings
  | .notifyRcv x => some { s with rcv := (s.rcv.devSerNotifyRcv c x).1 }
  | .readByte => (s.rcv.readByte c).map fun r => { s with rcv := r.1 }
  | .writeByte send x => (s.snd.writeByte c send x).map fun b => { s with snd := b }
  | .getSnddat => some { s with snd := (s.snd.devSerGetSnddat c).1 }

/-- `buff_init` of both rings -/
def Init (s : SerRings) : Prop := s.snd.top = 0 ∧ s.snd.tail = 0 ∧ s.rcv.top = 0 ∧ s.rcv.tail = 0

end SerRings

def serRings (c : SerCfg) : Lts SerRings SerRings.Event where
  init := SerRings.Init
  step := SerRings.step c

/-! ## The indices -/

namespace SerRing

variable {c : SerCfg} {b : SerRing}

structure Bounded (c : SerCfg) (b : SerRing) : Prop where
  top : b.top < c.buffSize
  tail : b.tail < c.buffSize

theorem next_lt (i : Nat) : next c i < c.buffSize := by
  have hpos := c.pos
  unfold next
  split <;> omega

/-- The number of bytes in the ring. -/
def count (c : SerCfg) (b : SerRing) : Nat :=
  if b.top < b.tail then b.top + c.buffSize - b.tail else b.top - b.tail

theorem Bounded.count_lt (h : Bounded c b) : b.count c < c.buffSize := by
  have htop := h.top
  have htail := h.tail
  unfold count
  split <;> omega

/-- The signed difference, corrected, is the number of bytes in the ring. -/
theorem Bounded.used_eq (h : Bounded c b) : b.used c = b.count c := by
  have htop := h.top
  have htail := h.tail
  have hfits := c.fits
  have hdiff : toW (toUW ((b.top : Int) - b.tail)) = (b.top : Int) - b.tail := by
    unfold toW toUW
    omega
  unfold used count
  dsimp only
  rw [hdiff]
  split <;> split <;> omega

theorem Bounded.get (h : Bounded c b) : Bounded c { b with tail := next c b.tail } :=
  ⟨h.top, next_lt _⟩

theorem Bounded.put (h : Bounded c b) (data : Nat → UInt8) :
    Bounded c { b with data := data, top := next c b.top } :=
  ⟨next_lt _, h.tail⟩

theorem Bounded.empty_iff (h : Bounded c b) : b.top = b.tail ↔ b.count c = 0 := by
  have htop := h.top
  have htail := h.tail
  unfold count
  split <;> omega

theorem Bounded.full_iff (h : Bounded c b) :
    next c b.top = b.tail ↔ b.count c + 1 = c.buffSize := by
  have htop := h.top
  have htail := h.tail
  unfold count next
  split <;> split <;> omega

theorem Bounded.count_get (h : Bounded c b) (hne : b.top ≠ b.tail) :
    count c { b with tail := next c b.tail } + 1 = b.count c := by
  have htop := h.top
  have htail := h.tail
  unfold count next
  dsimp only
  split <;> split <;> split <;> omega

theorem Bounded.count_put (h : Bounded c b) (hne : next c b.top ≠ b.tail) (data : Nat → UInt8) :
    count c { b with data := data, top := next c b.top } = b.count c + 1 := by
  have htop := h.top
  have htail := h.tail
  unfold next at hne
  unfold count next
  dsimp only
  by_cases hend : b.top + 1 ≥ c.buffSize
  · rw [if_pos hend] at hne ⊢
    split <;> split <;> omega
  · rw [if_neg hend] at hne ⊢
    split <;> split <;> omega

/-! ## What the loops do without waiting -/

theorem Bounded.readAll_isSome (h : Bounded c b) (rsize : Nat) :
    (readAll c rsize b).isSome = true ↔ rsize ≤ b.count c := by
  induction rsize generalizing b with
  | zero => simp [readAll]
  | succ rsize ih =>
    unfold readAll readByte
    by_cases hne : b.top = b.tail
    · have hzero := h.empty_iff.1 hne
      rw [if_neg (not_not.2 hne)]
      simp only [Option.bind_none, Option.isSome_none, Bool.false_eq_true, false_iff]
      omega
    · have hcount := h.count_get hne
      rw [if_pos hne, Option.bind_some, Option.isSome_map, ih h.get]
      omega

/-- A slot stays empty: one byte less than the buffer has. -/
theorem Bounded.writeAll_isSome (h : Bounded c b) (bytes : List UInt8) :
    (writeAll c bytes b).isSome = true ↔ b.count c + bytes.length < c.buffSize := by
  induction bytes generalizing b with
  | nil => simpa [writeAll] using h.count_lt
  | cons x rest ih =>
    unfold writeAll writeByte
    dsimp only
    by_cases hfull : next c b.top = b.tail
    · have hcount := h.full_iff.1 hfull
      rw [if_neg (not_not.2 hfull)]
      simp only [Option.bind_none, Option.isSome_none, Bool.false_eq_true, false_iff,
        List.length_cons]
      omega
    · have hcount := h.count_put hfull (Function.update b.data b.top x)
      rw [if_pos hfull, if_neg (by simp), Option.bind_some, ih (h.put _), hcount,
        List.length_cons]
      omega

/-- The size-0 read reports what can be read without waiting, no more and no less. -/
def ReadExact (c : SerCfg) (b : SerRing) : Prop :=
  ∀ rsize : Nat, (readAll c rsize b).isSome = true ↔ (rsize : Int) ≤ b.readQuery c

/-- All bytes that the size-0 write reports can be written without waiting. -/
def WriteFits (c : SerCfg) (b : SerRing) : Prop :=
  ∀ bytes : List UInt8, (bytes.length : Int) ≤ b.writeQuery c →
    (writeAll c bytes b).isSome = true

theorem Bounded.readExact (h : Bounded c b) : ReadExact c b := by
  intro rsize
  rw [h.readAll_isSome, readQuery, h.used_eq]
  omega

/-- The report counts the slot that stays empty. -/
theorem Bounded.writeQuery_eq (h : Bounded c b) (bytes : List UInt8) :
    (writeAll c bytes b).isSome = true ↔ (bytes.length : Int) + 1 ≤ b.writeQuery c := by
  rw [h.writeAll_isSome, writeQuery, h.used_eq]
  omega

theorem Bounded.not_writeFits (h : Bounded c b) : ¬WriteFits c b := by
  intro hfits
  have hlt := h.count_lt
  have hlen : (((List.replicate (c.buffSize - b.count c) (0 : UInt8)).length : Nat) : Int) ≤
      b.writeQuery c := by
    rw [List.length_replicate, writeQuery, h.used_eq]
    omega
  have hone := (h.writeQuery_eq _).1 (hfits _ hlen)
  rw [List.length_replicate, writeQuery, h.used_eq] at hone
  omega

end SerRing

/-! ## Runs -/

theorem SerRings.bounded_step {c : SerCfg} {s s' : SerRings} {e : SerRings.Event}
    (h : s.snd.Bounded c ∧ s.rcv.Bounded c) (hs : s.step c e = some s') :
    s'.snd.Bounded c ∧ s'.rcv.Bounded c := by
  obtain ⟨hsnd, hrcv⟩ := h
  cases e with
  | notifyRcv x =>
    cases hs
    refine ⟨hsnd, ?_⟩
    unfold SerRing.devSerNotifyRcv
    dsimp only
    split
    · exact hrcv.put _
    · exact hrcv
  | readByte =>
    obtain ⟨r, hr, rfl⟩ := Option.map_eq_some_iff.1 hs
    obtain ⟨-, hr⟩ := Option.ite_none_right_eq_some.1 hr
    cases hr
    exact ⟨hsnd, hrcv.get⟩
  | writeByte send x =>
    obtain ⟨b, hb, rfl⟩ := Option.map_eq_some_iff.1 hs
    obtain ⟨-, hb⟩ := Option.ite_none_right_eq_some.1 hb
    refine ⟨?_, hrcv⟩
    split at hb
    · cases hb
      exact hsnd
    · cases hb
      exact hsnd.put _
  | getSnddat =>
    cases hs
    refine ⟨?_, hrcv⟩
    unfold SerRing.devSerGetSnddat
    split
    · exact hsnd.get
    · exact hsnd

theorem SerRings.bounded {c : SerCfg} {s : SerRings} (h : (serRings c).Reachable s) :
    s.snd.Bounded c ∧ s.rcv.Bounded c := by
  refine h.invariant (fun s => s.snd.Bounded c ∧ s.rcv.Bounded c) (fun s hi => ?_)
    fun _ _ _ hb _ hs => bounded_step hb hs
  obtain ⟨h1, h2, h3, h4⟩ := hi
  have hpos := c.pos
  exact ⟨⟨h1 ▸ hpos, h2 ▸ hpos⟩, ⟨h3 ▸ hpos, h4 ▸ hpos⟩⟩

/-- The read query is exact in every state, the write query too large in every state. -/
theorem serial_queries (c : SerCfg) (s : SerRings) (h : (serRings c).Reachable s) :
    s.rcv.ReadExact c ∧ ¬s.snd.WriteFits c :=
  ⟨(SerRings.bounded h).2.readExact, (SerRings.bounded h).1.not_writeFits⟩

/-- The driver as it is configured. -/
def serCfg50 : SerCfg := { buffSize := DEVCONF_SER_BUFFSIZE, pos := by decide, fits := by decide }

/-- Its rings, as the tasks and the handler use them, are counted by the same number. -/
theorem SerBuff.Bounded.query_eq {b : SerBuff} (h : b.Bounded) :
    SerRing.used serCfg50 { top := b.top, tail := b.tail, data := b.data } = b.count := by
  have hb : SerRing.Bounded serCfg50 { top := b.top, tail := b.tail, data := b.data } :=
    ⟨h.top, h.tail⟩
  exact hb.used_eq

def serEmpty : SerRings where
  snd := { top := 0, tail := 0, data := fun _ => 0 }
  rcv := { top := 0, tail := 0, data := fun _ => 0 }

theorem serial_queries_empty : serEmpty.rcv.ReadExact serCfg50 ∧ ¬serEmpty.snd.WriteFits serCfg50 :=
  serial_queries serCfg50 serEmpty ⟨serEmpty, ⟨rfl, rfl, rfl, rfl⟩, .refl _⟩

/-- The empty ring reports 50 bytes, and the fiftieth of them has to wait. -/
theorem not_serial_queries :
    serEmpty.snd.writeQuery serCfg50 = 50 ∧
      (SerRing.writeAll serCfg50 (List.replicate 49 7) serEmpty.snd).isSome = true ∧
      (SerRing.writeAll serCfg50 (List.replicate 50 7) serEmpty.snd).isSome = false := by
  decide +kernel

end Mtk3Smp
