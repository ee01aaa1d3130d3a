import Mtk3Smp.Dev.SerialProps

/-!
# The two sides of the serial driver

The invariant of the receive side and that of the send side, with one lemma for each thing that
the handler or the task of the side can do.
-/

namespace Mtk3Smp

open Gcb

/-- The byte that the handler has taken from the send ring and not written to UART_DR. -/
def HdrPc.inFlight : HdrPc → List UInt8
  | .sndSet _ byte => [byte]
  | _ => []

/-- The handler is about to set the flag of the receive ring. -/
def HdrPc.rcvSetting : HdrPc → Bool
  | .rcvSet _ => true
  | _ => false

def HdrPc.sndSetting : HdrPc → Bool
  | .sndSet .. => true
  | _ => false

/-- A task at such a place holds the lock. -/
def SerPc.holds : SerPc → Bool
  | .section | .unlockByte | .unlockWait => true
  | _ => false

/-- It has cleared its flag and does not wait yet. -/
def SerPc.cleared : SerPc → Bool
  | .unlockWait | .wait => true
  | _ => false

/-- What is left of a request: a byte counts from when it is taken. -/
def SerReader.left (r : SerReader) : Nat := if r.pc = .unlockByte then r.rsize - 1 else r.rsize

def SerWriter.left (w : SerWriter) : Nat := if w.pc = .unlockByte then w.ssize - 1 else w.ssize

/-- The bytes of `req->buf` that the driver has taken over. -/
def SerWriter.accepted (w : SerWriter) : List UInt8 := w.buf.take (w.buf.length - w.left)

/-- Of the receive side: the ring, the reader, what has been read and received; `overrun` says
that one was recorded and `setting` that the flag is about to be set. -/
structure RcvOk (b : SerBuff) (r : SerReader) (reads : List (List UInt8))
    (received : List (UInt8 × Bool)) (overrun : Prop) (setting : Bool) : Prop where
  bounded : b.Bounded
  data : reads.flatten ++ r.buf ++ b.contents = (received.filter (·.2)).map (·.1)
  recorded : (∃ x ∈ received, x.2 = false) → overrun
  flag : OneWaiter b.flg r.tsk
  parked : b.flg.waitQueue ≠ [] → r.pc = .waiting
  quiet : r.pc.cleared = true ∨ b.flg.waitQueue ≠ [] → ¬ b.flg.rung → setting = false →
    b.top = b.tail
  tail : r.pc ≠ .idle → r.tail = b.tail
  size : r.buf.length + r.left = r.size
  need : r.pc ≠ .idle → r.pc ≠ .loop → 0 < r.rsize
  rest : r.pc = .idle → r.buf = []

namespace RcvOk

variable {b : SerBuff} {r : SerReader} {reads : List (List UInt8)} {received : List (UInt8 × Bool)}
  {overrun overrun' : Prop} {setting : Bool} {pc : SerPc} {x : UInt8}

theorem idle_queue (h : RcvOk b r reads received overrun setting) (hpc : r.pc ≠ .waiting) :
    b.flg.waitQueue = [] := by
  by_contra hq
  exact hpc (h.parked hq)

theorem mono (h : RcvOk b r reads received overrun setting) (ho : overrun → overrun') :
    RcvOk b r reads received overrun' setting :=
  { h with recorded := fun hx => ho (h.recorded hx) }

/-- A byte is received, and the ring has space. -/
theorem receive (h : RcvOk b r reads received overrun false) (hroom : serNext b.top ≠ b.tail) :
    RcvOk (b.store x (serNext b.top)) r reads (received ++ [(x, true)]) overrun true where
  bounded := (h.bounded.store hroom).1
  data := by
    rw [(h.bounded.store hroom).2, ← List.append_assoc, h.data, List.filter_append,
      List.map_append]
    rfl
  recorded := by
    rintro ⟨y, hy, hyf⟩
    rcases List.mem_append.1 hy with hy | hy
    · exact h.recorded ⟨y, hy, hyf⟩
    · rw [List.mem_singleton.1 hy] at hyf
      cases hyf
  flag := h.flag
  parked := h.parked
  quiet _ _ hs := by cases hs
  tail := h.tail
  size := h.size
  need := h.need
  rest := h.rest

/-- A byte is received, and the ring is full. -/
theorem drop (h : RcvOk b r reads received overrun false) (ho : overrun') :
    RcvOk b r reads (received ++ [(x, false)]) overrun' true where
  bounded := h.bounded
  data := by
    rw [h.data, List.filter_append, List.map_append]
    simp
  recorded _ := ho
  flag := h.flag
  parked := h.parked
  quiet _ _ hs := by cases hs
  tail := h.tail
  size := h.size
  need := h.need
  rest := h.rest

/-- The handler sets the flag. -/
theorem setFlg (h : RcvOk b r reads received overrun true) :
    RcvOk b.setFlg r reads received overrun false := by
  obtain ⟨hone, hempty, hrung⟩ := h.flag.tkSetFlg
  constructor
  case bounded => exact ⟨h.bounded.top, h.bounded.tail⟩
  case data => exact h.data
  case recorded => exact h.recorded
  case flag => exact hone
  case parked => exact fun hne => absurd hempty hne
  case quiet =>
    rintro (hc | hne) hr -
    · refine absurd (hrung ?_) hr
      by_contra hq
      rw [h.parked hq] at hc
      cases hc
    · exact absurd hempty hne
  case tail => exact h.tail
  case size => exact h.size
  case need => exact h.need
  case rest => exact h.rest

/-- read_data begins. -/
theorem start (h : RcvOk b r reads received overrun setting) (hpc : r.pc = .idle) (size : Nat) :
    RcvOk b { r with pc := .loop, size, rsize := size, tail := b.tail, buf := [] } reads received
      overrun setting where
  bounded := h.bounded
  data := by
    rw [← h.data, h.rest hpc]
  recorded := h.recorded
  flag := h.flag
  parked hne := by
    rw [h.parked hne] at hpc
    cases hpc
  quiet := by
    rintro (hc | hne)
    · cases hc
    · rw [h.parked hne] at hpc
      cases hpc
  tail _ := rfl
  size := Nat.zero_add size
  need _ hn := absurd rfl hn
  rest hc := by cases hc

/-- The reader goes on to a place where it does not wait. -/
theorem move (h : RcvOk b r reads received overrun setting) (hq : b.flg.waitQueue = [])
    (hpc : pc = .loop ∨ (pc = .lock ∨ pc = .section) ∧ 0 < r.rsize) (hidle : r.pc ≠ .idle)
    (hbyte : r.pc ≠ .unlockByte) :
    RcvOk b { r with pc } reads received overrun setting where
  bounded := h.bounded
  data := h.data
  recorded := h.recorded
  flag := h.flag
  parked hne := absurd hq hne
  quiet := by
    rintro (hc | hne)
    · rcases hpc with rfl | ⟨rfl | rfl, -⟩ <;> cases hc
    · exact absurd hq hne
  tail _ := h.tail hidle
  size := by
    have hl : ({ r with pc } : SerReader).left = r.left := by
      unfold SerReader.left
      rw [if_neg hbyte]
      rcases hpc with rfl | ⟨rfl | rfl, -⟩ <;> rfl
    show r.buf.length + ({ r with pc } : SerReader).left = r.size
    rw [hl]
    exact h.size
  need _ hl := by
    rcases hpc with rfl | ⟨-, hn⟩
    · exact absurd rfl hl
    · exact hn
  rest hi := by rcases hpc with rfl | ⟨rfl | rfl, -⟩ <;> cases hi

/-- The section finds a byte. -/
theorem take (h : RcvOk b r reads received overrun setting) (hpc : r.pc = .section)
    (hne : b.top ≠ r.tail) :
    RcvOk { b with tail := serNext r.tail } { r with
        pc := .unlockByte, tail := serNext r.tail, buf := r.buf ++ [b.data r.tail] }
      reads received overrun setting := by
  have htail : r.tail = b.tail := h.tail (by rw [hpc]; exact nofun)
  have hneed : 0 < r.rsize := h.need (by rw [hpc]; exact nofun) (by rw [hpc]; exact nofun)
  have hq := h.idle_queue (by rw [hpc]; exact nofun)
  rw [htail] at hne ⊢
  obtain ⟨hb, hcontents⟩ := h.bounded.pop hne
  constructor
  case bounded => exact hb
  case data =>
    rw [← h.data, hcontents]
    simp
  case recorded => exact h.recorded
  case flag => exact h.flag
  case parked => exact fun hw => absurd hq hw
  case quiet =>
    rintro (hc | hw)
    · cases hc
    · exact absurd hq hw
  case tail => exact fun _ => rfl
  case size =>
    have hsize := h.size
    have hleft : r.left = r.rsize := by
      unfold SerReader.left
      rw [hpc, if_neg nofun]
    rw [hleft] at hsize
    show (r.buf ++ [b.data b.tail]).length + (r.rsize - 1) = r.size
    rw [List.length_append, List.length_singleton]
    omega
  case need => exact fun _ _ => hneed
  case rest => exact fun hi => by cases hi

/-- The section finds the ring empty and clears the flag. -/
theorem clrFlg (h : RcvOk b r reads received overrun setting) (hpc : r.pc = .section)
    (hempty : b.top = r.tail) :
    RcvOk b.clrFlg { r with pc := .unlockWait } reads received overrun setting := by
  obtain ⟨hone, hqueue⟩ := h.flag.tkClrFlg
  have hidle : r.pc ≠ .idle := by rw [hpc]; exact nofun
  constructor
  case bounded => exact ⟨h.bounded.top, h.bounded.tail⟩
  case data => exact h.data
  case recorded => exact h.recorded
  case flag => exact hone
  case parked =>
    intro hne
    have hne' : b.flg.waitQueue ≠ [] := by
      rw [← hqueue]
      exact hne
    rw [h.parked hne'] at hpc
    cases hpc
  case quiet => exact fun _ _ _ => hempty.trans (h.tail hidle)
  case tail => exact fun _ => h.tail hidle
  case size =>
    have hsize := h.size
    unfold SerReader.left at hsize
    rw [hpc, if_neg nofun] at hsize
    exact hsize
  case need => exact fun _ _ => h.need hidle (by rw [hpc]; exact nofun)
  case rest => exact fun hi => by cases hi

/-- DEV_SER_BUF_UNLOCK after a byte. -/
theorem unlockByte (h : RcvOk b r reads received overrun setting) (hpc : r.pc = .unlockByte) :
    RcvOk b { r with pc := .loop, rsize := r.rsize - 1 } reads received overrun setting := by
  have hq := h.idle_queue (by rw [hpc]; exact nofun)
  constructor
  case bounded => exact h.bounded
  case data => exact h.data
  case recorded => exact h.recorded
  case flag => exact h.flag
  case parked => exact fun hne => absurd hq hne
  case quiet =>
    rintro (hc | hne)
    · cases hc
    · exact absurd hq hne
  case tail => exact fun _ => h.tail (by rw [hpc]; exact nofun)
  case size =>
    have hsize := h.size
    unfold SerReader.left at hsize
    rw [if_pos hpc] at hsize
    exact hsize
  case need => exact fun _ hl => absurd rfl hl
  case rest => exact fun hi => by cases hi

/-- DEV_SER_BUF_UNLOCK after tk_clr_flg. -/
theorem unlockWait (h : RcvOk b r reads received overrun setting) (hpc : r.pc = .unlockWait) :
    RcvOk b { r with pc := .wait } reads received overrun setting := by
  have hidle : r.pc ≠ .idle := by rw [hpc]; exact nofun
  constructor
  case bounded => exact h.bounded
  case data => exact h.data
  case recorded => exact h.recorded
  case flag => exact h.flag
  case parked =>
    intro hne
    rw [h.parked hne] at hpc
    cases hpc
  case quiet => exact fun _ => h.quiet (.inl (by rw [hpc]; rfl))
  case tail => exact fun _ => h.tail hidle
  case size =>
    have hsize := h.size
    unfold SerReader.left at hsize
    rw [hpc, if_neg nofun] at hsize
    exact hsize
  case need => exact fun _ _ => h.need hidle (by rw [hpc]; exact nofun)
  case rest => exact fun hi => by cases hi

/-- tk_wai_flg -/
theorem waiFlg (h : RcvOk b r reads received overrun setting) (hpc : r.pc = .wait) (ddsp : Bool)
    (tmo : Tmo) :
    RcvOk (b.waiFlg r.tsk ddsp tmo) { r with pc := .waiting } reads received overrun setting := by
  have hidle : r.pc ≠ .idle := by rw [hpc]; exact nofun
  have hq := h.idle_queue (by rw [hpc]; exact nofun)
  obtain ⟨hone, hwait⟩ := h.flag.tkWaiFlg hq ddsp tmo
  constructor
  case bounded => exact ⟨h.bounded.top, h.bounded.tail⟩
  case data => exact h.data
  case recorded => exact h.recorded
  case flag => exact hone
  case parked => exact fun _ => rfl
  case quiet =>
    rintro (hc | hne) - hs
    · cases hc
    · exact h.quiet (.inl (by rw [hpc]; rfl)) (hwait hne) hs
  case tail => exact fun _ => h.tail hidle
  case size =>
    have hsize := h.size
    unfold SerReader.left at hsize
    rw [hpc, if_neg nofun] at hsize
    exact hsize
  case need => exact fun _ _ => h.need hidle (by rw [hpc]; exact nofun)
  case rest => exact fun hi => by cases hi

/-- The wait ends without the flag, or a priority changes. -/
theorem external {e : FlgEvent} {flg : FlgSys} (h : RcvOk b r reads received overrun setting)
    (he : SerSys.external e = true) (hs : FlgSys.step serCflg b.flg e = some flg) :
    RcvOk { b with flg } r reads received overrun setting := by
  obtain ⟨hone, hqueue, hrung⟩ := h.flag.external he hs
  have hne : flg.waitQueue ≠ [] → b.flg.waitQueue ≠ [] := by
    intro hne
    rcases hqueue with hq | hq
    · exact absurd hq hne
    · rw [← hq]
      exact hne
  constructor
  case bounded => exact ⟨h.bounded.top, h.bounded.tail⟩
  case data => exact h.data
  case recorded => exact h.recorded
  case flag => exact hone
  case parked => exact fun hw => h.parked (hne hw)
  case quiet => exact fun hw hr hs => h.quiet (hw.imp_right hne) (fun hb => hr (hrung.2 hb)) hs
  case tail => exact h.tail
  case size => exact h.size
  case need => exact h.need
  case rest => exact h.rest

/-- read_data returns. -/
theorem finish (h : RcvOk b r reads received overrun setting)
    (hpc : r.pc = .loop ∨ r.pc = .waiting) (hq : b.flg.waitQueue = []) :
    RcvOk b { r with pc := .idle, size := 0, rsize := 0, buf := [] }
      (reads ++ [r.buf.take (r.size - r.rsize)]) received overrun setting := by
  have hlen : r.size - r.rsize = r.buf.length := by
    have hsize := h.size
    unfold SerReader.left at hsize
    rcases hpc with hp | hp <;> rw [hp, if_neg nofun] at hsize <;> omega
  constructor
  case bounded => exact h.bounded
  case data =>
    rw [hlen, List.take_length, List.flatten_append, ← h.data]
    simp
  case recorded => exact h.recorded
  case flag => exact h.flag
  case parked => exact fun hne => absurd hq hne
  case quiet =>
    rintro (hc | hne)
    · cases hc
    · exact absurd hq hne
  case tail => exact fun hn => absurd rfl hn
  case size => rfl
  case need => exact fun hn => absurd rfl hn
  case rest => exact fun _ => rfl

end RcvOk

/-- Of the send side: the ring, the writer, what has been sent and written, and what the handler
has taken from the ring; `setting` says that the flag is about to be set. -/
structure SndOk (b : SerBuff) (w : SerWriter) (sent : List UInt8) (writes : List (List UInt8))
    (inFlight : List UInt8) (setting : Bool) : Prop where
  bounded : b.Bounded
  data : sent ++ inFlight ++ b.contents = writes.flatten ++ w.accepted
  flag : OneWaiter b.flg w.tsk
  parked : b.flg.waitQueue ≠ [] → w.pc = .waiting
  quiet : w.pc.cleared = true ∨ b.flg.waitQueue ≠ [] → ¬ b.flg.rung → setting = false →
    serNext b.top = b.tail
  next : w.pc = .lock ∨ w.pc = .section → w.next = serNext b.top
  size : w.ssize ≤ w.buf.length
  need : w.pc ≠ .idle → w.pc ≠ .loop → 0 < w.ssize
  rest : w.pc = .idle → w.buf = []

namespace SndOk

variable {b : SerBuff} {w : SerWriter} {sent : List UInt8} {writes : List (List UInt8)}
  {inFlight : List UInt8} {setting : Bool} {pc : SerPc} {x : UInt8}

theorem idle_queue (h : SndOk b w sent writes inFlight setting) (hpc : w.pc ≠ .waiting) :
    b.flg.waitQueue = [] := by
  by_contra hq
  exact hpc (h.parked hq)

variable (pc) in
/-- What has been accepted does not depend on the place, except where a byte is counted. -/
theorem accepted_congr (hbyte : w.pc ≠ .unlockByte) (hpc : pc ≠ .unlockByte) (n : Nat) :
    ({ w with pc, next := n } : SerWriter).accepted = w.accepted := by
  unfold SerWriter.accepted SerWriter.left
  rw [if_neg hbyte, if_neg hpc]

/-- The handler takes a byte. -/
theorem pop (h : SndOk b w sent writes [] false) (hne : b.top ≠ b.tail) :
    SndOk { b with tail := serNext b.tail } w sent writes [b.data b.tail] true := by
  obtain ⟨hb, hcontents⟩ := h.bounded.pop hne
  constructor
  case bounded => exact hb
  case data =>
    rw [← h.data, hcontents]
    simp
  case flag => exact h.flag
  case parked => exact h.parked
  case quiet => exact fun _ _ hs => by cases hs
  case next => exact h.next
  case size => exact h.size
  case need => exact h.need
  case rest => exact h.rest

/-- The handler sets the flag and writes the byte to UART_DR. -/
theorem setFlg (h : SndOk b w sent writes [x] true) :
    SndOk b.setFlg w (sent ++ [x]) writes [] false := by
  obtain ⟨hone, hempty, hrung⟩ := h.flag.tkSetFlg
  constructor
  case bounded => exact ⟨h.bounded.top, h.bounded.tail⟩
  case data =>
    rw [List.append_nil]
    exact h.data
  case flag => exact hone
  case parked => exact fun hne => absurd hempty hne
  case quiet =>
    rintro (hc | hne) hr -
    · refine absurd (hrung (h.idle_queue ?_)) hr
      intro hpc
      rw [hpc] at hc
      cases hc
    · exact absurd hempty hne
  case next => exact h.next
  case size => exact h.size
  case need => exact h.need
  case rest => exact h.rest

/-- write_data begins. -/
theorem start (h : SndOk b w sent writes inFlight setting) (hpc : w.pc = .idle)
    (buf : List UInt8) :
    SndOk b { w with pc := .loop, buf, ssize := buf.length } sent writes inFlight setting := by
  have hq := h.idle_queue (by rw [hpc]; exact nofun)
  constructor
  case bounded => exact h.bounded
  case data =>
    have hold : w.accepted = [] := by
      unfold SerWriter.accepted
      rw [h.rest hpc, List.take_nil]
    have hnew : ({ w with pc := .loop, buf, ssize := buf.length } : SerWriter).accepted = [] := by
      show buf.take (buf.length - buf.length) = []
      rw [Nat.sub_self, List.take_zero]
    rw [hnew, h.data, hold]
  case flag => exact h.flag
  case parked => exact fun hne => absurd hq hne
  case quiet =>
    rintro (hc | hne)
    · cases hc
    · exact absurd hq hne
  case next => exact fun hc => by rcases hc with hc | hc <;> cases hc
  case size => exact Nat.le_refl buf.length
  case need => exact fun _ hl => absurd rfl hl
  case rest => exact fun hi => by cases hi

/-- The writer goes on to a place where it does not wait. -/
theorem move {n : Nat} (h : SndOk b w sent writes inFlight setting) (hq : b.flg.waitQueue = [])
    (hpc : pc = .loop ∨ (pc = .lock ∨ pc = .section) ∧ 0 < w.ssize ∧ n = serNext b.top)
    (hbyte : w.pc ≠ .unlockByte) :
    SndOk b { w with pc, next := n } sent writes inFlight setting where
  bounded := h.bounded
  data := by
    rw [accepted_congr _ hbyte (by rcases hpc with rfl | ⟨rfl | rfl, -⟩ <;> exact nofun)]
    exact h.data
  flag := h.flag
  parked hne := absurd hq hne
  quiet := by
    rintro (hc | hne)
    · rcases hpc with rfl | ⟨rfl | rfl, -⟩ <;> cases hc
    · exact absurd hq hne
  next hc := by
    rcases hpc with rfl | ⟨-, -, hn⟩
    · rcases hc with hc | hc <;> cases hc
    · exact hn
  size := h.size
  need _ hl := by
    rcases hpc with rfl | ⟨-, hn, -⟩
    · exact absurd rfl hl
    · exact hn
  rest hi := by rcases hpc with rfl | ⟨rfl | rfl, -⟩ <;> cases hi

/-- The byte that the section handles is the next one of the request. -/
theorem accepted_byte (h : SndOk b w sent writes inFlight setting) (hpc : w.pc = .section) :
    ({ w with pc := .unlockByte } : SerWriter).accepted =
      w.accepted ++ [w.buf.getD (w.buf.length - w.ssize) 0] := by
  have hsize := h.size
  have hneed : 0 < w.ssize := h.need (by rw [hpc]; exact nofun) (by rw [hpc]; exact nofun)
  have hold : w.accepted = w.buf.take (w.buf.length - w.ssize) := by
    unfold SerWriter.accepted SerWriter.left
    rw [hpc, if_neg nofun]
  have hlt : w.buf.length - w.ssize < w.buf.length := by omega
  rw [hold, List.getD_eq_getElem _ _ hlt, List.take_append_getElem]
  show w.buf.take (w.buf.length - (w.ssize - 1)) = _
  congr 1
  omega

/-- The byte goes to the UART: the ring is empty and the handler has nothing. -/
theorem send (h : SndOk b w sent writes [] setting) (hpc : w.pc = .section)
    (hempty : b.top = b.tail) :
    SndOk b { w with pc := .unlockByte } (sent ++ [w.buf.getD (w.buf.length - w.ssize) 0]) writes []
      setting := by
  have hq := h.idle_queue (by rw [hpc]; exact nofun)
  constructor
  case bounded => exact h.bounded
  case data =>
    have hdata := h.data
    rw [SerBuff.contents_empty hempty, List.append_nil, List.append_nil] at hdata
    rw [h.accepted_byte hpc, SerBuff.contents_empty hempty, ← List.append_assoc, ← hdata]
    simp
  case flag => exact h.flag
  case parked => exact fun hne => absurd hq hne
  case quiet =>
    rintro (hc | hne)
    · cases hc
    · exact absurd hq hne
  case next => exact fun hc => by rcases hc with hc | hc <;> cases hc
  case size => exact h.size
  case need => exact fun _ _ => h.need (by rw [hpc]; exact nofun) (by rw [hpc]; exact nofun)
  case rest => exact fun hi => by cases hi

/-- The byte goes to the ring. -/
theorem store (h : SndOk b w sent writes inFlight setting) (hpc : w.pc = .section)
    (hroom : w.next ≠ b.tail) :
    SndOk (b.store (w.buf.getD (w.buf.length - w.ssize) 0) w.next) { w with pc := .unlockByte } sent
      writes inFlight setting := by
  have hq := h.idle_queue (by rw [hpc]; exact nofun)
  have hn := h.next (.inr hpc)
  rw [hn] at hroom
  obtain ⟨hb, hcontents⟩ := h.bounded.store (x := w.buf.getD (w.buf.length - w.ssize) 0) hroom
  rw [← hn] at hb hcontents
  constructor
  case bounded => exact hb
  case data => rw [hcontents, h.accepted_byte hpc, ← List.append_assoc, h.data, List.append_assoc]
  case flag => exact h.flag
  case parked => exact fun hne => absurd hq hne
  case quiet =>
    rintro (hc | hne)
    · cases hc
    · exact absurd hq hne
  case next => exact fun hc => by rcases hc with hc | hc <;> cases hc
  case size => exact h.size
  case need => exact fun _ _ => h.need (by rw [hpc]; exact nofun) (by rw [hpc]; exact nofun)
  case rest => exact fun hi => by cases hi

/-- The section finds the ring full and clears the flag. -/
theorem clrFlg (h : SndOk b w sent writes inFlight setting) (hpc : w.pc = .section)
    (hfull : w.next = b.tail) :
    SndOk b.clrFlg { w with pc := .unlockWait } sent writes inFlight setting := by
  have hq := h.idle_queue (by rw [hpc]; exact nofun)
  obtain ⟨hone, hqueue⟩ := h.flag.tkClrFlg
  constructor
  case bounded => exact ⟨h.bounded.top, h.bounded.tail⟩
  case data =>
    have hacc := accepted_congr .unlockWait (by rw [hpc]; exact nofun) nofun w.next
    exact h.data.trans (congrArg (writes.flatten ++ ·) hacc.symm)
  case flag => exact hone
  case parked => exact fun hne => absurd (hqueue.trans hq) hne
  case quiet => exact fun _ _ _ => (h.next (.inr hpc)).symm.trans hfull
  case next => exact fun hc => by rcases hc with hc | hc <;> cases hc
  case size => exact h.size
  case need => exact fun _ _ => h.need (by rw [hpc]; exact nofun) (by rw [hpc]; exact nofun)
  case rest => exact fun hi => by cases hi

/-- DEV_SER_BUF_UNLOCK after a byte. -/
theorem unlockByte (h : SndOk b w sent writes inFlight setting) (hpc : w.pc = .unlockByte) :
    SndOk b { w with pc := .loop, ssize := w.ssize - 1 } sent writes inFlight setting := by
  have hq := h.idle_queue (by rw [hpc]; exact nofun)
  constructor
  case bounded => exact h.bounded
  case data =>
    have hacc : ({ w with pc := .loop, ssize := w.ssize - 1 } : SerWriter).accepted =
        w.accepted := by
      unfold SerWriter.accepted SerWriter.left
      rw [if_pos hpc]
      rfl
    rw [hacc]
    exact h.data
  case flag => exact h.flag
  case parked => exact fun hne => absurd hq hne
  case quiet =>
    rintro (hc | hne)
    · cases hc
    · exact absurd hq hne
  case next => exact fun hc => by rcases hc with hc | hc <;> cases hc
  case size => exact Nat.le_trans (Nat.sub_le w.ssize 1) h.size
  case need => exact fun _ hl => absurd rfl hl
  case rest => exact fun hi => by cases hi

/-- DEV_SER_BUF_UNLOCK after tk_clr_flg. -/
theorem unlockWait (h : SndOk b w sent writes inFlight setting) (hpc : w.pc = .unlockWait) :
    SndOk b { w with pc := .wait } sent writes inFlight setting := by
  have hq := h.idle_queue (by rw [hpc]; exact nofun)
  constructor
  case bounded => exact h.bounded
  case data =>
    have hacc := accepted_congr .wait (by rw [hpc]; exact nofun) nofun w.next
    exact h.data.trans (congrArg (writes.flatten ++ ·) hacc.symm)
  case flag => exact h.flag
  case parked => exact fun hne => absurd hq hne
  case quiet => exact fun _ => h.quiet (.inl (by rw [hpc]; rfl))
  case next => exact fun hc => by rcases hc with hc | hc <;> cases hc
  case size => exact h.size
  case need => exact fun _ _ => h.need (by rw [hpc]; exact nofun) (by rw [hpc]; exact nofun)
  case rest => exact fun hi => by cases hi

/-- tk_wai_flg -/
theorem waiFlg (h : SndOk b w sent writes inFlight setting) (hpc : w.pc = .wait) (ddsp : Bool)
    (tmo : Tmo) :
    SndOk (b.waiFlg w.tsk ddsp tmo) { w with pc := .waiting } sent writes inFlight setting := by
  have hq := h.idle_queue (by rw [hpc]; exact nofun)
  obtain ⟨hone, hwait⟩ := h.flag.tkWaiFlg hq ddsp tmo
  constructor
  case bounded => exact ⟨h.bounded.top, h.bounded.tail⟩
  case data =>
    have hacc := accepted_congr .waiting (by rw [hpc]; exact nofun) nofun w.next
    exact h.data.trans (congrArg (writes.flatten ++ ·) hacc.symm)
  case flag => exact hone
  case parked => exact fun _ => rfl
  case quiet =>
    rintro (hc | hne) - hs
    · cases hc
    · exact h.quiet (.inl (by rw [hpc]; rfl)) (hwait hne) hs
  case next => exact fun hc => by rcases hc with hc | hc <;> cases hc
  case size => exact h.size
  case need => exact fun _ _ => h.need (by rw [hpc]; exact nofun) (by rw [hpc]; exact nofun)
  case rest => exact fun hi => by cases hi

/-- The wait ends without the flag, or a priority changes. -/
theorem external {e : FlgEvent} {flg : FlgSys} (h : SndOk b w sent writes inFlight setting)
    (he : SerSys.external e = true) (hs : FlgSys.step serCflg b.flg e = some flg) :
    SndOk { b with flg } w sent writes inFlight setting := by
  obtain ⟨hone, hqueue, hrung⟩ := h.flag.external he hs
  have hne : flg.waitQueue ≠ [] → b.flg.waitQueue ≠ [] := by
    intro hne
    rcases hqueue with hq | hq
    · exact absurd hq hne
    · rw [← hq]
      exact hne
  constructor
  case bounded => exact ⟨h.bounded.top, h.bounded.tail⟩
  case data => exact h.data
  case flag => exact hone
  case parked => exact fun hw => h.parked (hne hw)
  case quiet => exact fun hw hr hs => h.quiet (hw.imp_right hne) (fun hb => hr (hrung.2 hb)) hs
  case next => exact h.next
  case size => exact h.size
  case need => exact h.need
  case rest => exact h.rest

/-- write_data returns. -/
theorem finish (h : SndOk b w sent writes inFlight setting)
    (hpc : w.pc = .loop ∨ w.pc = .waiting) (hq : b.flg.waitQueue = []) :
    SndOk b { w with pc := .idle, buf := [], ssize := 0 } sent
      (writes ++ [w.buf.take (w.buf.length - w.ssize)]) inFlight setting := by
  have hacc : w.accepted = w.buf.take (w.buf.length - w.ssize) := by
    unfold SerWriter.accepted SerWriter.left
    rcases hpc with hp | hp <;> rw [hp, if_neg nofun]
  constructor
  case bounded => exact h.bounded
  case data =>
    have hnew : ({ w with pc := .idle, buf := [], ssize := 0 } : SerWriter).accepted = [] :=
      List.take_nil
    rw [hnew, List.append_nil, List.flatten_append, h.data, hacc]
    simp
  case flag => exact h.flag
  case parked => exact fun hne => absurd hq hne
  case quiet =>
    rintro (hc | hne)
    · cases hc
    · exact absurd hq hne
  case next => exact fun hc => by rcases hc with hc | hc <;> cases hc
  case size => exact Nat.le_refl 0
  case need => exact fun hn => absurd rfl hn
  case rest => exact fun _ => rfl

end SndOk

end Mtk3Smp
