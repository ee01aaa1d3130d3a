import Mtk3Smp.Dev.SerialSides

/-!
# Runs of the serial driver

The sides do not disturb each other, and `ll_buf_lock` keeps the writer from sending a byte
while the handler has one.
-/

namespace Mtk3Smp

open Gcb

namespace SerSys

variable {s u : SerSys} {e : SerEvent}

/-- An overrun was recorded: the bit is in `com_error`, or a task has read it. -/
def Overrun (s : SerSys) : Prop := (s.comError ||| s.reported) &&& DEV_SER_ERR_ROVR ≠ 0

/-- The bytes read, with those in the ring, are the bytes received without line error, in order,
without those that met a full ring, and these are recorded. The bytes sent, with the one the
handler has and those in the ring, are the bytes written, in order. And no task waits for its
flag while its ring has data (space), unless the handler is about to set the flag. -/
structure SerRight (s : SerSys) : Prop where
  received : s.reads.flatten ++ s.reader.buf ++ s.rcv.contents =
    (s.received.filter (·.2)).map (·.1)
  recorded : (∃ x ∈ s.received, x.2 = false) → s.Overrun
  written : s.sent ++ s.hdr.inFlight ++ s.snd.contents = s.writes.flatten ++ s.writer.accepted
  readWakes : waiting s.reader.tsk s.rcv.flg.waitQueue = true → s.hdr.rcvSetting = false →
    s.rcv.top = s.rcv.tail
  writeWakes : waiting s.writer.tsk s.snd.flg.waitQueue = true → s.hdr.sndSetting = false →
    serNext s.snd.top = s.snd.tail

/-- Who is in the section holds the lock. -/
structure LockOk (lock : Option SerHolder) (hdr : HdrPc) (r w : SerPc) : Prop where
  handler : hdr ≠ .out → lock = some .handler
  reader : r.holds = true → lock = some .reader
  writer : w.holds = true → lock = some .writer

structure SerOk (s : SerSys) : Prop where
  lock : LockOk s.lock s.hdr s.reader.pc s.writer.pc
  rcv : RcvOk s.rcv s.reader s.reads s.received s.Overrun s.hdr.rcvSetting
  snd : SndOk s.snd s.writer s.sent s.writes s.hdr.inFlight s.hdr.sndSetting

theorem waiting_ne_nil {t : Tid} {q : List (Waiter FlgWinfo)} (h : waiting t q = true) :
    q ≠ [] := by
  rintro rfl
  cases h

theorem SerOk.right (h : SerOk s) : SerRight s where
  received := h.rcv.data
  recorded := h.rcv.recorded
  written := h.snd.data
  readWakes hw hs := by
    have hne := waiting_ne_nil hw
    exact h.rcv.quiet (.inr hne) (h.rcv.flag.unset hne) hs
  writeWakes hw hs := by
    have hne := waiting_ne_nil hw
    exact h.snd.quiet (.inr hne) (h.snd.flag.unset hne) hs

/-! ## The lock -/

namespace LockOk

variable {lock : Option SerHolder} {hdr : HdrPc} {r w pc : SerPc}

/-- The holder leaves the section. -/
theorem unlock (hh : hdr = .out) (hr : r.holds = false) (hw : w.holds = false) :
    LockOk none hdr r w where
  handler hne := absurd hh hne
  reader hc := by
    rw [hr] at hc
    cases hc
  writer hc := by
    rw [hw] at hc
    cases hc

theorem hdr_out (h : LockOk lock hdr r w) (hne : lock ≠ some .handler) : hdr = .out := by
  by_contra hc
  exact hne (h.handler hc)

theorem reader_out (h : LockOk lock hdr r w) (hne : lock ≠ some .reader) : r.holds = false := by
  cases hr : r.holds with
  | false => rfl
  | true => exact absurd (h.reader hr) hne

theorem writer_out (h : LockOk lock hdr r w) (hne : lock ≠ some .writer) : w.holds = false := by
  cases hw : w.holds with
  | false => rfl
  | true => exact absurd (h.writer hw) hne

theorem setReader (h : LockOk lock hdr r w) (hp : pc.holds = true → r.holds = true) :
    LockOk lock hdr pc w :=
  ⟨h.handler, fun hc => h.reader (hp hc), h.writer⟩

theorem setWriter (h : LockOk lock hdr r w) (hp : pc.holds = true → w.holds = true) :
    LockOk lock hdr r pc :=
  ⟨h.handler, h.reader, fun hc => h.writer (hp hc)⟩

/-- The handler goes on in the section. -/
theorem setHdr {hdr' : HdrPc} (h : LockOk lock hdr r w) (hin : hdr ≠ .out) :
    LockOk lock hdr' r w :=
  ⟨fun _ => h.handler hin, h.reader, h.writer⟩

end LockOk

/-! ## The steps -/

theorem overrun_mono {c r err : UInt32} (h : (c ||| r) &&& DEV_SER_ERR_ROVR ≠ 0) :
    ((c ||| err) ||| r) &&& DEV_SER_ERR_ROVR ≠ 0 := by
  intro hz
  have hd : ((c ||| err) ||| r) &&& DEV_SER_ERR_ROVR =
      ((c ||| r) &&& DEV_SER_ERR_ROVR) ||| (err &&& DEV_SER_ERR_ROVR) := by
    apply UInt32.eq_of_toBitVec_eq
    show ((c.toBitVec ||| err.toBitVec) ||| r.toBitVec) &&& _ =
      ((c.toBitVec ||| r.toBitVec) &&& _) ||| (err.toBitVec &&& _)
    rw [← BitVec.and_or_distrib_right, BitVec.or_assoc, BitVec.or_assoc,
      BitVec.or_comm err.toBitVec]
  rw [hd] at hz
  exact h (UInt32.or_eq_zero_iff.1 hz).1

theorem overrun_set {c r : UInt32} :
    ((c ||| DEV_SER_ERR_ROVR) ||| r) &&& DEV_SER_ERR_ROVR ≠ 0 := by
  intro hz
  have hd : ((c ||| DEV_SER_ERR_ROVR) ||| r) &&& DEV_SER_ERR_ROVR =
      ((c ||| r) &&& DEV_SER_ERR_ROVR) ||| DEV_SER_ERR_ROVR := by
    apply UInt32.eq_of_toBitVec_eq
    show ((c.toBitVec ||| DEV_SER_ERR_ROVR.toBitVec) ||| r.toBitVec) &&&
      DEV_SER_ERR_ROVR.toBitVec = ((c.toBitVec ||| r.toBitVec) &&& _) ||| _
    rw [BitVec.or_assoc, BitVec.or_comm DEV_SER_ERR_ROVR.toBitVec, ← BitVec.or_assoc,
      BitVec.and_or_distrib_right, BitVec.and_self]
  rw [hd] at hz
  exact absurd (UInt32.or_eq_zero_iff.1 hz).2 (by decide)

/-- The reception process. -/
theorem SerOk.hdrReceive {mis data : UInt32} (h : SerOk s) (hin : s.hdr = .enter) :
    SerOk (s.hdrReceive mis data) := by
  have hrcv := h.rcv
  have hsnd := h.snd
  have hlock : ∀ hdr, LockOk s.lock hdr s.reader.pc s.writer.pc :=
    fun hdr => h.lock.setHdr (by rw [hin]; exact nofun)
  rw [hin] at hrcv hsnd
  unfold SerSys.hdrReceive
  split
  · split
    · exact ⟨hlock _, hrcv.mono overrun_mono, hsnd⟩
    · unfold devSerNotifyRcv
      dsimp only
      split
      · rename_i hroom
        exact ⟨hlock _, hrcv.receive hroom, hsnd⟩
      · exact ⟨hlock _, hrcv.drop overrun_set, hsnd⟩
  · exact ⟨hlock _, hrcv, hsnd⟩

/-- The transmission process. -/
theorem SerOk.hdrTransmit {mis : UInt32} (h : SerOk s) (hin : s.hdr = .tx mis) :
    SerOk (s.hdrTransmit mis) := by
  have hrcv := h.rcv
  have hsnd := h.snd
  have hlock : ∀ hdr, LockOk s.lock hdr s.reader.pc s.writer.pc :=
    fun hdr => h.lock.setHdr (by rw [hin]; exact nofun)
  rw [hin] at hrcv hsnd
  unfold SerSys.hdrTransmit
  split
  · split
    · rename_i hne
      exact ⟨hlock _, hrcv, hsnd.pop hne⟩
    · exact ⟨hlock _, hrcv, hsnd⟩
  · exact ⟨hlock _, hrcv, hsnd⟩

theorem SerOk.stepHdr (h : SerOk s) (hs : s.stepHdr e = some u) : SerOk u := by
  have hrcv := h.rcv
  have hsnd := h.snd
  cases e with
  | hdrLock =>
    simp only [SerSys.stepHdr] at hs
    split at hs
    · rename_i hc
      obtain rfl := Option.some.inj hs
      rw [hc.1] at hrcv hsnd
      have hr := h.lock.reader_out (by rw [hc.2]; exact nofun)
      have hw := h.lock.writer_out (by rw [hc.2]; exact nofun)
      refine ⟨⟨fun _ => rfl, fun hp => ?_, fun hp => ?_⟩, hrcv, hsnd⟩
      · rw [show s.reader.pc.holds = true from hp] at hr
        cases hr
      · rw [show s.writer.pc.holds = true from hp] at hw
        cases hw
    · cases hs
  | hdrReceive mis data =>
    simp only [SerSys.stepHdr] at hs
    split at hs
    · rename_i hc
      obtain rfl := Option.some.inj hs
      exact h.hdrReceive hc.1
    · cases hs
  | hdrRcvSet =>
    simp only [SerSys.stepHdr] at hs
    split at hs
    · rename_i mis hin
      obtain rfl := Option.some.inj hs
      rw [hin] at hrcv hsnd
      exact ⟨h.lock.setHdr (by rw [hin]; exact nofun), hrcv.setFlg, hsnd⟩
    · cases hs
  | hdrTransmit =>
    simp only [SerSys.stepHdr] at hs
    split at hs
    · rename_i mis hin
      obtain rfl := Option.some.inj hs
      exact h.hdrTransmit hin
    · cases hs
  | hdrSndSet =>
    simp only [SerSys.stepHdr] at hs
    split at hs
    · rename_i mis byte hin
      obtain rfl := Option.some.inj hs
      rw [hin] at hrcv hsnd
      exact ⟨h.lock.setHdr (by rw [hin]; exact nofun), hrcv, hsnd.setFlg⟩
    · cases hs
  | hdrLeave =>
    simp only [SerSys.stepHdr] at hs
    split at hs
    · rename_i mis hin
      obtain rfl := Option.some.inj hs
      have hheld := h.lock.handler (by rw [hin]; exact nofun)
      have hlock : LockOk none .out s.reader.pc s.writer.pc :=
        LockOk.unlock rfl (h.lock.reader_out (by rw [hheld]; exact nofun))
          (h.lock.writer_out (by rw [hheld]; exact nofun))
      rw [hin] at hrcv hsnd
      unfold SerSys.hdrLeave
      dsimp only
      split
      · exact ⟨hlock, hrcv.mono overrun_mono, hsnd⟩
      · exact ⟨hlock, hrcv, hsnd⟩
    · cases hs
  | _ => cases hs

theorem SerOk.readSection (h : SerOk s) (hpc : s.reader.pc = .section) : SerOk s.readSection := by
  have hlock : ∀ pc, LockOk s.lock s.hdr pc s.writer.pc :=
    fun pc => h.lock.setReader fun _ => by rw [hpc]; rfl
  unfold SerSys.readSection
  split
  · rename_i hne
    exact ⟨hlock _, h.rcv.take hpc hne, h.snd⟩
  · rename_i hne
    exact ⟨hlock _, h.rcv.clrFlg hpc (not_not.1 hne), h.snd⟩

theorem SerOk.stepReader (h : SerOk s) (hs : s.stepReader e = some u) : SerOk u := by
  cases e with
  | readData size =>
    simp only [SerSys.stepReader] at hs
    split at hs
    · rename_i hpc
      split at hs
      · obtain rfl := Option.some.inj hs
        exact ⟨h.lock.setReader nofun, h.rcv.start hpc size, h.snd⟩
      · split at hs
        · obtain rfl := Option.some.inj hs
          exact ⟨h.lock, h.rcv, h.snd⟩
        · cases hs
    · cases hs
  | readLoop =>
    simp only [SerSys.stepReader] at hs
    split at hs
    · rename_i hpc
      have hq := h.rcv.idle_queue (by rw [hpc]; exact nofun)
      split at hs
      · obtain rfl := Option.some.inj hs
        exact ⟨h.lock.setReader nofun, h.rcv.finish (.inl hpc) hq, h.snd⟩
      · rename_i hn
        obtain rfl := Option.some.inj hs
        refine ⟨h.lock.setReader nofun, h.rcv.move hq (.inr ⟨.inl rfl, by omega⟩) ?_ ?_, h.snd⟩
        · rw [hpc]
          exact nofun
        · rw [hpc]
          exact nofun
    · cases hs
  | readLock =>
    simp only [SerSys.stepReader] at hs
    split at hs
    · rename_i hc
      obtain ⟨hpc, hfree⟩ := hc
      obtain rfl := Option.some.inj hs
      have hq := h.rcv.idle_queue (by rw [hpc]; exact nofun)
      have hidle : s.reader.pc ≠ .idle := by rw [hpc]; exact nofun
      have hneed := h.rcv.need hidle (by rw [hpc]; exact nofun)
      have hhdr := h.lock.hdr_out (by rw [hfree]; exact nofun)
      have hwr := h.lock.writer_out (by rw [hfree]; exact nofun)
      refine ⟨⟨fun hne => absurd hhdr hne, fun _ => rfl, fun hp => ?_⟩,
        h.rcv.move hq (.inr ⟨.inr rfl, hneed⟩) hidle (by rw [hpc]; exact nofun), h.snd⟩
      rw [show s.writer.pc.holds = true from hp] at hwr
      cases hwr
    · cases hs
  | readSection =>
    simp only [SerSys.stepReader] at hs
    split at hs
    · rename_i hpc
      obtain rfl := Option.some.inj hs
      exact h.readSection hpc
    · cases hs
  | readUnlock =>
    have hout : s.reader.pc.holds = true → s.hdr = .out ∧ s.writer.pc.holds = false := by
      intro hp
      have hheld := h.lock.reader hp
      exact ⟨h.lock.hdr_out (by rw [hheld]; exact nofun),
        h.lock.writer_out (by rw [hheld]; exact nofun)⟩
    simp only [SerSys.stepReader] at hs
    split at hs
    · rename_i hpc
      obtain rfl := Option.some.inj hs
      obtain ⟨hhdr, hwr⟩ := hout (by rw [hpc]; rfl)
      exact ⟨LockOk.unlock hhdr rfl hwr, h.rcv.unlockByte hpc, h.snd⟩
    · split at hs
      · rename_i hpc
        obtain rfl := Option.some.inj hs
        obtain ⟨hhdr, hwr⟩ := hout (by rw [hpc]; rfl)
        exact ⟨LockOk.unlock hhdr rfl hwr, h.rcv.unlockWait hpc, h.snd⟩
      · cases hs
  | readWait ddsp tmo =>
    simp only [SerSys.stepReader] at hs
    split at hs
    · rename_i hpc
      obtain rfl := Option.some.inj hs
      exact ⟨h.lock.setReader nofun, h.rcv.waiFlg hpc ddsp tmo, h.snd⟩
    · cases hs
  | readWake =>
    simp only [SerSys.stepReader] at hs
    split at hs
    · rename_i hc
      obtain ⟨hpc, hw⟩ := hc
      have hq := h.rcv.flag.queue_nil hw
      split at hs
      · obtain rfl := Option.some.inj hs
        refine ⟨h.lock.setReader nofun, h.rcv.move hq (.inl rfl) ?_ ?_, h.snd⟩
        · rw [hpc]
          exact nofun
        · rw [hpc]
          exact nofun
      · obtain rfl := Option.some.inj hs
        exact ⟨h.lock.setReader nofun, h.rcv.finish (.inr hpc) hq, h.snd⟩
    · cases hs
  | rcvFlg e =>
    simp only [SerSys.stepReader] at hs
    split at hs
    · rename_i he
      obtain ⟨flg, hf, rfl⟩ := Option.map_eq_some_iff.1 hs
      exact ⟨h.lock, h.rcv.external he hf, h.snd⟩
    · cases hs
  | readComErr =>
    simp only [SerSys.stepReader] at hs
    split at hs
    · obtain rfl := Option.some.inj hs
      refine ⟨h.lock, h.rcv.mono fun ho => ?_, h.snd⟩
      show (0 ||| (s.reported ||| s.comError)) &&& DEV_SER_ERR_ROVR ≠ 0
      rw [UInt32.zero_or, UInt32.or_comm]
      exact ho
    · cases hs
  | _ => cases hs

theorem SerOk.writeSection (h : SerOk s) (hpc : s.writer.pc = .section) (txff : Bool) :
    SerOk (s.writeSection txff) := by
  have hlock : ∀ pc, LockOk s.lock s.hdr s.reader.pc pc :=
    fun pc => h.lock.setWriter fun _ => by rw [hpc]; rfl
  have hheld := h.lock.writer (by rw [hpc]; rfl)
  -- the handler is out, so that no byte is on its way
  have hout := h.lock.hdr_out (by rw [hheld]; exact nofun)
  have hsnd := h.snd
  have hrcv := h.rcv
  unfold SerSys.writeSection
  split
  · rename_i hroom
    dsimp only
    split
    · rename_i hc
      have hdirect : SndOk s.snd s.writer s.sent s.writes [] s.hdr.sndSetting := by
        rw [hout] at hsnd ⊢
        exact hsnd
      have hsent := hdirect.send hpc hc.1
      refine ⟨hlock _, hrcv, ?_⟩
      show SndOk s.snd _ (s.sent ++ [s.writeByte]) s.writes s.hdr.inFlight s.hdr.sndSetting
      rw [show s.hdr.inFlight = [] by rw [hout]; rfl]
      exact hsent
    · exact ⟨hlock _, hrcv, hsnd.store hpc hroom⟩
  · rename_i hfull
    exact ⟨hlock _, hrcv, hsnd.clrFlg hpc (not_not.1 hfull)⟩

theorem SerOk.stepWriter (h : SerOk s) (hs : s.stepWriter e = some u) : SerOk u := by
  cases e with
  | writeData buf =>
    simp only [SerSys.stepWriter] at hs
    split at hs
    · rename_i hpc
      split at hs
      · obtain rfl := Option.some.inj hs
        exact ⟨h.lock.setWriter nofun, h.rcv, h.snd.start hpc buf⟩
      · split at hs
        · obtain rfl := Option.some.inj hs
          exact ⟨h.lock, h.rcv, h.snd⟩
        · cases hs
    · cases hs
  | writeLoop =>
    simp only [SerSys.stepWriter] at hs
    split at hs
    · rename_i hpc
      have hq := h.snd.idle_queue (by rw [hpc]; exact nofun)
      split at hs
      · obtain rfl := Option.some.inj hs
        exact ⟨h.lock.setWriter nofun, h.rcv, h.snd.finish (.inl hpc) hq⟩
      · rename_i hn
        obtain rfl := Option.some.inj hs
        refine ⟨h.lock.setWriter nofun, h.rcv,
          h.snd.move hq (.inr ⟨.inl rfl, by omega, rfl⟩) ?_⟩
        rw [hpc]
        exact nofun
    · cases hs
  | writeLock =>
    simp only [SerSys.stepWriter] at hs
    split at hs
    · rename_i hc
      obtain ⟨hpc, hfree⟩ := hc
      obtain rfl := Option.some.inj hs
      have hq := h.snd.idle_queue (by rw [hpc]; exact nofun)
      have hneed := h.snd.need (by rw [hpc]; exact nofun) (by rw [hpc]; exact nofun)
      have hhdr := h.lock.hdr_out (by rw [hfree]; exact nofun)
      have hrd := h.lock.reader_out (by rw [hfree]; exact nofun)
      refine ⟨⟨fun hne => absurd hhdr hne, fun hp => ?_, fun _ => rfl⟩, h.rcv,
        h.snd.move hq (.inr ⟨.inr rfl, hneed, h.snd.next (.inl hpc)⟩) (by rw [hpc]; exact nofun)⟩
      rw [show s.reader.pc.holds = true from hp] at hrd
      cases hrd
    · cases hs
  | writeSection txff =>
    simp only [SerSys.stepWriter] at hs
    split at hs
    · rename_i hpc
      obtain rfl := Option.some.inj hs
      exact h.writeSection hpc txff
    · cases hs
  | writeUnlock =>
    have hout : s.writer.pc.holds = true → s.hdr = .out ∧ s.reader.pc.holds = false := by
      intro hp
      have hheld := h.lock.writer hp
      exact ⟨h.lock.hdr_out (by rw [hheld]; exact nofun),
        h.lock.reader_out (by rw [hheld]; exact nofun)⟩
    simp only [SerSys.stepWriter] at hs
    split at hs
    · rename_i hpc
      obtain rfl := Option.some.inj hs
      obtain ⟨hhdr, hrd⟩ := hout (by rw [hpc]; rfl)
      exact ⟨LockOk.unlock hhdr hrd rfl, h.rcv, h.snd.unlockByte hpc⟩
    · split at hs
      · rename_i hpc
        obtain rfl := Option.some.inj hs
        obtain ⟨hhdr, hrd⟩ := hout (by rw [hpc]; rfl)
        exact ⟨LockOk.unlock hhdr hrd rfl, h.rcv, h.snd.unlockWait hpc⟩
      · cases hs
  | writeWait ddsp tmo =>
    simp only [SerSys.stepWriter] at hs
    split at hs
    · rename_i hpc
      obtain rfl := Option.some.inj hs
      exact ⟨h.lock.setWriter nofun, h.rcv, h.snd.waiFlg hpc ddsp tmo⟩
    · cases hs
  | writeWake =>
    simp only [SerSys.stepWriter] at hs
    split at hs
    · rename_i hc
      obtain ⟨hpc, hw⟩ := hc
      have hq := h.snd.flag.queue_nil hw
      split at hs
      · obtain rfl := Option.some.inj hs
        refine ⟨h.lock.setWriter nofun, h.rcv, h.snd.move hq (.inl rfl) ?_⟩
        rw [hpc]
        exact nofun
      · obtain rfl := Option.some.inj hs
        exact ⟨h.lock.setWriter nofun, h.rcv, h.snd.finish (.inr hpc) hq⟩
    · cases hs
  | sndFlg e =>
    simp only [SerSys.stepWriter] at hs
    split at hs
    · rename_i he
      obtain ⟨flg, hf, rfl⟩ := Option.map_eq_some_iff.1 hs
      exact ⟨h.lock, h.rcv, h.snd.external he hf⟩
    · cases hs
  | _ => cases hs

theorem SerOk.step (h : SerOk s) (hs : s.step e = some u) : SerOk u := by
  unfold SerSys.step at hs
  rcases Option.or_eq_some_iff.1 hs with hs | ⟨-, hs⟩
  · exact h.stepHdr hs
  · rcases Option.or_eq_some_iff.1 hs with hs | ⟨-, hs⟩
    · exact h.stepReader hs
    · exact h.stepWriter hs

theorem SerOk.boot (rd wr : Tid) (data : Nat → UInt8) (priority : Tid → Nat) :
    SerOk (.boot rd wr data priority) := by
  have hpos : 0 < DEVCONF_SER_BUFFSIZE := by decide
  let buff : SerBuff := { top := 0, tail := 0, data, flg := FlgSys.created serCflg priority }
  have hempty : buff.contents = [] := SerBuff.contents_empty rfl
  have hflag : ∀ t, OneWaiter buff.flg t := fun _ => OneWaiter.created priority
  have hlock : LockOk none .out .idle .idle := LockOk.unlock rfl rfl rfl
  refine ⟨hlock, ?_, ?_⟩
  · constructor
    case bounded => exact ⟨hpos, hpos⟩
    case data => exact hempty
    case recorded =>
      rintro ⟨x, hx, -⟩
      cases hx
    case flag => exact hflag rd
    case parked => exact fun hne => absurd rfl hne
    case quiet => exact fun _ _ _ => rfl
    case tail => exact fun hn => absurd rfl hn
    case size => rfl
    case need => exact fun hn => absurd rfl hn
    case rest => exact fun _ => rfl
  · constructor
    case bounded => exact ⟨hpos, hpos⟩
    case data => exact hempty
    case flag => exact hflag wr
    case parked => exact fun hne => absurd rfl hne
    case quiet =>
      rintro (hc | hne)
      · cases hc
      · exact absurd rfl hne
    case next => exact fun hc => by rcases hc with hc | hc <;> cases hc
    case size => exact Nat.le_refl 0
    case need => exact fun hn => absurd rfl hn
    case rest => exact fun _ => rfl

/-- However the handler and the two tasks run. -/
theorem serial_rings_right (s : SerSys) (h : serMachine.Reachable s) : SerRight s := by
  have inv : SerOk s := by
    refine h.invariant SerOk ?_ ?_
    · rintro s ⟨rd, wr, data, priority, rfl⟩
      exact SerOk.boot rd wr data priority
    · intro s e u hok _ hs
      exact hok.step hs
  exact inv.right

/-- The reader waits, a byte is received and wakes it; the writer sends one byte to the UART and
the next one to the ring, from where the handler takes it. -/
theorem serial_rings_right_run :
    ∃ s, (s.reads = [[0x41]] ∧ s.sent = [0x42, 0x43]) ∧ SerRight s := by
  let p : SerSys → Bool := fun s => s.reads = [[0x41]] ∧ s.sent = [0x42, 0x43]
  obtain ⟨s, reach, hp⟩ := Lts.reachable_of_trace (L := serMachine) (p := p)
    (s := .boot 0 1 (fun _ => 0) fun _ => 1)
    [.readData 1, .readLoop, .readLock, .readSection, .readUnlock, .readWait false .TMO_FEVR,
      .writeData [0x42, 0x43], .writeLoop, .writeLock, .writeSection false, .writeUnlock,
      .writeLoop, .writeLock, .writeSection true, .writeUnlock, .writeLoop,
      .hdrLock, .hdrReceive 0x30 0x41, .hdrRcvSet, .hdrTransmit, .hdrSndSet, .hdrLeave,
      .readWake, .readLoop, .readLock, .readSection, .readUnlock, .readLoop]
    ⟨0, 1, _, _, rfl⟩ (by decide)
  exact ⟨s, of_decide_eq_true hp, serial_rings_right s reach⟩

end SerSys

end Mtk3Smp
