import Mtk3Smp.Dev.I2c
import Mathlib.Data.List.Range

/-!
# The command stream of an I2C transfer

What the task and the handler write to I2C_DATA_CMD, command by command, for all lengths and all
schedules of the interrupt. The bytes are right; the marks are not where something is received,
a single byte that is received alone apart.
-/

namespace Mtk3Smp

namespace I2cSys

variable {sbuf : List UInt8} {n : Nat} {s t : I2cSys} {e : I2cEvent}

/-- The `i`-th command that the driver writes. -/
def codeCmd (sbuf : List UInt8) (n i : Nat) : I2cCmd :=
  if i < sbuf.length then
    { read := false
      restart := decide (i + 1 = sbuf.length ∧ 0 < n)
      stop := decide (i + 1 = sbuf.length ∧ n = 0)
      dat := sbuf.getD i 0 }
  else { read := true, restart := false, stop := decide (i = sbuf.length ∧ n ≤ 1), dat := 0 }

/-- The first commands. -/
def codeStream (sbuf : List UInt8) (n k : Nat) : List I2cCmd :=
  (List.range k).map (codeCmd sbuf n)

theorem codeStream_succ (k : Nat) :
    codeStream sbuf n (k + 1) = codeStream sbuf n k ++ [codeCmd sbuf n k] := by
  unfold codeStream
  rw [List.range_succ, List.map_append]
  rfl

theorem getElem?_codeStream {k i : Nat} {c : I2cCmd} :
    (codeStream sbuf n k)[i]? = some c ↔ i < k ∧ c = codeCmd sbuf n i := by
  unfold codeStream
  rw [List.getElem?_map]
  by_cases hi : i < k
  · rw [List.getElem?_range hi, Option.map_some, Option.some.injEq]
    exact ⟨fun h => ⟨hi, h.symm⟩, fun h => h.2.symm⟩
  · rw [List.getElem?_eq_none (by rw [List.length_range]; omega)]
    exact ⟨nofun, fun h => absurd h.1 hi⟩

/-! ## What holds up to the end of a transfer -/

/-- The commands written so far, and what has become of them. -/
structure Base (sbuf : List UInt8) (n : Nat) (s : I2cSys) : Prop where
  cmds : s.cmds = codeStream sbuf n s.cmds.length
  executed : s.executed ≤ s.cmds.length
  received : s.received.length = s.executed - sbuf.length
  stored : s.received = s.rbuf ++ s.rxFifo
  rdat : s.rdatNum + s.rbuf.length = n
  rest : s.sbuf = sbuf.drop s.cmds.length
  sdat : s.sdatNum = sbuf.length - s.cmds.length
  ioerr : s.pc = .start ∨ s.ioerr = none

/-- How far the transfer is in each state. -/
def Phase (sbuf : List UInt8) (n : Nat) (s : I2cSys) : Prop :=
  match s.state with
  | .I2C_STS_START =>
    (s.txMask = false ∧ s.rxMask = false ∧ s.hdr = false) ∧
      (s.cmds.length < sbuf.length ∨ s.cmds.length = sbuf.length ∧ 0 < n)
  | .I2C_STS_SEND =>
    (s.txMask = true ∧ s.rxMask = false) ∧ (s.hdr = true → s.executed = s.cmds.length) ∧
      s.cmds.length < sbuf.length
  | .I2C_STS_RECV =>
    (s.txMask = false ∧ s.rxMask = true) ∧ (s.hdr = true → s.rxFifo ≠ []) ∧
      s.cmds.length = sbuf.length + s.rbuf.length + 1 ∧ s.rbuf.length < n
  | .I2C_STS_STOP =>
    (s.txMask = false ∧ s.rxMask = false ∧ s.hdr = false) ∧
      s.cmds.length = sbuf.length + n ∧ s.rbuf.length = n

/-- The task has seen, or will see, the flag that the handler has set. -/
def Flagged (s : I2cSys) : Prop :=
  s.flgptn = true ∧ (s.pc = .check ∨ s.pc = .wait) ∨ s.pc = .woken ∨ s.pc = .loop none

/-- The flag is not set, and the task is about to wait for it. -/
def Unflagged (s : I2cSys) : Prop :=
  s.flgptn = false ∧ (s.pc = .check ∨ s.pc = .wait ∨ s.pc = .waiting)

/-- Where the task is in each state. -/
def Sync (s : I2cSys) : Prop :=
  match s.state with
  | .I2C_STS_START => s.Flagged ∨ s.pc = .start ∨ s.pc = .enter
  | .I2C_STS_SEND => s.Unflagged
  | .I2C_STS_RECV => s.Unflagged
  | .I2C_STS_STOP => s.Flagged ∨ s.pc = .done none

structure Inv (sbuf : List UInt8) (n : Nat) (s : I2cSys) : Prop where
  base : Base sbuf n s
  phase : Phase sbuf n s
  sync : Sync s

/-- tk_wai_flg has failed. -/
def Failed (s : I2cSys) : Prop := ∃ err, s.pc = .fail err ∨ s.pc = .done (some err)

/-- The driver only admits positive lengths, where it sends or receives. -/
def Admitted (sbuf : List UInt8) (n : Nat) : Prop := 0 < sbuf.length ∨ 0 < n

theorem Inv.comStart (h : Admitted sbuf n) (ioerr : Option I2cErr) (flgptn : Bool) :
    Inv sbuf n { comStart sbuf n with ioerr, flgptn } := by
  refine ⟨⟨rfl, Nat.le_refl 0, ?_, rfl, rfl, rfl, rfl, Or.inl rfl⟩, ?_, Or.inr (Or.inl rfl)⟩
  · exact (Nat.zero_sub _).symm
  · refine ⟨⟨rfl, rfl, rfl⟩, ?_⟩
    rcases Nat.eq_zero_or_pos sbuf.length with hz | hpos
    · exact Or.inr ⟨hz.symm, h.resolve_left (by omega)⟩
    · exact Or.inl hpos

/-- Up to the first read command nothing is received. -/
theorem Base.nil (h : Base sbuf n s) (hlen : s.cmds.length ≤ sbuf.length) :
    s.rbuf = [] ∧ s.rxFifo = [] ∧ s.rdatNum = n := by
  have hzero : s.received.length = 0 := by
    have hex := h.executed
    rw [h.received]
    omega
  have hnil := List.length_eq_zero_iff.1 hzero
  rw [h.stored] at hnil
  obtain ⟨hrbuf, hfifo⟩ := List.append_eq_nil_iff.1 hnil
  have hrdat := h.rdat
  rw [hrbuf, List.length_nil, Nat.add_zero] at hrdat
  exact ⟨hrbuf, hfifo, hrdat⟩

/-! ## The commands that are written -/

/-- The state, the masks, the flag and the places of the task and of the handler do not matter. -/
theorem Base.frame (h : Base sbuf n s) (hio : s.ioerr = none) (state : I2cSts)
    (txMask rxMask hdr flgptn : Bool) (pc : I2cPc) :
    Base sbuf n { s with state, txMask, rxMask, hdr, flgptn, pc } :=
  ⟨h.cmds, h.executed, h.received, h.stored, h.rdat, h.rest, h.sdat, Or.inr hio⟩

theorem wup_cases (s : I2cSys) : ∃ pc flgptn,
    s.wup = { s with txMask := false, rxMask := false, pc, flgptn } ∧
      (s.Unflagged → flgptn = true ∧ (pc = .check ∨ pc = .wait) ∨ pc = .woken) := by
  unfold wup setFlg
  by_cases hpc : s.pc = .waiting
  · refine ⟨.woken, s.flgptn, ?_, fun _ => Or.inr rfl⟩
    exact if_pos hpc
  · refine ⟨s.pc, true, ?_, ?_⟩
    · exact if_neg hpc
    · rintro ⟨-, hcheck | hwait | hwaiting⟩
      · exact Or.inl ⟨rfl, Or.inl hcheck⟩
      · exact Or.inl ⟨rfl, Or.inr hwait⟩
      · exact absurd hwaiting hpc

theorem codeCmd_send {i : Nat} {cmd : I2cCmd} (hi : i < sbuf.length) (hread : cmd.read = false)
    (hrestart : cmd.restart = decide (i + 1 = sbuf.length ∧ 0 < n))
    (hstop : cmd.stop = decide (i + 1 = sbuf.length ∧ n = 0)) (hdat : cmd.dat = sbuf.getD i 0) :
    cmd = codeCmd sbuf n i := by
  unfold codeCmd
  rw [if_pos hi, ← hread, ← hrestart, ← hstop, ← hdat]

theorem codeCmd_recv {i : Nat} {stop : Bool} (hi : sbuf.length ≤ i)
    (hstop : stop = decide (i = sbuf.length ∧ n ≤ 1)) :
    { read := true, restart := false, stop, dat := 0 } = codeCmd sbuf n i := by
  unfold codeCmd
  rw [if_neg (Nat.not_lt.2 hi), hstop]

theorem Base.stream {cmd : I2cCmd} (h : Base sbuf n s)
    (hcmd : cmd = codeCmd sbuf n s.cmds.length) :
    s.cmds ++ [cmd] = codeStream sbuf n (s.cmds ++ [cmd]).length := by
  rw [List.length_append, List.length_singleton, codeStream_succ, ← h.cmds, ← hcmd]

/-- A byte is sent. -/
theorem Base.sent {cmd : I2cCmd} (h : Base sbuf n s) (hio : s.ioerr = none)
    (hcmd : cmd = codeCmd sbuf n s.cmds.length) (state : I2cSts) :
    Base sbuf n
      ({ s with sbuf := s.sbuf.tail, sdatNum := s.sdatNum - 1, state }.out cmd) := by
  have hlen : (s.cmds ++ [cmd]).length = s.cmds.length + 1 := List.length_append ..
  refine ⟨h.stream hcmd, ?_, h.received, h.stored, h.rdat, ?_, ?_, Or.inr hio⟩
  · show s.executed ≤ (s.cmds ++ [cmd]).length
    rw [hlen]
    exact Nat.le_succ_of_le h.executed
  · show s.sbuf.tail = sbuf.drop (s.cmds ++ [cmd]).length
    rw [hlen, h.rest, List.tail_drop]
  · show s.sdatNum - 1 = sbuf.length - (s.cmds ++ [cmd]).length
    rw [hlen, h.sdat]
    omega

/-- A read command is written. -/
theorem Base.asked {cmd : I2cCmd} (h : Base sbuf n s) (hio : s.ioerr = none)
    (hcmd : cmd = codeCmd sbuf n s.cmds.length) (hall : sbuf.length ≤ s.cmds.length)
    (state : I2cSts) : Base sbuf n ({ s with state }.out cmd) := by
  have hlen : (s.cmds ++ [cmd]).length = s.cmds.length + 1 := List.length_append ..
  have hnil : ∀ k, sbuf.length ≤ k → sbuf.drop k = [] := fun k hk => List.drop_eq_nil_of_le hk
  refine ⟨h.stream hcmd, ?_, h.received, h.stored, h.rdat, ?_, ?_, Or.inr hio⟩
  · show s.executed ≤ (s.cmds ++ [cmd]).length
    rw [hlen]
    exact Nat.le_succ_of_le h.executed
  · show s.sbuf = sbuf.drop (s.cmds ++ [cmd]).length
    rw [h.rest, hlen, hnil _ hall, hnil _ (Nat.le_succ_of_le hall)]
  · show s.sdatNum = sbuf.length - (s.cmds ++ [cmd]).length
    rw [hlen, h.sdat]
    omega

/-! ## The handler -/

theorem Inv.send (h : Inv sbuf n s) (hstate : s.state = .I2C_STS_SEND) :
    (s.txMask = true ∧ s.rxMask = false) ∧ (s.hdr = true → s.executed = s.cmds.length) ∧
      s.cmds.length < sbuf.length ∧ s.Unflagged ∧ s.ioerr = none := by
  have hphase := h.phase
  have hsync := h.sync
  unfold Phase at hphase
  unfold Sync at hsync
  rw [hstate] at hphase hsync
  refine ⟨hphase.1, hphase.2.1, hphase.2.2, hsync, h.base.ioerr.resolve_left ?_⟩
  intro hpc
  rcases hsync.2 with hx | hx | hx <;> rw [hx] at hpc <;> cases hpc

theorem Inv.recv (h : Inv sbuf n s) (hstate : s.state = .I2C_STS_RECV) :
    (s.txMask = false ∧ s.rxMask = true) ∧ (s.hdr = true → s.rxFifo ≠ []) ∧
      (s.cmds.length = sbuf.length + s.rbuf.length + 1 ∧ s.rbuf.length < n) ∧
        s.Unflagged ∧ s.ioerr = none := by
  have hphase := h.phase
  have hsync := h.sync
  unfold Phase at hphase
  unfold Sync at hsync
  rw [hstate] at hphase hsync
  refine ⟨hphase.1, hphase.2.1, hphase.2.2, hsync, h.base.ioerr.resolve_left ?_⟩
  intro hpc
  rcases hsync.2 with hx | hx | hx <;> rw [hx] at hpc <;> cases hpc

theorem Inv.of_send (hbase : Base sbuf n t) (hstate : t.state = .I2C_STS_SEND)
    (hmask : t.txMask = true ∧ t.rxMask = false) (hhdr : t.hdr = true → t.executed = t.cmds.length)
    (hlt : t.cmds.length < sbuf.length) (hun : t.Unflagged) : Inv sbuf n t := by
  refine ⟨hbase, ?_, ?_⟩
  · unfold Phase
    rw [hstate]
    exact ⟨hmask, hhdr, hlt⟩
  · unfold Sync
    rw [hstate]
    exact hun

theorem Inv.of_recv (hbase : Base sbuf n t) (hstate : t.state = .I2C_STS_RECV)
    (hmask : t.txMask = false ∧ t.rxMask = true) (hhdr : t.hdr = true → t.rxFifo ≠ [])
    (hlen : t.cmds.length = sbuf.length + t.rbuf.length + 1) (hlt : t.rbuf.length < n)
    (hun : t.Unflagged) : Inv sbuf n t := by
  refine ⟨hbase, ?_, ?_⟩
  · unfold Phase
    rw [hstate]
    exact ⟨hmask, hhdr, hlen, hlt⟩
  · unfold Sync
    rw [hstate]
    exact hun

/-- The handler ends the phase. -/
theorem Inv.wup (hbase : Base sbuf n s) (hio : s.ioerr = none) (hun : s.Unflagged)
    (hstate : s.state = .I2C_STS_START ∧ s.cmds.length = sbuf.length ∧ 0 < n ∨
      s.state = .I2C_STS_STOP ∧ s.cmds.length = sbuf.length + n ∧ s.rbuf.length = n) :
    Inv sbuf n { s.wup with hdr := false } := by
  obtain ⟨pc, flgptn, heq, hflag⟩ := wup_cases s
  rw [heq]
  have hflagged :
      Flagged { s with txMask := false, rxMask := false, pc, flgptn, hdr := false } := by
    rcases hflag hun with hset | hwoken
    · exact Or.inl hset
    · exact Or.inr (Or.inl hwoken)
  refine ⟨hbase.frame hio s.state false false false flgptn pc, ?_, ?_⟩
  · unfold Phase
    rcases hstate with ⟨hst, hlen, hn⟩ | ⟨hst, hlen, hn⟩
    · rw [hst]
      exact ⟨⟨rfl, rfl, rfl⟩, Or.inr ⟨hlen, hn⟩⟩
    · rw [hst]
      exact ⟨⟨rfl, rfl, rfl⟩, hlen, hn⟩
  · unfold Sync
    rcases hstate with ⟨hst, -⟩ | ⟨hst, -⟩
    · rw [hst]
      exact Or.inl hflagged
    · rw [hst]
      exact Or.inl hflagged

theorem Inv.hdrSend (h : Inv sbuf n s) (hstate : s.state = .I2C_STS_SEND) :
    Inv sbuf n { s.hdrSend with hdr := false } := by
  obtain ⟨hmask, -, hlt, hun, hio⟩ := h.send hstate
  obtain ⟨hrbuf, -, hrdat⟩ := h.base.nil (Nat.le_of_lt hlt)
  have hsdat := h.base.sdat
  have hdat : s.sbuf.headD 0 = sbuf.getD s.cmds.length 0 := by
    rw [h.base.rest, List.headD_eq_head?_getD, List.head?_drop, List.getD_eq_getElem?_getD]
  unfold I2cSys.hdrSend
  dsimp only
  by_cases hmore : s.sdatNum - 1 ≠ 0
  · rw [if_pos hmore]
    have hcmd : I2cCmd.mk false false false (s.sbuf.headD 0) = codeCmd sbuf n s.cmds.length := by
      refine codeCmd_send hlt rfl ?_ ?_ hdat
      · exact (decide_eq_false (by omega)).symm
      · exact (decide_eq_false (by omega)).symm
    have hbase := (h.base.sent hio hcmd s.state).frame hio s.state s.txMask s.rxMask false s.flgptn
      s.pc
    apply Inv.of_send hbase hstate hmask nofun
    · show (s.cmds ++ [_]).length < sbuf.length
      rw [List.length_append, List.length_singleton]
      omega
    · exact hun
  · rw [if_neg hmore]
    have hlast : s.cmds.length + 1 = sbuf.length := by omega
    have hlen : ∀ cmd : I2cCmd, (s.cmds ++ [cmd]).length = sbuf.length := by
      intro cmd
      rw [List.length_append, List.length_singleton, hlast]
    by_cases hrecv : s.rdatNum ≠ 0
    · rw [if_pos hrecv]
      have hcmd : I2cCmd.mk false true false (s.sbuf.headD 0) = codeCmd sbuf n s.cmds.length := by
        refine codeCmd_send hlt rfl ?_ ?_ hdat
        · exact (decide_eq_true ⟨hlast, by omega⟩).symm
        · exact (decide_eq_false (by omega)).symm
      apply Inv.wup (h.base.sent hio hcmd .I2C_STS_START) hio hun
      exact Or.inl ⟨rfl, hlen _, by omega⟩
    · rw [if_neg hrecv]
      have hcmd : I2cCmd.mk false false true (s.sbuf.headD 0) = codeCmd sbuf n s.cmds.length := by
        refine codeCmd_send hlt rfl ?_ ?_ hdat
        · exact (decide_eq_false (by omega)).symm
        · exact (decide_eq_true ⟨hlast, by omega⟩).symm
      apply Inv.wup (h.base.sent hio hcmd .I2C_STS_STOP) hio hun
      have hn : n = 0 := by omega
      refine Or.inr ⟨rfl, ?_, ?_⟩
      · rw [hn]
        exact hlen _
      · show s.rbuf.length = n
        rw [hrbuf, hn]
        rfl

/-- A byte is stored. -/
theorem Base.stored_one {b : UInt8} {rest : List UInt8} (h : Base sbuf n s) (hio : s.ioerr = none)
    (hfifo : s.rxFifo = b :: rest) (hlt : s.rbuf.length < n) :
    Base sbuf n { s with rbuf := s.rbuf ++ [b], rxFifo := rest, rdatNum := s.rdatNum - 1 } := by
  refine ⟨h.cmds, h.executed, h.received, ?_, ?_, h.rest, h.sdat, Or.inr hio⟩
  · show s.received = s.rbuf ++ [b] ++ rest
    rw [h.stored, hfifo, List.append_assoc]
    rfl
  · show s.rdatNum - 1 + (s.rbuf ++ [b]).length = n
    have hrdat := h.rdat
    rw [List.length_append, List.length_singleton]
    omega

theorem Inv.hdrRecv (h : Inv sbuf n s) (hstate : s.state = .I2C_STS_RECV)
    (hsome : s.rxFifo ≠ []) : Inv sbuf n { s.hdrRecv with hdr := false } := by
  obtain ⟨hmask, -, ⟨hlen, hlt⟩, hun, hio⟩ := h.recv hstate
  obtain ⟨b, rest, hfifo⟩ := List.exists_cons_of_ne_nil hsome
  have hrdat := h.base.rdat
  have hrbuf : (s.rbuf ++ [b]).length = s.rbuf.length + 1 := List.length_append ..
  have hbase := h.base.stored_one hio hfifo hlt
  unfold I2cSys.hdrRecv
  dsimp only
  rw [hfifo, List.headD_cons, List.tail_cons]
  by_cases hmore : s.rdatNum - 1 ≠ 0
  · rw [if_pos hmore]
    have hcmd : I2cCmd.mk true false false 0 = codeCmd sbuf n s.cmds.length := by
      apply codeCmd_recv
      · omega
      · exact (decide_eq_false (by omega)).symm
    have hout := (hbase.asked hio hcmd (by show sbuf.length ≤ s.cmds.length; omega) s.state).frame
      hio s.state s.txMask s.rxMask false s.flgptn s.pc
    apply Inv.of_recv hout hstate hmask nofun
    · show (s.cmds ++ [_]).length = sbuf.length + (s.rbuf ++ [b]).length + 1
      rw [List.length_append, List.length_singleton, hrbuf]
      omega
    · show (s.rbuf ++ [b]).length < n
      omega
    · exact hun
  · rw [if_neg hmore]
    have hstop : Base sbuf n { s with
        state := .I2C_STS_STOP
        rbuf := s.rbuf ++ [b]
        rxFifo := rest
        rdatNum := s.rdatNum - 1 } :=
      ⟨hbase.cmds, hbase.executed, hbase.received, hbase.stored, hbase.rdat, hbase.rest, hbase.sdat,
        Or.inr hio⟩
    apply Inv.wup hstop hio hun
    refine Or.inr ⟨rfl, ?_, ?_⟩
    · show s.cmds.length = sbuf.length + n
      omega
    · show (s.rbuf ++ [b]).length = n
      omega

/-! ## The task -/

theorem Inv.loopSection (h : Inv sbuf n s) (hpc : s.pc = .enter) :
    Inv sbuf n s.loopSection := by
  have hphase := h.phase
  have hsync := h.sync
  have hio : s.ioerr = none := by
    apply h.base.ioerr.resolve_left
    rw [hpc]
    nofun
  have hstate : s.state = .I2C_STS_START := by
    unfold Sync Flagged Unflagged at hsync
    rw [hpc] at hsync
    cases hst : s.state with
    | I2C_STS_START => rfl
    | I2C_STS_SEND => simp [hst] at hsync
    | I2C_STS_RECV => simp [hst] at hsync
    | I2C_STS_STOP => simp [hst] at hsync
  unfold Phase at hphase
  rw [hstate] at hphase
  obtain ⟨⟨htx, hrx, hhdr⟩, hlen⟩ := hphase
  have hsdat := h.base.sdat
  unfold I2cSys.loopSection
  dsimp only
  by_cases hsend : 0 < s.sdatNum
  · rw [if_pos hsend]
    have hbase := h.base.frame hio .I2C_STS_SEND true s.rxMask s.hdr false .check
    apply Inv.of_send hbase rfl ⟨rfl, hrx⟩
    · intro hh
      rw [show s.hdr = true from hh] at hhdr
      cases hhdr
    · show s.cmds.length < sbuf.length
      omega
    · exact ⟨rfl, Or.inl rfl⟩
  · rw [if_neg hsend]
    have hall : s.cmds.length = sbuf.length ∧ 0 < n := by omega
    obtain ⟨hrbuf, -, hrdat⟩ := h.base.nil (Nat.le_of_eq hall.1)
    have hcmd : I2cCmd.mk true false (if 1 < s.rdatNum then false else true) 0 =
        codeCmd sbuf n s.cmds.length := by
      apply codeCmd_recv (Nat.le_of_eq hall.1.symm)
      rw [hrdat]
      split
      · exact (decide_eq_false (by omega)).symm
      · exact (decide_eq_true ⟨hall.1, by omega⟩).symm
    have hout := (h.base.asked hio hcmd (Nat.le_of_eq hall.1.symm) .I2C_STS_RECV).frame hio
      .I2C_STS_RECV s.txMask true s.hdr false .check
    apply Inv.of_recv hout rfl ⟨htx, rfl⟩
    · intro hh
      rw [show s.hdr = true from hh] at hhdr
      cases hhdr
    · show (s.cmds ++ [_]).length = sbuf.length + s.rbuf.length + 1
      rw [List.length_append, List.length_singleton, hrbuf, hall.1]
      rfl
    · show s.rbuf.length < n
      rw [hrbuf]
      exact hall.2
    · exact ⟨rfl, Or.inl rfl⟩

/-- The places of the task, and the flag, are all that changes. -/
theorem Inv.move (h : Inv sbuf n s) (hio : s.ioerr = none) {flgptn : Bool} {pc : I2cPc}
    (hsync : Sync { s with flgptn, pc }) : Inv sbuf n { s with flgptn, pc } :=
  ⟨h.base.frame hio s.state s.txMask s.rxMask s.hdr flgptn pc, h.phase, hsync⟩

theorem Inv.bus {byte : UInt8} {cmd : I2cCmd} (h : Inv sbuf n s)
    (hcmd : s.cmds[s.executed]? = some cmd) : Inv sbuf n (s.bus byte cmd) := by
  have hexec := hcmd
  rw [h.base.cmds] at hexec
  obtain ⟨hlt, hcode⟩ := getElem?_codeStream.1 hexec
  have hread : cmd.read = decide (sbuf.length ≤ s.executed) := by
    rw [hcode]
    unfold codeCmd
    by_cases hi : s.executed < sbuf.length
    · rw [if_pos hi]
      exact (decide_eq_false (Nat.not_le.2 hi)).symm
    · rw [if_neg hi]
      exact (decide_eq_true (Nat.not_lt.1 hi)).symm
  have hreceived := h.base.received
  have hphase := h.phase
  unfold Phase at hphase
  unfold I2cSys.bus
  cases hr : cmd.read with
  | false =>
    rw [hr] at hread
    rw [if_neg Bool.false_ne_true]
    have hsend : ¬sbuf.length ≤ s.executed := of_decide_eq_false hread.symm
    refine ⟨⟨h.base.cmds, hlt, ?_, h.base.stored, h.base.rdat, h.base.rest, h.base.sdat,
      h.base.ioerr⟩, ?_, h.sync⟩
    · show s.received.length = s.executed + 1 - sbuf.length
      omega
    · unfold Phase
      cases hst : s.state with
      | I2C_STS_START | I2C_STS_RECV | I2C_STS_STOP =>
        rw [hst] at hphase
        exact hphase
      | I2C_STS_SEND =>
        rw [hst] at hphase
        obtain ⟨hmask, hhdr, hlen⟩ := hphase
        refine ⟨hmask, ?_, hlen⟩
        intro hh
        have heq := hhdr hh
        omega
  | true =>
    rw [hr] at hread
    rw [if_pos rfl]
    have hrecv : sbuf.length ≤ s.executed := of_decide_eq_true hread.symm
    refine ⟨⟨h.base.cmds, hlt, ?_, ?_, h.base.rdat, h.base.rest, h.base.sdat, h.base.ioerr⟩, ?_,
      h.sync⟩
    · show (s.received ++ [byte]).length = s.executed + 1 - sbuf.length
      rw [List.length_append, List.length_singleton]
      omega
    · show s.received ++ [byte] = s.rbuf ++ (s.rxFifo ++ [byte])
      rw [h.base.stored, List.append_assoc]
    · unfold Phase
      cases hst : s.state with
      | I2C_STS_START | I2C_STS_STOP =>
        rw [hst] at hphase
        exact hphase
      | I2C_STS_SEND =>
        rw [hst] at hphase
        omega
      | I2C_STS_RECV =>
        rw [hst] at hphase
        obtain ⟨hmask, -, hlen⟩ := hphase
        refine ⟨hmask, ?_, hlen⟩
        intro _ hnil
        cases (List.append_eq_nil_iff.1 hnil).2

/-! ## Runs -/

def NoGiveUp (_ : I2cSys) (e : I2cEvent) : Prop := ∀ err, e ≠ .giveUp err

/-- The task and the handler agree on whether the flag is set, or the transfer is not started
or is over. -/
theorem Sync.cases (h : Sync s) :
    (s.state = .I2C_STS_START ∨ s.state = .I2C_STS_STOP) ∧ s.Flagged ∨
    (s.state = .I2C_STS_SEND ∨ s.state = .I2C_STS_RECV) ∧ s.Unflagged ∨
    s.state = .I2C_STS_START ∧ (s.pc = .start ∨ s.pc = .enter) ∨
    s.state = .I2C_STS_STOP ∧ s.pc = .done none := by
  unfold Sync at h
  cases hst : s.state with
  | I2C_STS_START =>
    rw [hst] at h
    rcases h with hflag | hpc
    · exact Or.inl ⟨Or.inl rfl, hflag⟩
    · exact Or.inr (Or.inr (Or.inl ⟨rfl, hpc⟩))
  | I2C_STS_SEND =>
    rw [hst] at h
    exact Or.inr (Or.inl ⟨Or.inl rfl, h⟩)
  | I2C_STS_RECV =>
    rw [hst] at h
    exact Or.inr (Or.inl ⟨Or.inr rfl, h⟩)
  | I2C_STS_STOP =>
    rw [hst] at h
    rcases h with hflag | hpc
    · exact Or.inl ⟨Or.inr rfl, hflag⟩
    · exact Or.inr (Or.inr (Or.inr ⟨rfl, hpc⟩))

theorem Flagged.sync (h : s.Flagged) (hst : s.state = .I2C_STS_START ∨ s.state = .I2C_STS_STOP) :
    Sync s := by
  unfold Sync
  rcases hst with hst | hst
  · rw [hst]
    exact Or.inl h
  · rw [hst]
    exact Or.inl h

theorem Unflagged.sync (h : s.Unflagged) (hst : s.state = .I2C_STS_SEND ∨ s.state = .I2C_STS_RECV) :
    Sync s := by
  unfold Sync
  rcases hst with hst | hst
  · rw [hst]
    exact h
  · rw [hst]
    exact h

/-- The flag is set where the task is in front of a wait that returns at once. -/
theorem Inv.at_pc (h : Inv sbuf n s) {pc : I2cPc} (hpc : s.pc = pc) (hne : pc ≠ .start)
    (hne' : pc ≠ .enter) (hne'' : pc ≠ .done none) :
    s.ioerr = none ∧
      ((s.state = .I2C_STS_START ∨ s.state = .I2C_STS_STOP) ∧
        (s.flgptn = true ∧ (pc = .check ∨ pc = .wait) ∨ pc = .woken ∨ pc = .loop none) ∨
      (s.state = .I2C_STS_SEND ∨ s.state = .I2C_STS_RECV) ∧
        s.flgptn = false ∧ (pc = .check ∨ pc = .wait ∨ pc = .waiting)) := by
  subst hpc
  refine ⟨h.base.ioerr.resolve_left hne, ?_⟩
  rcases h.sync.cases with hflag | hun | ⟨-, hpc | hpc⟩ | ⟨-, hpc⟩
  · exact Or.inl hflag
  · exact Or.inr hun
  · exact absurd hpc hne
  · exact absurd hpc hne'
  · exact absurd hpc hne''

theorem Inv.start (h : Inv sbuf n s) (hpc : s.pc = .start) :
    Inv sbuf n { s with ioerr := none, txMask := false, rxMask := false, pc := .loop none } := by
  have hstart : s.state = .I2C_STS_START := by
    rcases h.sync.cases with ⟨-, hflag⟩ | ⟨-, hun⟩ | ⟨hst, -⟩ | ⟨-, hdone⟩
    · simp [Flagged, hpc] at hflag
    · simp [Unflagged, hpc] at hun
    · exact hst
    · rw [hpc] at hdone
      cases hdone
  have hphase := h.phase
  unfold Phase at hphase
  rw [hstart] at hphase
  refine ⟨⟨h.base.cmds, h.base.executed, h.base.received, h.base.stored, h.base.rdat, h.base.rest,
    h.base.sdat, Or.inr rfl⟩, ?_, ?_⟩
  · unfold Phase
    rw [hstart]
    exact ⟨⟨rfl, rfl, hphase.1.2.2⟩, hphase.2⟩
  · exact Flagged.sync (Or.inr (Or.inr rfl)) (Or.inl hstart)

theorem Inv.inthdr (h : Inv sbuf n s) (hhdr : s.hdr = true) :
    Inv sbuf n { s.inthdr with hdr := false } := by
  have hphase := h.phase
  unfold Phase at hphase
  unfold I2cSys.inthdr
  cases hst : s.state with
  | I2C_STS_START | I2C_STS_STOP =>
    rw [hst, hhdr] at hphase
    cases hphase.1.2.2
  | I2C_STS_SEND =>
    obtain ⟨⟨htx, -⟩, hex, -⟩ := h.send hst
    have hempty : s.txEmpty = true := by
      unfold txEmpty
      rw [htx, hex hhdr, beq_self_eq_true]
      rfl
    dsimp only
    rw [if_pos hempty]
    exact h.hdrSend hst
  | I2C_STS_RECV =>
    obtain ⟨⟨-, hrx⟩, hsome, -⟩ := h.recv hst
    have hfull : s.rxFull = true := by
      unfold rxFull
      rw [hrx, List.isEmpty_eq_false_iff.2 (hsome hhdr)]
      rfl
    dsimp only
    rw [if_pos hfull]
    exact h.hdrRecv hst (hsome hhdr)

theorem Inv.hdrEnter (h : Inv sbuf n s) (hline : (s.txEmpty || s.rxFull) = true) :
    Inv sbuf n { s with hdr := true } := by
  unfold txEmpty rxFull at hline
  have hphase := h.phase
  unfold Phase at hphase
  have hbase : Base sbuf n { s with hdr := true } :=
    ⟨h.base.cmds, h.base.executed, h.base.received, h.base.stored, h.base.rdat, h.base.rest,
      h.base.sdat, h.base.ioerr⟩
  rcases h.sync.cases with ⟨hst, -⟩ | ⟨hst | hst, -⟩ | ⟨hst, -⟩ | ⟨hst, -⟩
  · rcases hst with hst | hst <;> rw [hst] at hphase <;>
      rw [hphase.1.1, hphase.1.2.1] at hline <;> cases hline
  · obtain ⟨⟨htx, hrx⟩, -, hlt, hun, -⟩ := h.send hst
    rw [htx, hrx, Bool.false_and, Bool.or_false, Bool.true_and] at hline
    exact .of_send hbase hst ⟨htx, hrx⟩ (fun _ => eq_of_beq hline) hlt hun
  · obtain ⟨⟨htx, hrx⟩, -, ⟨hlen, hlt⟩, hun, -⟩ := h.recv hst
    rw [htx, hrx, Bool.false_and, Bool.false_or, Bool.true_and, Bool.not_eq_true'] at hline
    exact .of_recv hbase hst ⟨htx, hrx⟩ (fun _ => List.isEmpty_eq_false_iff.1 hline) hlen hlt hun
  · rw [hst] at hphase
    rw [hphase.1.1, hphase.1.2.1] at hline
    cases hline
  · rw [hst] at hphase
    rw [hphase.1.1, hphase.1.2.1] at hline
    cases hline

theorem Inv.step (h : Inv sbuf n s) (hgive : NoGiveUp s e) (hs : s.step e = some t) :
    Inv sbuf n t := by
  cases e with
  | start =>
    obtain ⟨hpc, hs⟩ := Option.ite_none_right_eq_some.1 hs
    cases hs
    exact h.start hpc
  | loop =>
    dsimp only [I2cSys.step] at hs
    split at hs
    · rename_i err hpc
      cases hs
      obtain ⟨hio, hcases⟩ := h.at_pc hpc nofun nofun nofun
      rcases hcases with ⟨hst, ⟨-, hx | hx⟩ | hx | hx⟩ | ⟨-, -, hx | hx | hx⟩ <;> cases hx
      refine h.move hio ?_
      rcases hst with hst | hst
      · have hne : s.state ≠ .I2C_STS_STOP := by
          rw [hst]
          nofun
        rw [if_neg hne]
        unfold Sync
        dsimp only
        rw [hst]
        exact Or.inr (Or.inr rfl)
      · rw [if_pos hst]
        unfold Sync
        dsimp only
        rw [hst]
        exact Or.inr rfl
    · cases hs
  | enter =>
    obtain ⟨hpc, hs⟩ := Option.ite_none_right_eq_some.1 hs
    cases hs
    exact h.loopSection hpc
  | check =>
    obtain ⟨hpc, hs⟩ := Option.ite_none_right_eq_some.1 hs
    obtain ⟨hio, hcases⟩ := h.at_pc hpc nofun nofun nofun
    split at hs
    · rename_i err herr
      rw [hio] at herr
      cases herr
    · cases hs
      refine h.move hio ?_
      rcases hcases with ⟨hst, ⟨hflg, -⟩ | hx | hx⟩ | ⟨hst, hflg, -⟩
      · exact Flagged.sync (Or.inl ⟨hflg, Or.inr rfl⟩) hst
      · cases hx
      · cases hx
      · exact Unflagged.sync ⟨hflg, Or.inr (Or.inl rfl)⟩ hst
  | waiFlg =>
    obtain ⟨hpc, hs⟩ := Option.ite_none_right_eq_some.1 hs
    cases hs
    obtain ⟨hio, hcases⟩ := h.at_pc hpc nofun nofun nofun
    rcases hcases with ⟨hst, ⟨hflg, -⟩ | hx | hx⟩ | ⟨hst, hflg, -⟩
    · rw [if_pos hflg]
      exact h.move hio (Flagged.sync (Or.inr (Or.inl rfl)) hst)
    · cases hx
    · cases hx
    · rw [if_neg (Bool.eq_false_iff.1 hflg)]
      exact h.move hio (Unflagged.sync ⟨hflg, Or.inr (Or.inr rfl)⟩ hst)
  | giveUp err => exact absurd rfl (hgive err)
  | wake =>
    obtain ⟨hpc, hs⟩ := Option.ite_none_right_eq_some.1 hs
    cases hs
    obtain ⟨hio, hcases⟩ := h.at_pc hpc nofun nofun nofun
    rcases hcases with ⟨hst, -⟩ | ⟨-, -, hx | hx | hx⟩
    · exact h.move hio (Flagged.sync (Or.inr (Or.inr (congrArg I2cPc.loop hio))) hst)
    all_goals cases hx
  | fail =>
    dsimp only [I2cSys.step] at hs
    split at hs
    · rename_i err hpc
      obtain ⟨-, hcases⟩ := h.at_pc hpc nofun nofun nofun
      rcases hcases with ⟨-, ⟨-, hx | hx⟩ | hx | hx⟩ | ⟨-, -, hx | hx | hx⟩ <;> cases hx
    · cases hs
  | bus byte =>
    obtain ⟨cmd, hcmd, rfl⟩ := Option.map_eq_some_iff.1 hs
    exact h.bus hcmd
  | hdrEnter =>
    obtain ⟨⟨-, hline⟩, hs⟩ := Option.ite_none_right_eq_some.1 hs
    cases hs
    exact h.hdrEnter hline
  | inthdr =>
    obtain ⟨hhdr, hs⟩ := Option.ite_none_right_eq_some.1 hs
    cases hs
    exact h.inthdr hhdr

end I2cSys

end Mtk3Smp
