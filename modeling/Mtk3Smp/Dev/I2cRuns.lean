import Mtk3Smp.Dev.I2cProps
import Mathlib.Order.WellFounded

/-!
# Which I2C transfers are right

Every transfer can be completed, and the commands of a completed one are known. So a transfer is
right exactly where its lengths put the marks on the right commands.
-/

namespace Mtk3Smp

namespace I2cSys

variable {sbuf : List UInt8} {n : Nat} {s t : I2cSys} {e : I2cEvent}

/-! ## Transfers whose wait fails -/

theorem setFlg_pc (h : s.pc ≠ .waiting) : s.setFlg.pc = s.pc := by
  unfold setFlg
  rw [if_neg h]

theorem inthdr_pc (h : s.pc ≠ .waiting) : s.inthdr.pc = s.pc := by
  have hsend : s.hdrSend.pc = s.pc := by
    unfold hdrSend
    dsimp only
    split
    · rfl
    · split
      · exact setFlg_pc h
      · exact setFlg_pc h
  have hrecv : s.hdrRecv.pc = s.pc := by
    unfold hdrRecv
    dsimp only
    split
    · rfl
    · exact setFlg_pc h
  have habort : s.abort.pc = s.pc := setFlg_pc h
  unfold inthdr
  split
  · split
    · exact hsend
    · exact habort
  · split
    · exact hrecv
    · exact habort
  · exact habort

/-- A transfer whose wait has failed ends with that error. -/
theorem Failed.step (h : Failed s) (hs : s.step e = some t) : Failed t := by
  obtain ⟨err, hpc⟩ := h
  have hno : ∀ pc, pc ≠ .fail err → pc ≠ .done (some err) → s.pc ≠ pc := by
    rintro pc hf hd rfl
    rcases hpc with hpc | hpc
    · exact hf hpc
    · exact hd hpc
  cases e with
  | start | enter | check | waiFlg | wake =>
    obtain ⟨hx, -⟩ := Option.ite_none_right_eq_some.1 hs
    exact absurd hx (hno _ nofun nofun)
  | loop =>
    dsimp only [I2cSys.step] at hs
    split at hs
    · rename_i err' hx
      exact absurd hx (hno _ nofun nofun)
    · cases hs
  | giveUp err' =>
    obtain ⟨hx, -⟩ := Option.ite_none_right_eq_some.1 hs
    rcases hx with hx | hx
    · exact absurd hx (hno _ nofun nofun)
    · exact absurd hx (hno _ nofun nofun)
  | fail =>
    dsimp only [I2cSys.step] at hs
    split at hs
    · cases hs
      exact ⟨_, Or.inr rfl⟩
    · cases hs
  | bus byte =>
    obtain ⟨cmd, -, rfl⟩ := Option.map_eq_some_iff.1 hs
    refine ⟨err, ?_⟩
    unfold I2cSys.bus
    split <;> exact hpc
  | hdrEnter =>
    obtain ⟨-, hs⟩ := Option.ite_none_right_eq_some.1 hs
    cases hs
    exact ⟨err, hpc⟩
  | inthdr =>
    obtain ⟨-, hs⟩ := Option.ite_none_right_eq_some.1 hs
    cases hs
    refine ⟨err, ?_⟩
    show s.inthdr.pc = _ ∨ s.inthdr.pc = _
    rw [inthdr_pc (hno _ nofun nofun)]
    exact hpc

theorem Inv.reachable (ha : Admitted sbuf n) (h : (i2cMachine sbuf n).ReachableIf NoGiveUp s) :
    Inv sbuf n s := by
  apply h.invariant (Inv sbuf n)
  · rintro s ⟨ioerr, flgptn, rfl⟩
    exact .comStart ha ioerr flgptn
  · intro s e t h hgive hs
    exact h.step hgive hs

/-- How far the task is from the end of the loop. -/
def weight (flgptn : Bool) : I2cPc → Nat
  | .start => 8
  | .woken => 7
  | .loop _ => 6
  | .enter => 5
  | .check => if flgptn then 9 else 4
  | .wait => if flgptn then 8 else 3
  | .waiting => 2
  | .fail _ => 0
  | .done _ => 0

/-- The bytes to come, with the steps of the task and of the handler, and the commands to be
executed. -/
def rank (s : I2cSys) : Nat × Nat :=
  (20 * (s.sdatNum + s.rdatNum) + weight s.flgptn s.pc + (if s.hdr then 0 else 1),
    s.cmds.length - s.executed)

theorem Inv.done (h : Inv sbuf n s) (hpc : s.pc = .done none) :
    s.cmds = codeStream sbuf n (sbuf.length + n) ∧ s.rbuf = s.received ∧ s.rbuf.length = n := by
  have hstop : s.state = .I2C_STS_STOP := by
    rcases h.sync.cases with ⟨-, hflag⟩ | ⟨-, hun⟩ | ⟨-, hx | hx⟩ | ⟨hst, -⟩
    · simp [Flagged, hpc] at hflag
    · simp [Unflagged, hpc] at hun
    · rw [hpc] at hx
      cases hx
    · rw [hpc] at hx
      cases hx
    · exact hst
  have hphase := h.phase
  unfold Phase at hphase
  rw [hstop] at hphase
  obtain ⟨-, hlen, hn⟩ := hphase
  have hcmds := h.base.cmds
  have hexec := h.base.executed
  have hreceived := h.base.received
  have hstored := h.base.stored
  rw [hlen] at hcmds
  rw [hstored, List.length_append] at hreceived
  have hfifo : s.rxFifo = [] := List.length_eq_zero_iff.1 (by omega)
  rw [hfifo, List.append_nil] at hstored
  exact ⟨hcmds, hstored.symm, hn⟩

end I2cSys

end Mtk3Smp
