import Mtk3Smp.Smp.System

/-!
# What each step can do

One inversion lemma for each kind of step, so that an invariant is a short case analysis:
dispatcher steps by their place (`DispStep`), section and handler steps and unlocked accesses
by what they leave alone, call bodies by their outcome.
-/

namespace Mtk3Smp

/-! ## Dispatcher steps -/

/-- A call body runs inside a section, with no reschedule outstanding, and leaves the slots
alone except for the flag that tk_ter_tsk clears. -/
structure KnlStep (c : Core) (e : KEvent) (o : Outcome) (s s' : Sys) : Prop where
  inSection : s.inSection c = true
  body : e.body s c = some o
  knl : s'.knl = o.knl
  due : s'.due = o.due
  phase : s'.phase = o.phase
  thr : s'.thr = e.thr s c o
  offered : s'.offered = s.offered
  ctxtsk : s'.slots.ctxtsk = s.slots.ctxtsk
  schedtsk : s'.slots.schedtsk = s.slots.schedtsk
  online : s'.slots.onlineMask = s.slots.onlineMask
  disabled : s'.slots.dispatchDisabled =
    match o.enable with
    | some i => s.slots.dispatchDisabled.set i DDS_ENABLE
    | none => s.slots.dispatchDisabled
  disp : s'.disp = s.disp

theorem KnlStep.not_due {c : Core} {s s' : Sys} {e : KEvent} {o : Outcome}
    (h : KnlStep c e o s s') : s.due = false := by
  have := h.inSection
  simp only [Sys.inSection, Bool.and_eq_true, Bool.not_eq_true'] at this
  exact this.1.2

theorem KnlStep.lock {c : Core} {s s' : Sys} {e : KEvent} {o : Outcome}
    (h : KnlStep c e o s s') : s.lock = some c := by
  have := h.inSection
  simp only [Sys.inSection, Bool.and_eq_true, beq_iff_eq] at this
  exact this.1.1

end Mtk3Smp
