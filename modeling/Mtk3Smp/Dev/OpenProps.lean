import Mtk3Smp.Lib.FreePool
import Mtk3Smp.Dev.Open

/-!
# Where the open management blocks are

A block is free, open, or with the one task that opens or closes it. The queue of a device has
the open blocks of the device and those that a task has not finished opening or has not taken
out yet.
-/

namespace Mtk3Smp

/-- The block that a task opens, closes or is about to free. -/
def OpenPc.held : OpenPc → Option Nat
  | .idle => none
  | .openCall i | .openRun i _ | .openFail i _ | .openDone i => some i
  | .closing i | .closeCall i _ _ | .closeRun i _ _ _ | .closeEnd i => some i

/-- The same, as long as the block is on the queue of its device. -/
def OpenPc.listed : OpenPc → Option Nat
  | .openCall i | .openRun i _ | .openFail i _ | .openDone i | .closing i => some i
  | .idle | .closeCall .. | .closeRun .. | .closeEnd _ => none

theorem OpenPc.held_of_listed {pc : OpenPc} {i : Nat} (h : pc.listed = some i) :
    pc.held = some i := by
  cases pc <;> first | exact h | cases h

structure OpenOk (s : OpenSys) : Prop where
  pool : FreePool s.free s.openq
  unopened : ∀ i ∈ s.free, (s.opncb i).resid = false
  unheld : ∀ i ∈ s.free, ∀ t, (s.pc t).held ≠ some i
  openUnheld : ∀ i t, (s.opncb i).resid = true → (s.pc t).held ≠ some i
  unique : ∀ t v i, (s.pc t).held = some i → (s.pc v).held = some i → t = v
  queued : ∀ d i, i ∈ s.openq d ↔
    (s.opncb i).devcb = d ∧ ((s.opncb i).resid = true ∨ ∃ t, (s.pc t).listed = some i)

namespace OpenSys

variable {s u : OpenSys} {t v : Tid} {i j dev unitno : Nat} {omode : Omode} {pc : OpenPc}
  {rest : List Nat} {b : Bool}

@[simp]
theorem setPc_self : (s.setPc t pc).pc t = pc := Function.update_self ..

theorem setPc_ne (h : v ≠ t) : (s.setPc t pc).pc v = s.pc v := Function.update_of_ne h ..

theorem held_setPc : ((s.setPc t pc).pc v).held = some i ↔
    v = t ∧ pc.held = some i ∨ v ≠ t ∧ (s.pc v).held = some i := by
  by_cases h : v = t
  · subst h
    rw [setPc_self]
    simp
  · rw [setPc_ne h]
    simp [h]

/-- A task that takes no new block. -/
theorem held_of_setPc (h : ∀ i, pc.held = some i → (s.pc t).held = some i)
    (hv : ((s.setPc t pc).pc v).held = some i) : (s.pc v).held = some i := by
  rcases held_setPc.1 hv with ⟨rfl, hv'⟩ | ⟨-, hv'⟩
  · exact h i hv'
  · exact hv'

theorem listed_setPc : (∃ v, ((s.setPc t pc).pc v).listed = some i) ↔
    pc.listed = some i ∨ ∃ v, v ≠ t ∧ (s.pc v).listed = some i := by
  constructor
  · rintro ⟨v, hv⟩
    by_cases h : v = t
    · subst h
      rw [setPc_self] at hv
      exact .inl hv
    · rw [setPc_ne h] at hv
      exact .inr ⟨v, h, hv⟩
  · rintro (h | ⟨v, hne, hv⟩)
    · exact ⟨t, by rw [setPc_self]; exact h⟩
    · exact ⟨v, by rw [setPc_ne hne]; exact hv⟩

theorem setResid_self : ((s.setResid i b).opncb i).resid = b := by
  show (Function.update s.opncb i _ i).resid = b
  rw [Function.update_self]

theorem setResid_ne (h : j ≠ i) : (s.setResid i b).opncb j = s.opncb j :=
  Function.update_of_ne h ..

/-- Nothing but `resid` changes. -/
theorem setResid_frame : ((s.setResid i b).opncb j).devcb = (s.opncb j).devcb ∧
    ((s.setResid i b).opncb j).unitno = (s.opncb j).unitno ∧
    ((s.setResid i b).opncb j).omode = (s.opncb j).omode := by
  by_cases h : j = i
  · subst h
    show (Function.update s.opncb j _ j).devcb = _ ∧ (Function.update s.opncb j _ j).unitno = _ ∧
      (Function.update s.opncb j _ j).omode = _
    rw [Function.update_self]
    exact ⟨rfl, rfl, rfl⟩
  · rw [setResid_ne h]
    exact ⟨rfl, rfl, rfl⟩

theorem setPc_setPc {pc' : OpenPc} : (s.setPc t pc).setPc t pc' = s.setPc t pc' := by
  show ({ s with pc := Function.update (Function.update s.pc t pc) t pc' } : OpenSys) = _
  rw [Function.update_idem]
  rfl

theorem newOpnCB_self :
    (s.newOpnCB dev unitno omode i rest).opncb i = ⟨dev, unitno, omode, false⟩ :=
  Function.update_self ..

theorem newOpnCB_ne (h : j ≠ i) :
    (s.newOpnCB dev unitno omode i rest).opncb j = s.opncb j :=
  Function.update_of_ne h ..

/-- tk_opn_dev passes all its checks. -/
def Grants (s : OpenSys) (dev unitno : Nat) (omode : Omode) (sem : Bool) : Prop :=
  (s.ddev dev).registered = true ∧ unitno ≤ (s.ddev dev).nsub ∧
    chkopenmode (s.opened dev) unitno omode = none ∧ s.free ≠ [] ∧ sem = true

/-- What tk_opn_dev does up to UnlockDM: it fails without a block, it fails when there is no
semaphore, or it has a block on the queue of the device. -/
theorem tkOpnDev_cases (s : OpenSys) (t : Tid) (dev unitno : Nat) (omode : Omode) (sem : Bool) :
    (∃ e, s.tkOpnDev t dev unitno omode sem = s.returns t (.error e) ∧
      (e = .E_BUSY → chkopenmode (s.opened dev) unitno omode = some .E_BUSY)) ∨
    (∃ i rest, s.free = i :: rest ∧ s.tkOpnDev t dev unitno omode sem =
      (((s.newOpnCB dev unitno omode i rest).knlDelOpnCB i).freeOpnCB i).returns t
        (.error .E_SYS)) ∨
    (∃ i rest, s.free = i :: rest ∧ s.Grants dev unitno omode sem ∧
      s.tkOpnDev t dev unitno omode sem = (s.newOpnCB dev unitno omode i rest).setPc t
        (if s.knlChkopen dev unitno && !(s.ddev dev).openreq then .openDone i
          else .openCall i)) := by
  unfold tkOpnDev
  by_cases hdev : (s.ddev dev).registered = false ∨ (s.ddev dev).nsub < unitno
  · rw [if_pos hdev]
    exact .inl ⟨.E_NOEXS, rfl, nofun⟩
  · rw [if_neg hdev]
    cases hmode : chkopenmode (s.opened dev) unitno omode with
    | some e =>
      refine .inl ⟨e, rfl, ?_⟩
      rintro rfl
      rfl
    | none =>
      cases hfree : s.free with
      | nil => exact .inl ⟨.E_LIMIT, rfl, nofun⟩
      | cons i rest =>
        cases sem with
        | false => exact .inr (.inl ⟨i, rest, rfl, rfl⟩)
        | true =>
          refine .inr (.inr ⟨i, rest, rfl, ⟨?_, ?_, hmode, by rw [hfree]; exact nofun, rfl⟩, rfl⟩)
          · cases hr : (s.ddev dev).registered with
            | true => rfl
            | false => exact absurd (.inl hr) hdev
          · exact Nat.le_of_not_lt fun hlt => hdev (.inr hlt)

end OpenSys

namespace OpenOk

open OpenSys

variable {s u : OpenSys} {t : Tid} {i dev unitno : Nat} {omode : Omode} {pc : OpenPc}
  {rest : List Nat}

theorem held_unlisted (h : OpenOk s) (hh : (s.pc t).held = some i) (hl : (s.pc t).listed = none)
    (d : Nat) : i ∉ s.openq d := by
  intro hi
  obtain ⟨-, hr | ⟨v, hv⟩⟩ := (h.queued d i).1 hi
  · exact h.openUnheld i t hr hh
  · obtain rfl := h.unique t v i hh (OpenPc.held_of_listed hv)
    rw [hl] at hv
    cases hv

theorem mem_openq (h : OpenOk s) (hl : (s.pc t).listed = some i) :
    i ∈ s.openq (s.opncb i).devcb :=
  (h.queued _ i).2 ⟨rfl, .inr ⟨t, hl⟩⟩

theorem held_resid (h : OpenOk s) (hh : (s.pc t).held = some i) : (s.opncb i).resid = false := by
  cases hr : (s.opncb i).resid with
  | false => rfl
  | true => exact absurd hh (h.openUnheld i t hr)

/-- A task goes on with the block that it has. -/
theorem setPc (h : OpenOk s) (hh : pc.held = (s.pc t).held) (hl : pc.listed = (s.pc t).listed) :
    OpenOk (s.setPc t pc) := by
  have held : ∀ v i, ((s.setPc t pc).pc v).held = some i → (s.pc v).held = some i :=
    fun v i hv => held_of_setPc (fun i hi => hh ▸ hi) hv
  constructor
  case pool => exact h.pool
  case unopened => exact h.unopened
  case unheld => exact fun i hi v hv => h.unheld i hi v (held v i hv)
  case openUnheld => exact fun i v hr hv => h.openUnheld i v hr (held v i hv)
  case unique => exact fun v w i hv hw => h.unique v w i (held v i hv) (held w i hw)
  case queued =>
    intro d i
    have same : (∃ v, ((s.setPc t pc).pc v).listed = some i) ↔ ∃ v, (s.pc v).listed = some i := by
      rw [listed_setPc, hl]
      constructor
      · rintro (hv | ⟨v, -, hv⟩)
        · exact ⟨t, hv⟩
        · exact ⟨v, hv⟩
      · rintro ⟨v, hv⟩
        by_cases hvt : v = t
        · exact .inl (hvt ▸ hv)
        · exact .inr ⟨v, hvt, hv⟩
    rw [same]
    exact h.queued d i

/-- tk_opn_dev takes a block. -/
theorem newOpnCB (h : OpenOk s) (hfree : s.free = i :: rest) (hidle : (s.pc t).held = none)
    (hh : pc.held = some i) (hl : pc.listed = some i) :
    OpenOk ((s.newOpnCB dev unitno omode i rest).setPc t pc) := by
  have hi : i ∈ s.free := by rw [hfree]; exact List.mem_cons_self
  have hpool : FreePool (i :: rest) s.openq := hfree ▸ h.pool
  have hrest : ∀ j ∈ rest, j ∈ s.free ∧ j ≠ i := by
    intro j hj
    refine ⟨by rw [hfree]; exact List.mem_cons_of_mem _ hj, ?_⟩
    rintro rfl
    exact (List.nodup_cons.1 hpool.freeNodup).1 hj
  constructor
  case pool => exact hpool.take
  case unopened =>
    intro j hj
    show ((s.newOpnCB dev unitno omode i rest).opncb j).resid = false
    rw [newOpnCB_ne (hrest j hj).2]
    exact h.unopened j (hrest j hj).1
  case unheld =>
    intro j hj v hv
    rcases held_setPc.1 hv with ⟨-, hv⟩ | ⟨-, hv⟩
    · exact (hrest j hj).2 (Option.some.inj (hv.symm.trans hh))
    · exact h.unheld j (hrest j hj).1 v hv
  case openUnheld =>
    intro j v hr hv
    have hr' : ((s.newOpnCB dev unitno omode i rest).opncb j).resid = true := hr
    have hj : j ≠ i := by
      rintro rfl
      rw [newOpnCB_self] at hr'
      cases hr'
    rw [newOpnCB_ne hj] at hr'
    rcases held_setPc.1 hv with ⟨-, hv⟩ | ⟨-, hv⟩
    · exact hj (Option.some.inj (hv.symm.trans hh))
    · exact h.openUnheld j v hr' hv
  case unique =>
    intro v w j hv hw
    rcases held_setPc.1 hv with ⟨hvt, hv'⟩ | ⟨-, hv'⟩
    · obtain rfl := Option.some.inj (hh.symm.trans hv')
      rcases held_setPc.1 hw with ⟨hwt, -⟩ | ⟨-, hw'⟩
      · exact hvt.trans hwt.symm
      · exact absurd hw' (h.unheld i hi w)
    · rcases held_setPc.1 hw with ⟨-, hw'⟩ | ⟨-, hw'⟩
      · obtain rfl := Option.some.inj (hh.symm.trans hw')
        exact absurd hv' (h.unheld i hi v)
      · exact h.unique v w j hv' hw'
  case queued =>
    intro d j
    rw [listed_setPc, hl]
    show j ∈ Function.update s.openq dev (s.openq dev ++ [i]) d ↔
      ((s.newOpnCB dev unitno omode i rest).opncb j).devcb = d ∧
        (((s.newOpnCB dev unitno omode i rest).opncb j).resid = true ∨ some i = some j ∨
          ∃ v, v ≠ t ∧ (s.pc v).listed = some j)
    rw [FreePool.mem_append]
    by_cases hj : j = i
    · subst hj
      rw [newOpnCB_self]
      constructor
      · rintro (hq | ⟨rfl, -⟩)
        · exact absurd hi (h.pool.apart d j hq)
        · exact ⟨rfl, .inr (.inl rfl)⟩
      · rintro ⟨rfl, -⟩
        exact .inr ⟨rfl, rfl⟩
    · have hnone : (s.pc t).listed ≠ some j := by
        intro hv
        rw [OpenPc.held_of_listed hv] at hidle
        cases hidle
      rw [newOpnCB_ne hj, h.queued d j]
      constructor
      · rintro (⟨hd, hr | ⟨v, hv⟩⟩ | ⟨-, rfl⟩)
        · exact ⟨hd, .inl hr⟩
        · refine ⟨hd, .inr (.inr ⟨v, ?_, hv⟩)⟩
          rintro rfl
          exact hnone hv
        · exact absurd rfl hj
      · rintro ⟨hd, hr | he | ⟨v, -, hv⟩⟩
        · exact .inl ⟨hd, .inl hr⟩
        · exact absurd (Option.some.inj he).symm hj
        · exact .inl ⟨hd, .inr ⟨v, hv⟩⟩

/-- The last critical section of tk_opn_dev, when the open has succeeded. -/
theorem openDone (h : OpenOk s) (hl : (s.pc t).listed = some i) (hh : pc.held = none) :
    OpenOk ((s.setResid i true).setPc t pc) := by
  have hlnone : ∀ j, pc.listed ≠ some j := by
    intro j hj
    rw [OpenPc.held_of_listed hj] at hh
    cases hh
  have hheld := OpenPc.held_of_listed hl
  have held : ∀ v j, ((s.setPc t pc).pc v).held = some j → (s.pc v).held = some j :=
    fun v j hv => held_of_setPc (fun j hj => by rw [hh] at hj; cases hj) hv
  constructor
  case pool => exact h.pool
  case unopened =>
    intro j hj
    have hji : j ≠ i := by
      rintro rfl
      exact h.unheld j hj t hheld
    show ((s.setResid i true).opncb j).resid = false
    rw [setResid_ne hji]
    exact h.unopened j hj
  case unheld => exact fun j hj v hv => h.unheld j hj v (held v j hv)
  case openUnheld =>
    intro j v hr hv
    by_cases hji : j = i
    · subst hji
      rcases held_setPc.1 hv with ⟨-, hv'⟩ | ⟨hne, hv'⟩
      · rw [hh] at hv'
        cases hv'
      · exact hne (h.unique v t j hv' hheld)
    · have hr' : ((s.setResid i true).opncb j).resid = true := hr
      rw [setResid_ne hji] at hr'
      exact h.openUnheld j v hr' (held v j hv)
  case unique => exact fun v w j hv hw => h.unique v w j (held v j hv) (held w j hw)
  case queued =>
    intro d j
    rw [listed_setPc]
    show j ∈ s.openq d ↔ ((s.setResid i true).opncb j).devcb = d ∧
      (((s.setResid i true).opncb j).resid = true ∨ pc.listed = some j ∨
        ∃ v, v ≠ t ∧ (s.pc v).listed = some j)
    rw [setResid_frame.1, h.queued d j]
    by_cases hji : j = i
    · subst hji
      rw [setResid_self]
      exact ⟨fun hd => ⟨hd.1, .inl rfl⟩, fun hd => ⟨hd.1, .inr ⟨t, hl⟩⟩⟩
    · rw [setResid_ne hji]
      constructor
      · rintro ⟨hd, hr | ⟨v, hv⟩⟩
        · exact ⟨hd, .inl hr⟩
        · refine ⟨hd, .inr (.inr ⟨v, ?_, hv⟩)⟩
          rintro rfl
          exact hji (Option.some.inj (hv.symm.trans hl))
      · rintro ⟨hd, hr | hj | ⟨v, -, hv⟩⟩
        · exact ⟨hd, .inl hr⟩
        · exact absurd hj (hlnone j)
        · exact ⟨hd, .inr ⟨v, hv⟩⟩

/-- tk_cls_dev takes an open block. -/
theorem tkClsDev (h : OpenOk s) (hr : (s.opncb i).resid = true) (hidle : (s.pc t).held = none)
    (hh : pc.held = some i) (hl : pc.listed = some i) :
    OpenOk ((s.setResid i false).setPc t pc) := by
  have hresid : ∀ j, ((s.setResid i false).opncb j).resid = true →
      j ≠ i ∧ (s.opncb j).resid = true := by
    intro j hj
    have hji : j ≠ i := by
      rintro rfl
      rw [setResid_self] at hj
      cases hj
    rw [setResid_ne hji] at hj
    exact ⟨hji, hj⟩
  constructor
  case pool => exact h.pool
  case unopened =>
    intro j hj
    show ((s.setResid i false).opncb j).resid = false
    by_cases hji : j = i
    · subst hji
      exact setResid_self
    · rw [setResid_ne hji]
      exact h.unopened j hj
  case unheld =>
    intro j hj v hv
    rcases held_setPc.1 hv with ⟨-, hv'⟩ | ⟨-, hv'⟩
    · obtain rfl := Option.some.inj (hh.symm.trans hv')
      rw [h.unopened i hj] at hr
      cases hr
    · exact h.unheld j hj v hv'
  case openUnheld =>
    intro j v hj hv
    obtain ⟨hji, hj'⟩ := hresid j hj
    rcases held_setPc.1 hv with ⟨-, hv'⟩ | ⟨-, hv'⟩
    · exact hji (Option.some.inj (hv'.symm.trans hh))
    · exact h.openUnheld j v hj' hv'
  case unique =>
    intro v w j hv hw
    rcases held_setPc.1 hv with ⟨hvt, hv'⟩ | ⟨-, hv'⟩
    · obtain rfl := Option.some.inj (hh.symm.trans hv')
      rcases held_setPc.1 hw with ⟨hwt, -⟩ | ⟨-, hw'⟩
      · exact hvt.trans hwt.symm
      · exact absurd hw' (h.openUnheld i w hr)
    · rcases held_setPc.1 hw with ⟨-, hw'⟩ | ⟨-, hw'⟩
      · obtain rfl := Option.some.inj (hh.symm.trans hw')
        exact absurd hv' (h.openUnheld i v hr)
      · exact h.unique v w j hv' hw'
  case queued =>
    intro d j
    rw [listed_setPc, hl]
    show j ∈ s.openq d ↔ ((s.setResid i false).opncb j).devcb = d ∧
      (((s.setResid i false).opncb j).resid = true ∨ some i = some j ∨
        ∃ v, v ≠ t ∧ (s.pc v).listed = some j)
    rw [setResid_frame.1, h.queued d j]
    by_cases hji : j = i
    · subst hji
      exact ⟨fun hd => ⟨hd.1, .inr (.inl rfl)⟩, fun hd => ⟨hd.1, .inl hr⟩⟩
    · rw [setResid_ne hji]
      constructor
      · rintro ⟨hd, hr' | ⟨v, hv⟩⟩
        · exact ⟨hd, .inl hr'⟩
        · refine ⟨hd, .inr (.inr ⟨v, ?_, hv⟩)⟩
          rintro rfl
          rw [OpenPc.held_of_listed hv] at hidle
          cases hidle
      · rintro ⟨hd, hr' | he | ⟨v, -, hv⟩⟩
        · exact ⟨hd, .inl hr'⟩
        · exact absurd (Option.some.inj he).symm hji
        · exact ⟨hd, .inr ⟨v, hv⟩⟩

/-- A block leaves the queue of its device. -/
theorem knlDelOpnCB (h : OpenOk s) (hl : (s.pc t).listed = some i)
    (hh : pc.held = some i) (hlnone : pc.listed = none) :
    OpenOk ((s.knlDelOpnCB i).setPc t pc) := by
  have hheld := OpenPc.held_of_listed hl
  have hmem := h.mem_openq hl
  have hclosed := h.held_resid hheld
  have held : ∀ v j, ((s.setPc t pc).pc v).held = some j → (s.pc v).held = some j := by
    refine fun v j hv => held_of_setPc (fun j hj => ?_) hv
    obtain rfl := Option.some.inj (hh.symm.trans hj)
    exact hheld
  have hresid : ∀ j, ((s.knlDelOpnCB i).opncb j).resid = (s.opncb j).resid := by
    intro j
    by_cases hji : j = i
    · subst hji
      exact setResid_self.trans hclosed.symm
    · exact congrArg OpnCb.resid (setResid_ne hji)
  constructor
  case pool => exact h.pool.drop hmem
  case unopened => exact fun j hj => (hresid j).trans (h.unopened j hj)
  case unheld => exact fun j hj v hv => h.unheld j hj v (held v j hv)
  case openUnheld =>
    exact fun j v hr hv => h.openUnheld j v ((hresid j).symm.trans hr) (held v j hv)
  case unique => exact fun v w j hv hw => h.unique v w j (held v j hv) (held w j hw)
  case queued =>
    intro d j
    have hdev : ((s.knlDelOpnCB i).opncb j).devcb = (s.opncb j).devcb := setResid_frame.1
    rw [listed_setPc, hlnone]
    show j ∈ Function.update s.openq (s.opncb i).devcb ((s.openq (s.opncb i).devcb).erase i) d ↔
      ((s.knlDelOpnCB i).opncb j).devcb = d ∧ (((s.knlDelOpnCB i).opncb j).resid = true ∨
        none = some j ∨ ∃ v, v ≠ t ∧ (s.pc v).listed = some j)
    rw [h.pool.mem_erase hmem, hdev, hresid j, h.queued d j]
    constructor
    · rintro ⟨⟨hd, hr | ⟨v, hv⟩⟩, hji⟩
      · exact ⟨hd, .inl hr⟩
      · refine ⟨hd, .inr (.inr ⟨v, ?_, hv⟩)⟩
        rintro rfl
        exact hji (Option.some.inj (hv.symm.trans hl))
    · rintro ⟨hd, hr | he | ⟨v, hne, hv⟩⟩
      · refine ⟨⟨hd, .inl hr⟩, ?_⟩
        rintro rfl
        rw [hclosed] at hr
        cases hr
      · cases he
      · refine ⟨⟨hd, .inr ⟨v, hv⟩⟩, ?_⟩
        rintro rfl
        exact hne (h.unique v t j (OpenPc.held_of_listed hv) hheld)

/-- A block that has left the queue of its device is freed. -/
theorem freeOpnCB (h : OpenOk s) (hheld : (s.pc t).held = some i) (hl : (s.pc t).listed = none)
    (hh : pc.held = none) : OpenOk ((s.freeOpnCB i).setPc t pc) := by
  have held : ∀ v j, ((s.setPc t pc).pc v).held = some j → (s.pc v).held = some j :=
    fun v j hv => held_of_setPc (fun j hj => by rw [hh] at hj; cases hj) hv
  have hlnone : pc.listed = none := by
    cases hp : pc.listed with
    | none => rfl
    | some j =>
      rw [OpenPc.held_of_listed hp] at hh
      cases hh
  constructor
  case pool => exact h.pool.giveBack (fun hi => h.unheld i hi t hheld) (h.held_unlisted hheld hl)
  case unopened =>
    intro j hj
    rcases List.mem_append.1 hj with hj | hj
    · exact h.unopened j hj
    · obtain rfl := List.mem_singleton.1 hj
      exact h.held_resid hheld
  case unheld =>
    intro j hj v hv
    rcases List.mem_append.1 hj with hj | hj
    · exact h.unheld j hj v (held v j hv)
    · obtain rfl := List.mem_singleton.1 hj
      rcases held_setPc.1 hv with ⟨-, hv'⟩ | ⟨hne, hv'⟩
      · rw [hh] at hv'
        cases hv'
      · exact hne (h.unique v t j hv' hheld)
  case openUnheld => exact fun j v hr hv => h.openUnheld j v hr (held v j hv)
  case unique => exact fun v w j hv hw => h.unique v w j (held v j hv) (held w j hw)
  case queued =>
    intro d j
    have same : (∃ v, ((s.setPc t pc).pc v).listed = some j) ↔ ∃ v, (s.pc v).listed = some j := by
      rw [listed_setPc, hlnone]
      constructor
      · rintro (hj | ⟨v, -, hv⟩)
        · cases hj
        · exact ⟨v, hv⟩
      · rintro ⟨v, hv⟩
        refine .inr ⟨v, ?_, hv⟩
        rintro rfl
        rw [hl] at hv
        cases hv
    show j ∈ s.openq d ↔ (s.opncb j).devcb = d ∧ ((s.opncb j).resid = true ∨
      ∃ v, ((s.setPc t pc).pc v).listed = some j)
    rw [same]
    exact h.queued d j

/-- Only the result of the task is new. -/
theorem returns (h : OpenOk (s.setPc t .idle)) (r : Except OpenErr Nat) :
    OpenOk (s.returns t r) :=
  ⟨h.pool, h.unopened, h.unheld, h.openUnheld, h.unique, h.queued⟩

theorem withCalls (h : OpenOk s) (calls : Nat) (last : Nat → Nat → Option DrvCall) :
    OpenOk { s with calls, last } :=
  ⟨h.pool, h.unopened, h.unheld, h.openUnheld, h.unique, h.queued⟩

/-- A block leaves the queue of its device and is freed. -/
theorem delFree (h : OpenOk s) (hl : (s.pc t).listed = some i) :
    OpenOk (((s.knlDelOpnCB i).freeOpnCB i).setPc t .idle) := by
  have hdel : OpenOk ((s.knlDelOpnCB i).setPc t (.closeEnd i)) := h.knlDelOpnCB hl rfl rfl
  have hfree : OpenOk ((((s.knlDelOpnCB i).setPc t (.closeEnd i)).freeOpnCB i).setPc t .idle) :=
    hdel.freeOpnCB (by rw [setPc_self]; rfl) (by rw [setPc_self]; rfl) rfl
  have heq : (((s.knlDelOpnCB i).setPc t (.closeEnd i)).freeOpnCB i).setPc t .idle =
      ((s.knlDelOpnCB i).freeOpnCB i).setPc t .idle :=
    setPc_setPc (s := (s.knlDelOpnCB i).freeOpnCB i)
  rw [← heq]
  exact hfree

theorem tkOpnDev (h : OpenOk s) (hpc : s.pc t = .idle) (sem : Bool) :
    OpenOk (s.tkOpnDev t dev unitno omode sem) := by
  have hidle : (s.pc t).held = none := by rw [hpc]; rfl
  rcases tkOpnDev_cases s t dev unitno omode sem with
    ⟨e, heq, -⟩ | ⟨i, rest, hfree, heq⟩ | ⟨i, rest, hfree, -, heq⟩
  · rw [heq]
    exact (h.setPc (by rw [hpc]) (by rw [hpc])).returns _
  · rw [heq]
    have hnew : OpenOk ((s.newOpnCB dev unitno omode i rest).setPc t (.openDone i)) :=
      h.newOpnCB hfree hidle rfl rfl
    have hdel := hnew.delFree (t := t) (i := i) (by rw [setPc_self]; rfl)
    have hset : ((((s.newOpnCB dev unitno omode i rest).setPc t (.openDone i)).knlDelOpnCB
        i).freeOpnCB i).setPc t .idle =
        (((s.newOpnCB dev unitno omode i rest).knlDelOpnCB i).freeOpnCB i).setPc t .idle :=
      setPc_setPc (s := ((s.newOpnCB dev unitno omode i rest).knlDelOpnCB i).freeOpnCB i)
    rw [hset] at hdel
    exact hdel.returns _
  · rw [heq]
    split
    · exact h.newOpnCB hfree hidle rfl rfl
    · exact h.newOpnCB hfree hidle rfl rfl

theorem step {max : Nat} {e : OpenEvent} (h : OpenOk s) (hs : s.step max e = some u) :
    OpenOk u := by
  cases e with
  | tkOpnDev t dev unitno omode sem =>
    simp only [OpenSys.step] at hs
    split at hs
    · rename_i hpc
      obtain rfl := Option.some.inj hs
      exact h.tkOpnDev hpc sem
    · cases hs
  | openBegin t =>
    simp only [OpenSys.step] at hs
    split at hs
    · rename_i i hpc
      obtain rfl := Option.some.inj hs
      have hset : OpenOk (s.setPc t (.openRun i s.calls)) :=
        h.setPc (by rw [hpc]; rfl) (by rw [hpc]; rfl)
      exact hset.withCalls _ _
    · cases hs
  | openReturn t ercd =>
    simp only [OpenSys.step] at hs
    split at hs
    · rename_i i num hpc
      obtain rfl := Option.some.inj hs
      split
      · have hset : OpenOk (s.setPc t (.openDone i)) :=
          h.setPc (by rw [hpc]; rfl) (by rw [hpc]; rfl)
        exact hset.withCalls _ _
      · have hset : OpenOk (s.setPc t (.openFail i ercd)) :=
          h.setPc (by rw [hpc]; rfl) (by rw [hpc]; rfl)
        exact hset.withCalls _ _
    · cases hs
  | openFinish t =>
    simp only [OpenSys.step] at hs
    split at hs
    · rename_i i hpc
      obtain rfl := Option.some.inj hs
      exact (h.openDone (t := t) (i := i) (by rw [hpc]; rfl) rfl).returns _
    · rename_i i ercd hpc
      obtain rfl := Option.some.inj hs
      exact (h.delFree (t := t) (i := i) (by rw [hpc]; rfl)).returns _
    · cases hs
  | tkClsDev t dd =>
    simp only [OpenSys.step] at hs
    split at hs
    · rename_i hpc
      obtain rfl := Option.some.inj hs
      unfold OpenSys.tkClsDev
      split
      · exact h
      · split
        · rename_i hr
          exact h.tkClsDev hr (by rw [hpc]; rfl) rfl rfl
        · exact h
    · cases hs
  | closeSection t =>
    simp only [OpenSys.step] at hs
    split at hs
    · rename_i i hpc
      obtain rfl := Option.some.inj hs
      unfold OpenSys.closeSection
      dsimp only
      split
      · exact h.knlDelOpnCB (by rw [hpc]; rfl) rfl rfl
      · exact h.knlDelOpnCB (by rw [hpc]; rfl) rfl rfl
    · cases hs
  | closeBegin t =>
    simp only [OpenSys.step] at hs
    split at hs
    · rename_i i dev unitno hpc
      obtain rfl := Option.some.inj hs
      have hset : OpenOk (s.setPc t (.closeRun i dev unitno s.calls)) :=
        h.setPc (by rw [hpc]; rfl) (by rw [hpc]; rfl)
      exact hset.withCalls _ _
    · cases hs
  | closeReturn t ercd =>
    simp only [OpenSys.step] at hs
    split at hs
    · rename_i i dev unitno num hpc
      obtain rfl := Option.some.inj hs
      have hset : OpenOk (s.setPc t (.closeEnd i)) :=
        h.setPc (by rw [hpc]; rfl) (by rw [hpc]; rfl)
      exact hset.withCalls _ _
    · cases hs
  | closeFinish t =>
    simp only [OpenSys.step] at hs
    split at hs
    · rename_i i hpc
      obtain rfl := Option.some.inj hs
      exact h.freeOpnCB (by rw [hpc]; rfl) (by rw [hpc]; rfl) rfl
    · cases hs

theorem boot (max : Nat) (ddev : Nat → Ddev) (opncb : Nat → OpnCb) :
    OpenOk (.boot max ddev opncb) where
  pool := FreePool.start List.nodup_range
  unopened _ _ := rfl
  unheld _ _ _ hh := by cases hh
  openUnheld _ _ hr := by cases hr
  unique _ _ _ hh := by cases hh
  queued d i := by
    constructor
    · intro hi
      cases hi
    · rintro ⟨-, hr | ⟨v, hv⟩⟩
      · cases hr
      · cases hv

end OpenOk

namespace OpenSys

variable {s u : OpenSys} {i : Nat}

/-- No block is new on the queue of a device. -/
def Fewer (s u : OpenSys) : Prop :=
  ∀ d, ∀ i ∈ u.openq d, i ∈ s.openq d ∧
    (u.opncb i).unitno = (s.opncb i).unitno ∧ (u.opncb i).omode = (s.opncb i).omode

theorem fewer_same (hq : u.openq = s.openq) (ho : u.opncb = s.opncb) : Fewer s u := by
  intro d i hi
  rw [hq] at hi
  rw [ho]
  exact ⟨hi, rfl, rfl⟩

theorem fewer_setResid (s : OpenSys) (i : Nat) (b : Bool) : Fewer s (s.setResid i b) :=
  fun _ _ hj => ⟨hj, setResid_frame.2⟩

theorem fewer_knlDelOpnCB (h : OpenOk s) (hi : i ∈ s.openq (s.opncb i).devcb) :
    Fewer s (s.knlDelOpnCB i) := by
  intro d j hj
  exact ⟨((h.pool.mem_erase hi).1 hj).1, setResid_frame.2⟩

/-- A block that has been taken and given back at once leaves the queues as they were. -/
theorem fewer_undone {dev unitno : Nat} {omode : Omode} {rest : List Nat} (h : OpenOk s)
    (hfree : s.free = i :: rest) :
    Fewer s ((s.newOpnCB dev unitno omode i rest).knlDelOpnCB i) := by
  have hi : ∀ d, i ∉ s.openq d := by
    intro d hd
    exact h.pool.apart d i hd (by rw [hfree]; exact List.mem_cons_self)
  have hpool : FreePool rest (s.newOpnCB dev unitno omode i rest).openq :=
    FreePool.take (hfree ▸ h.pool)
  have hmem : i ∈ (s.newOpnCB dev unitno omode i rest).openq dev :=
    FreePool.mem_append.2 (.inr ⟨rfl, rfl⟩)
  intro d j hj
  have hdev : ((s.newOpnCB dev unitno omode i rest).opncb i).devcb = dev := by
    rw [newOpnCB_self]
  have hj' : j ∈ Function.update (s.newOpnCB dev unitno omode i rest).openq
      ((s.newOpnCB dev unitno omode i rest).opncb i).devcb
      (((s.newOpnCB dev unitno omode i rest).openq
        ((s.newOpnCB dev unitno omode i rest).opncb i).devcb).erase i) d := hj
  rw [hdev, hpool.mem_erase hmem] at hj'
  obtain ⟨hq, hji⟩ := hj'
  have hold : (s.newOpnCB dev unitno omode i rest).opncb j = s.opncb j := newOpnCB_ne hji
  rcases FreePool.mem_append.1 hq with hq' | ⟨-, rfl⟩
  · refine ⟨hq', ?_⟩
    rw [← hold]
    exact setResid_frame.2
  · exact absurd rfl hji

end OpenSys

end Mtk3Smp
