import Mtk3Smp.Dev.OpenProps

/-!
# Exclusive open modes

`chkopenmode` counts the open blocks by mode. What it lets in respects the exclusive modes of
every block whose unit overlaps, and is respected by it; what it refuses would not.
-/

namespace Mtk3Smp

/-- Unit 0 is the whole device. -/
def Overlap (u v : Nat) : Prop := u = 0 ∨ v = 0 ∨ u = v

/-- What is opened with `a` keeps to the exclusive modes of `b`. -/
def Respects (a b : Omode) : Prop :=
  (a &&& TD_WRITE ≠ 0 → b &&& TD_EXCL = 0 ∧ b &&& TD_WEXCL = 0) ∧
  (a &&& TD_READ ≠ 0 → b &&& TD_EXCL = 0 ∧ b &&& TD_REXCL = 0)

def Compatible (a b : Omode) : Prop := Respects a b ∧ Respects b a

theorem Overlap.symm {u v : Nat} (h : Overlap u v) : Overlap v u := by
  rcases h with h | h | h
  · exact .inr (.inl h)
  · exact .inl h
  · exact .inr (.inr h.symm)

theorem Compatible.symm {a b : Omode} (h : Compatible a b) : Compatible b a := ⟨h.2, h.1⟩

/-! ## What chkopenmode decides -/

section Chkopenmode

variable {l : List OpnCb} {unitno : Nat} {omode : Omode}

theorem and_or_ne_zero {a x y : Omode} : a &&& (x ||| y) ≠ 0 ↔ ¬ (a &&& x = 0 ∧ a &&& y = 0) := by
  have hd : a &&& (x ||| y) = (a &&& x) ||| (a &&& y) :=
    UInt32.eq_of_toBitVec_eq BitVec.and_or_distrib_left
  rw [hd, ne_eq, UInt32.or_eq_zero_iff]

theorem not_compatible_iff {a b : Omode} : ¬ Compatible a b ↔
    b &&& (TD_EXCL ||| TD_REXCL) ≠ 0 ∧ a &&& TD_READ ≠ 0 ∨
    b &&& (TD_EXCL ||| TD_WEXCL) ≠ 0 ∧ a &&& TD_WRITE ≠ 0 ∨
    b &&& TD_READ ≠ 0 ∧ a &&& (TD_EXCL ||| TD_REXCL) ≠ 0 ∨
    b &&& TD_WRITE ≠ 0 ∧ a &&& (TD_EXCL ||| TD_WEXCL) ≠ 0 := by
  simp only [and_or_ne_zero, Compatible, Respects]
  tauto

/-- A block that `chkopenmode` counts under `mask`. -/
def seen (unitno : Nat) (mask : Omode) (o : OpnCb) : Bool :=
  decide (unitno = 0 ∨ o.unitno = 0 ∨ o.unitno = unitno) && decide (o.omode &&& mask ≠ 0)

theorem seen_iff {mask : Omode} {o : OpnCb} :
    seen unitno mask o = true ↔ Overlap o.unitno unitno ∧ o.omode &&& mask ≠ 0 := by
  unfold seen Overlap
  rw [Bool.and_eq_true, decide_eq_true_iff, decide_eq_true_iff]
  tauto

theorem countMode_foldl (l : List OpnCb) (n : ModeCounts) :
    l.foldl (countMode unitno) n =
      { read := n.read + l.countP (seen unitno TD_READ)
        write := n.write + l.countP (seen unitno TD_WRITE)
        rexcl := n.rexcl + l.countP (seen unitno (TD_EXCL ||| TD_REXCL))
        wexcl := n.wexcl + l.countP (seen unitno (TD_EXCL ||| TD_WEXCL)) } := by
  induction l generalizing n with
  | nil => rfl
  | cons o l ih =>
    rw [List.foldl_cons, ih]
    simp only [List.countP_cons]
    by_cases hu : unitno = 0 ∨ o.unitno = 0 ∨ o.unitno = unitno
    · unfold countMode seen
      rw [if_pos hu, decide_eq_true hu]
      simp only [Bool.true_and, decide_eq_true_iff]
      split <;> split <;> split <;> split <;> simp only [ModeCounts.mk.injEq] <;> omega
    · unfold countMode seen
      rw [if_neg hu, decide_eq_false hu]
      simp

/-- It refuses the open exactly when a block is in the way. -/
theorem chkopenmode_eq (hmode : omode &&& TD_UPDATE ≠ 0) :
    chkopenmode l unitno omode = some .E_BUSY ∧
      (∃ o ∈ l, Overlap o.unitno unitno ∧ ¬ Compatible o.omode omode) ∨
    chkopenmode l unitno omode = none ∧
      ∀ o ∈ l, Overlap o.unitno unitno → Compatible o.omode omode := by
  have pos : ∀ mask, 0 < 0 + l.countP (seen unitno mask) ↔
      ∃ o ∈ l, Overlap o.unitno unitno ∧ o.omode &&& mask ≠ 0 := by
    intro mask
    rw [Nat.zero_add, List.countP_pos_iff]
    simp only [seen_iff]
  unfold chkopenmode
  rw [if_neg hmode, countMode_foldl]
  dsimp only
  split
  · rename_i hc
    obtain ⟨hm, hpos⟩ := hc
    obtain ⟨o, ho, hu, hr⟩ := (pos _).1 hpos
    exact .inl ⟨rfl, o, ho, hu, not_compatible_iff.2 (.inl ⟨hm, hr⟩)⟩
  · rename_i hread
    split
    · rename_i hc
      obtain ⟨hm, hpos⟩ := hc
      obtain ⟨o, ho, hu, hw⟩ := (pos _).1 hpos
      exact .inl ⟨rfl, o, ho, hu, not_compatible_iff.2 (.inr (.inl ⟨hm, hw⟩))⟩
    · rename_i hwrite
      split
      · rename_i hc
        obtain ⟨hm, hpos⟩ := hc
        obtain ⟨o, ho, hu, hx⟩ := (pos _).1 hpos
        exact .inl ⟨rfl, o, ho, hu, not_compatible_iff.2 (.inr (.inr (.inl ⟨hm, hx⟩)))⟩
      · rename_i hrexcl
        split
        · rename_i hc
          obtain ⟨hm, hpos⟩ := hc
          obtain ⟨o, ho, hu, hx⟩ := (pos _).1 hpos
          exact .inl ⟨rfl, o, ho, hu, not_compatible_iff.2 (.inr (.inr (.inr ⟨hm, hx⟩)))⟩
        · rename_i hwexcl
          refine .inr ⟨rfl, fun o ho hu => ?_⟩
          by_contra hn
          -- one of the four tests would have failed
          rcases not_compatible_iff.1 hn with ⟨hm, hr⟩ | ⟨hm, hw⟩ | ⟨hm, hx⟩ | ⟨hm, hx⟩
          · exact hread ⟨hm, (pos _).2 ⟨o, ho, hu, hr⟩⟩
          · exact hwrite ⟨hm, (pos _).2 ⟨o, ho, hu, hw⟩⟩
          · exact hrexcl ⟨hm, (pos _).2 ⟨o, ho, hu, hx⟩⟩
          · exact hwexcl ⟨hm, (pos _).2 ⟨o, ho, hu, hx⟩⟩

theorem chkopenmode_none (h : chkopenmode l unitno omode = none) :
    ∀ o ∈ l, Overlap o.unitno unitno → Compatible o.omode omode := by
  have hmode : omode &&& TD_UPDATE ≠ 0 := by
    intro h0
    rw [chkopenmode, if_pos h0] at h
    cases h
  rcases @chkopenmode_eq l unitno omode hmode with ⟨he, -⟩ | ⟨-, hall⟩
  · rw [h] at he
    cases he
  · exact hall

theorem chkopenmode_busy (h : chkopenmode l unitno omode = some .E_BUSY) :
    ∃ o ∈ l, Overlap o.unitno unitno ∧ ¬ Compatible o.omode omode := by
  have hmode : omode &&& TD_UPDATE ≠ 0 := by
    intro h0
    rw [chkopenmode, if_pos h0] at h
    cases h
  rcases @chkopenmode_eq l unitno omode hmode with ⟨-, hex⟩ | ⟨he, -⟩
  · exact hex
  · rw [h] at he
    cases he

end Chkopenmode

namespace OpenSys

variable {s u : OpenSys} {max i j d : Nat}

/-- A block is open on a device, from when tk_opn_dev lets it in until it is taken out. -/
def IsOpen (s : OpenSys) (d i : Nat) : Prop :=
  (s.opncb i).devcb = d ∧ ((s.opncb i).resid = true ∨ ∃ t, (s.pc t).listed = some i)

/-- Blocks that are open together respect each other's exclusive modes, and tk_opn_dev says
E_BUSY only when a block is open that the new one would not go together with. -/
structure ModesRight (max : Nat) (s : OpenSys) : Prop where
  compatible : ∀ d i j, s.IsOpen d i → s.IsOpen d j → i ≠ j →
    Overlap (s.opncb i).unitno (s.opncb j).unitno → Compatible (s.opncb i).omode (s.opncb j).omode
  refused : ∀ t dev unitno omode sem u, s.step max (.tkOpnDev t dev unitno omode sem) = some u →
    u.pc t = .idle → u.result t = some (.error .E_BUSY) →
    ∃ i, s.IsOpen dev i ∧ Overlap (s.opncb i).unitno unitno ∧
      ¬ Compatible (s.opncb i).omode omode

structure ModesOk (s : OpenSys) : Prop where
  places : OpenOk s
  compatible : ∀ d, ∀ i ∈ s.openq d, ∀ j ∈ s.openq d, i ≠ j →
    Overlap (s.opncb i).unitno (s.opncb j).unitno → Compatible (s.opncb i).omode (s.opncb j).omode

theorem ModesOk.fewer (h : ModesOk s) (hu : OpenOk u) (hf : Fewer s u) : ModesOk u where
  places := hu
  compatible := by
    intro d i hi j hj hne hover
    obtain ⟨hi', hiu, hio⟩ := hf d i hi
    obtain ⟨hj', hju, hjo⟩ := hf d j hj
    rw [hiu, hju] at hover
    rw [hio, hjo]
    exact h.compatible d i hi' j hj' hne hover

theorem ModesOk.newOpnCB {t : Tid} {dev unitno : Nat} {omode : Omode} {rest : List Nat}
    {pc : OpenPc} (h : ModesOk s) (hfree : s.free = i :: rest)
    (hmode : chkopenmode (s.opened dev) unitno omode = none)
    (hu : OpenOk ((s.newOpnCB dev unitno omode i rest).setPc t pc)) :
    ModesOk ((s.newOpnCB dev unitno omode i rest).setPc t pc) where
  places := hu
  compatible := by
    have hnew : ∀ d, i ∉ s.openq d := by
      intro d hd
      exact h.places.pool.apart d i hd (by rw [hfree]; exact List.mem_cons_self)
    have hold : ∀ d, ∀ j ∈ s.openq d,
        (s.newOpnCB dev unitno omode i rest).opncb j = s.opncb j := by
      intro d j hj
      apply newOpnCB_ne
      rintro rfl
      exact hnew d hj
    have hpass : ∀ j ∈ s.openq dev, Overlap (s.opncb j).unitno unitno →
        Compatible (s.opncb j).omode omode :=
      fun j hj => chkopenmode_none hmode (s.opncb j) (List.mem_map_of_mem hj)
    intro d a ha b hb hne hover
    show Compatible ((s.newOpnCB dev unitno omode i rest).opncb a).omode
      ((s.newOpnCB dev unitno omode i rest).opncb b).omode
    change Overlap ((s.newOpnCB dev unitno omode i rest).opncb a).unitno
      ((s.newOpnCB dev unitno omode i rest).opncb b).unitno at hover
    rcases FreePool.mem_append.1 ha with ha' | ⟨hd, rfl⟩
    · rcases FreePool.mem_append.1 hb with hb' | ⟨rfl, rfl⟩
      · rw [hold d a ha', hold d b hb'] at hover ⊢
        exact h.compatible d a ha' b hb' hne hover
      · rw [hold d a ha', newOpnCB_self] at hover ⊢
        exact hpass a ha' hover
    · rcases FreePool.mem_append.1 hb with hb' | ⟨-, rfl⟩
      · rw [hold d b hb', newOpnCB_self] at hover ⊢
        exact (hpass b (hd ▸ hb') hover.symm).symm
      · exact absurd rfl hne

theorem ModesOk.tkOpnDev {t : Tid} {dev unitno : Nat} {omode : Omode} (h : ModesOk s)
    (hpc : s.pc t = .idle) (sem : Bool) : ModesOk (s.tkOpnDev t dev unitno omode sem) := by
  have hu : OpenOk (s.tkOpnDev t dev unitno omode sem) := h.places.tkOpnDev hpc sem
  rcases tkOpnDev_cases s t dev unitno omode sem with
    ⟨e, heq, -⟩ | ⟨i, rest, hfree, heq⟩ | ⟨i, rest, hfree, hgrant, heq⟩
  · rw [heq] at hu ⊢
    exact h.fewer hu (fewer_same rfl rfl)
  · rw [heq] at hu ⊢
    exact h.fewer hu (fewer_undone h.places hfree)
  · rw [heq] at hu ⊢
    exact h.newOpnCB hfree hgrant.2.2.1 hu

theorem ModesOk.step {e : OpenEvent} (h : ModesOk s) (hs : s.step max e = some u) :
    ModesOk u := by
  have hu := h.places.step hs
  cases e with
  | tkOpnDev t dev unitno omode sem =>
    simp only [OpenSys.step] at hs
    split at hs
    · rename_i hpc
      obtain rfl := Option.some.inj hs
      exact h.tkOpnDev hpc sem
    · cases hs
  | openBegin t =>
    simp only [OpenSys.step] at hs
    split at hs
    · obtain rfl := Option.some.inj hs
      exact h.fewer hu (fewer_same rfl rfl)
    · cases hs
  | openReturn t ercd =>
    simp only [OpenSys.step] at hs
    split at hs
    · obtain rfl := Option.some.inj hs
      exact h.fewer hu (fewer_same rfl rfl)
    · cases hs
  | openFinish t =>
    simp only [OpenSys.step] at hs
    split at hs
    · rename_i i hpc
      obtain rfl := Option.some.inj hs
      exact h.fewer hu (fewer_setResid s i true)
    · rename_i i ercd hpc
      obtain rfl := Option.some.inj hs
      have hl : (s.pc t).listed = some i := by rw [hpc]; rfl
      exact h.fewer hu (fewer_knlDelOpnCB h.places (h.places.mem_openq hl))
    · cases hs
  | tkClsDev t dd =>
    simp only [OpenSys.step] at hs
    split at hs
    · obtain rfl := Option.some.inj hs
      unfold OpenSys.tkClsDev at hu ⊢
      split at hu
      · rename_i hdd
        rw [if_pos hdd]
        exact h
      · rename_i hdd
        rw [if_neg hdd]
        split at hu
        · rename_i hr
          rw [if_pos hr]
          exact h.fewer hu (fewer_setResid s (dd - 1) false)
        · rename_i hr
          rw [if_neg hr]
          exact h
    · cases hs
  | closeSection t =>
    simp only [OpenSys.step] at hs
    split at hs
    · rename_i i hpc
      obtain rfl := Option.some.inj hs
      have hl : (s.pc t).listed = some i := by rw [hpc]; rfl
      have hf := fewer_knlDelOpnCB h.places (h.places.mem_openq hl)
      refine h.fewer hu ?_
      unfold OpenSys.closeSection
      dsimp only
      split
      · exact hf
      · exact hf
    · cases hs
  | closeBegin t =>
    simp only [OpenSys.step] at hs
    split at hs
    · obtain rfl := Option.some.inj hs
      exact h.fewer hu (fewer_same rfl rfl)
    · cases hs
  | closeReturn t ercd =>
    simp only [OpenSys.step] at hs
    split at hs
    · obtain rfl := Option.some.inj hs
      exact h.fewer hu (fewer_same rfl rfl)
    · cases hs
  | closeFinish t =>
    simp only [OpenSys.step] at hs
    split at hs
    · obtain rfl := Option.some.inj hs
      exact h.fewer hu (fewer_same rfl rfl)
    · cases hs

theorem returns_result (s : OpenSys) (t : Tid) (r : Except OpenErr Nat) :
    (s.returns t r).result t = some r := Function.update_self ..

theorem ModesOk.modesRight (h : ModesOk s) : ModesRight max s := by
  constructor
  case compatible =>
    intro d i j hi hj hne hover
    exact h.compatible d i ((h.places.queued d i).2 hi) j ((h.places.queued d j).2 hj) hne hover
  case refused =>
    intro t dev unitno omode sem u hs hret hres
    simp only [OpenSys.step] at hs
    split at hs
    · obtain rfl := Option.some.inj hs
      have hbusy : chkopenmode (s.opened dev) unitno omode = some .E_BUSY := by
        rcases tkOpnDev_cases s t dev unitno omode sem with
          ⟨e, heq, hb⟩ | ⟨i, rest, -, heq⟩ | ⟨i, rest, -, -, heq⟩
        · rw [heq] at hres
          have he : some (Except.error e) = some (Except.error OpenErr.E_BUSY) :=
            (returns_result s t _).symm.trans hres
          exact hb (Except.error.inj (Option.some.inj he))
        · rw [heq] at hres
          have he : some (Except.error OpenErr.E_SYS) = some (Except.error OpenErr.E_BUSY) :=
            (returns_result _ t _).symm.trans hres
          cases he
        · rw [heq, setPc_self] at hret
          split at hret <;> cases hret
      obtain ⟨o, ho, hover, hn⟩ := chkopenmode_busy hbusy
      obtain ⟨i, hi, rfl⟩ := List.mem_map.1 ho
      exact ⟨i, (h.places.queued dev i).1 hi, hover, hn⟩
    · cases hs

theorem modesOk_boot (max : Nat) (ddev : Nat → Ddev) (opncb : Nat → OpnCb) :
    ModesOk (.boot max ddev opncb) where
  places := OpenOk.boot max ddev opncb
  compatible _ _ hi := by cases hi

/-- However tasks open and close a device and its units. -/
theorem open_modes_compatible (max : Nat) (s : OpenSys) (h : (openMachine max).Reachable s) :
    ModesRight max s := by
  have inv : ModesOk s := by
    refine h.invariant ModesOk ?_ ?_
    · rintro s ⟨ddev, opncb, rfl⟩
      exact modesOk_boot max ddev opncb
    · intro s e u hok _ hs
      exact hok.step hs
  exact inv.modesRight

/-- A unit is open for reading with TD_WEXCL and the whole device for reading, when a third task
asks for writing. -/
theorem open_modes_compatible_run :
    ∃ s, ((s.opncb 0).resid = true ∧ (s.opncb 1).resid = true ∧
      s.result 2 = some (.error .E_BUSY)) ∧ ModesRight 3 s := by
  let opncb : Nat → OpnCb := fun _ => ⟨0, 0, 0, false⟩
  let p : OpenSys → Bool := fun s => (s.opncb 0).resid = true ∧ (s.opncb 1).resid = true ∧
    s.result 2 = some (.error .E_BUSY)
  obtain ⟨s, reach, hp⟩ := Lts.reachable_of_trace (L := openMachine 3) (p := p)
    (s := .boot 3 (fun _ => ⟨true, 2, false⟩) opncb)
    [.tkOpnDev 0 0 1 (TD_READ ||| TD_WEXCL) true, .openBegin 0, .openReturn 0 0, .openFinish 0,
      .tkOpnDev 1 0 0 TD_READ true, .openBegin 1, .openReturn 1 0, .openFinish 1,
      .tkOpnDev 2 0 1 TD_UPDATE true] ⟨_, opncb, rfl⟩ (by decide)
  exact ⟨s, of_decide_eq_true hp, open_modes_compatible 3 s reach⟩

end OpenSys

end Mtk3Smp
