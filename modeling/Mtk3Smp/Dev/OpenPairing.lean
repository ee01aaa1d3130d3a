import Mtk3Smp.Dev.OpenProps

/-!
# Driver calls for first opens and last closes

Whether openfn and closefn are called is decided under the lock, and the call is made after it
has been released. A unit that nobody opens in between is open only after a successful openfn.
-/

namespace Mtk3Smp

/-- The unit for which a task has a driver call to make, or to undo. -/
def OpenPc.calling (opncb : Nat → OpnCb) : OpenPc → Option (Nat × Nat)
  | .openCall i | .openRun i _ | .openFail i _ => some ((opncb i).devcb, (opncb i).unitno)
  | .closeCall _ dev unitno => some (dev, unitno)
  | .idle | .openDone _ | .closing _ | .closeRun .. | .closeEnd _ => none

/-- A task at such a place is not inside a driver call, and has none to make. -/
def OpenPc.quiet : OpenPc → Bool
  | .idle | .closing _ | .closeEnd _ => true
  | _ => false

theorem OpenPc.calling_congr {o o' : Nat → OpnCb} {pc : OpenPc}
    (h : ∀ i, pc.held = some i → (o' i).devcb = (o i).devcb ∧ (o' i).unitno = (o i).unitno) :
    pc.calling o' = pc.calling o := by
  cases pc with
  | openCall i => rw [calling, calling, (h i rfl).1, (h i rfl).2]
  | openRun i num => rw [calling, calling, (h i rfl).1, (h i rfl).2]
  | openFail i ercd => rw [calling, calling, (h i rfl).1, (h i rfl).2]
  | _ => rfl

theorem OpenPc.calling_quiet {o : Nat → OpnCb} {pc : OpenPc} (h : pc.quiet = true) :
    pc.calling o = none := by
  cases pc <;> first | rfl | cases h

namespace OpenSys

variable {s u x : OpenSys} {t v : Tid} {i num dev unitno d : Nat} {omode : Omode} {pc : OpenPc}
  {rest : List Nat} {q : Nat × Nat}

def calling (s : OpenSys) (t : Tid) : Option (Nat × Nat) := (s.pc t).calling s.opncb

/-- tk_opn_dev lets a task in only when no other one has a driver call to make for the unit. -/
def DecidesAlone (s : OpenSys) : OpenEvent → Prop
  | .tkOpnDev _ dev unitno omode sem => s.Grants dev unitno omode sem →
      (s.ddev dev).openreq = true ∨ ∀ v, s.calling v ≠ some (dev, unitno)
  | _ => True

/-- Without TDA_OPENREQ, the last driver call on the unit of an open descriptor is an openfn that
has succeeded. -/
def Paired (s : OpenSys) : Prop :=
  ∀ i, (s.opncb i).resid = true → (s.ddev (s.opncb i).devcb).openreq = false →
    ∃ num, s.last (s.opncb i).devcb (s.opncb i).unitno = some ⟨num, true, some true⟩

structure PairOk (s : OpenSys) : Prop where
  places : OpenOk s
  mine : ∀ t d unitno, (s.ddev d).openreq = false → s.calling t = some (d, unitno) →
    ∀ i ∈ s.openq d, (s.opncb i).unitno = unitno → (s.pc t).held = some i
  alone : ∀ t v d unitno, (s.ddev d).openreq = false → s.calling t = some (d, unitno) →
    s.calling v = some (d, unitno) → t = v
  good : ∀ d, (s.ddev d).openreq = false → ∀ i ∈ s.openq d,
    (∃ num, s.last d (s.opncb i).unitno = some ⟨num, true, some true⟩) ∨
      ∃ t, s.calling t = some (d, (s.opncb i).unitno)
  running : ∀ t i num, s.pc t = .openRun i num → (s.ddev (s.opncb i).devcb).openreq = false →
    s.last (s.opncb i).devcb (s.opncb i).unitno = some ⟨num, true, none⟩
  closing : ∀ t i d unitno num, s.pc t = .closeRun i d unitno num →
    num < s.calls ∧ ∀ c, s.last d unitno = some c → c.num = num → c.isOpen = false

theorem PairOk.paired (h : PairOk s) : Paired s := by
  intro i hr hreq
  have hi : i ∈ s.openq (s.opncb i).devcb := (h.places.queued _ i).2 ⟨rfl, .inl hr⟩
  rcases h.good _ hreq i hi with hgood | ⟨t, ht⟩
  · exact hgood
  · exact absurd (h.mine t _ _ hreq ht i hi rfl) (h.places.openUnheld i t hr)

/-! ## The calls after a step -/

theorem calling_self : (s.setPc t pc).calling t = pc.calling s.opncb := by
  unfold calling
  rw [setPc_self]
  rfl

theorem calling_ne (h : v ≠ t) : (s.setPc t pc).calling v = s.calling v := by
  unfold calling
  rw [setPc_ne h]
  rfl

/-- A task leaves the place where it was for a quiet one. -/
theorem PairOk.quiet (h : PairOk s) (hu : OpenOk (x.setPc t pc)) (hddev : x.ddev = s.ddev)
    (hpc : x.pc = s.pc) (hlast : x.last = s.last) (hcalls : x.calls = s.calls)
    (hq : Fewer s x) (hframe : ∀ v i, (s.pc v).held = some i →
      (x.opncb i).devcb = (s.opncb i).devcb ∧ (x.opncb i).unitno = (s.opncb i).unitno)
    (hquiet : pc.quiet = true)
    (hleft : ∀ d, (s.ddev d).openreq = false → ∀ i ∈ x.openq d,
      s.calling t ≠ some (d, (s.opncb i).unitno)) :
    PairOk (x.setPc t pc) := by
  have hcall : ∀ v, v ≠ t → (x.setPc t pc).calling v = s.calling v := by
    intro v hv
    rw [calling_ne hv]
    unfold calling
    rw [hpc]
    exact OpenPc.calling_congr (hframe v)
  have hself : (x.setPc t pc).calling t = none := by
    rw [calling_self]
    exact OpenPc.calling_quiet hquiet
  -- nobody but the others calls
  have hback : ∀ v d unitno, (x.setPc t pc).calling v = some (d, unitno) →
      v ≠ t ∧ s.calling v = some (d, unitno) := by
    intro v d unitno hv
    have hvt : v ≠ t := by
      rintro rfl
      rw [hself] at hv
      cases hv
    rw [hcall v hvt] at hv
    exact ⟨hvt, hv⟩
  have hplace : ∀ v, (x.setPc t pc).pc v = pc ∨ (x.setPc t pc).pc v = s.pc v := by
    intro v
    by_cases hvt : v = t
    · subst hvt
      exact .inl setPc_self
    · exact .inr ((setPc_ne hvt).trans (congrFun hpc v))
  constructor
  case places => exact hu
  case mine =>
    intro v d unitno hreq hv i hi hunit
    obtain ⟨hvt, hv'⟩ := hback v d unitno hv
    obtain ⟨hi', hiu, -⟩ := hq d i hi
    rw [setPc_ne hvt, hpc]
    exact h.mine v d unitno (hddev ▸ hreq) hv' i hi' (hiu.symm.trans hunit)
  case alone =>
    exact fun v w d unitno hreq hv hw =>
      h.alone v w d unitno (hddev ▸ hreq) (hback v d unitno hv).2 (hback w d unitno hw).2
  case good =>
    intro d hreq i hi
    obtain ⟨hi', hiu, -⟩ := hq d i hi
    show (∃ num, x.last d (x.opncb i).unitno = _) ∨
      ∃ w, (x.setPc t pc).calling w = some (d, (x.opncb i).unitno)
    rw [hlast, hiu]
    rcases h.good d (hddev ▸ hreq) i hi' with hgood | ⟨w, hw⟩
    · exact .inl hgood
    · have hwt : w ≠ t := by
        rintro rfl
        exact hleft d (hddev ▸ hreq) i hi hw
      exact .inr ⟨w, (hcall w hwt).trans hw⟩
  case running =>
    intro v i num hv hreq
    rcases hplace v with hp | hp
    · rw [hp] at hv
      subst hv
      cases hquiet
    · rw [hp] at hv
      obtain ⟨hd, hn⟩ := hframe v i (by rw [hv]; rfl)
      have hreq' : (x.ddev (x.opncb i).devcb).openreq = false := hreq
      rw [hddev, hd] at hreq'
      show x.last (x.opncb i).devcb (x.opncb i).unitno = _
      rw [hlast, hd, hn]
      exact h.running v i num hv hreq'
  case closing =>
    intro v i d unitno num hv
    rcases hplace v with hp | hp
    · rw [hp] at hv
      subst hv
      cases hquiet
    · rw [hp] at hv
      have hclose := h.closing v i d unitno num hv
      show num < x.calls ∧ ∀ c, x.last d unitno = some c → _
      rw [hcalls, hlast]
      exact hclose

/-- Of a task that is calling for a unit, the pc is not one of these. -/
theorem calling_of_pc (h : s.pc t = pc) (hn : pc.calling s.opncb = none) :
    s.calling t ≠ some q := by
  unfold calling
  rw [h, hn]
  exact nofun

theorem knlChkopen_iff : s.knlChkopen dev unitno = true ↔
    ∃ i ∈ s.openq dev, (s.opncb i).unitno = unitno := by
  unfold knlChkopen opened
  rw [List.any_eq_true]
  constructor
  · rintro ⟨o, ho, hu⟩
    obtain ⟨i, hi, rfl⟩ := List.mem_map.1 ho
    exact ⟨i, hi, of_decide_eq_true hu⟩
  · rintro ⟨i, hi, hu⟩
    exact ⟨s.opncb i, List.mem_map_of_mem hi, decide_eq_true hu⟩

/-- tk_opn_dev lets a task in. -/
theorem PairOk.newOpnCB (h : PairOk s) (hfree : s.free = i :: rest) (hidle : s.pc t = .idle)
    (halone : (s.ddev dev).openreq = true ∨ ∀ v, s.calling v ≠ some (dev, unitno))
    (hpc : pc = if s.knlChkopen dev unitno && !(s.ddev dev).openreq then .openDone i
      else .openCall i)
    (hu : OpenOk ((s.newOpnCB dev unitno omode i rest).setPc t pc)) :
    PairOk ((s.newOpnCB dev unitno omode i rest).setPc t pc) := by
  have hi : i ∈ s.free := by rw [hfree]; exact List.mem_cons_self
  have hout : ∀ d, i ∉ s.openq d := fun d hd => h.places.pool.apart d i hd hi
  have hheld : pc.held = some i := by
    rw [hpc]
    split <;> rfl
  have hother : ∀ v, v ≠ t →
      ((s.newOpnCB dev unitno omode i rest).setPc t pc).calling v = s.calling v := by
    intro v hv
    rw [calling_ne hv]
    refine OpenPc.calling_congr fun j hj => ?_
    have hji : j ≠ i := by
      rintro rfl
      exact h.places.unheld j hi v hj
    rw [newOpnCB_ne hji]
    exact ⟨rfl, rfl⟩
  have hnot : ∀ q, s.calling t ≠ some q := fun q => calling_of_pc hidle rfl
  -- the task itself has a call to make only when nobody has the unit open
  have hself : ∀ q, ((s.newOpnCB dev unitno omode i rest).setPc t pc).calling t = some q →
      q = (dev, unitno) ∧ ((s.ddev dev).openreq = false →
        ∀ j ∈ s.openq dev, (s.opncb j).unitno ≠ unitno) := by
    intro q hq
    rw [calling_self, hpc] at hq
    split at hq
    · cases hq
    · rename_i hcond
      have hqe : some (((s.newOpnCB dev unitno omode i rest).opncb i).devcb,
          ((s.newOpnCB dev unitno omode i rest).opncb i).unitno) = some q := hq
      rw [newOpnCB_self] at hqe
      refine ⟨(Option.some.inj hqe).symm, fun hreq j hj hunit => hcond ?_⟩
      rw [knlChkopen_iff.2 ⟨j, hj, hunit⟩, hreq]
      rfl
  constructor
  case places => exact hu
  case mine =>
    intro v d w hreq hv j hj hunit
    have hunit' : ((s.newOpnCB dev unitno omode i rest).opncb j).unitno = w := hunit
    by_cases hvt : v = t
    · subst hvt
      obtain ⟨hq, hnone⟩ := hself _ hv
      obtain ⟨rfl, rfl⟩ := Prod.mk.inj hq
      rw [setPc_self, hheld]
      rcases FreePool.mem_append.1 hj with hj' | ⟨-, rfl⟩
      · have hji : j ≠ i := by
          rintro rfl
          exact hout d hj'
        rw [newOpnCB_ne hji] at hunit'
        exact absurd hunit' (hnone hreq j hj')
      · rfl
    · rw [hother v hvt] at hv
      rw [setPc_ne hvt]
      rcases FreePool.mem_append.1 hj with hj' | ⟨rfl, rfl⟩
      · have hji : j ≠ i := by
          rintro rfl
          exact hout d hj'
        rw [newOpnCB_ne hji] at hunit'
        exact h.mine v d w hreq hv j hj' hunit'
      · rw [newOpnCB_self] at hunit'
        obtain rfl := hunit'
        rcases halone with hr | hnone
        · rw [show (s.ddev d).openreq = false from hreq] at hr
          cases hr
        · exact absurd hv (hnone v)
  case alone =>
    intro v w d unit hreq hv hw
    have clash : ∀ v, v ≠ t → s.calling v = some (d, unit) →
        ((s.newOpnCB dev unitno omode i rest).setPc t pc).calling t = some (d, unit) → False := by
      intro v' _ hs ht
      obtain ⟨rfl, rfl⟩ := Prod.mk.inj (hself _ ht).1
      rcases halone with hr | hnone
      · rw [show (s.ddev d).openreq = false from hreq] at hr
        cases hr
      · exact hnone v' hs
    by_cases hvt : v = t
    · by_cases hwt : w = t
      · rw [hvt, hwt]
      · rw [hother w hwt] at hw
        rw [hvt] at hv
        exact (clash w hwt hw hv).elim
    · rw [hother v hvt] at hv
      by_cases hwt : w = t
      · rw [hwt] at hw
        exact (clash v hvt hv hw).elim
      · rw [hother w hwt] at hw
        exact h.alone v w d unit hreq hv hw
  case good =>
    intro d hreq j hj
    have keep : ∀ k, (∃ num, s.last d k = some ⟨num, true, some true⟩) ∨
        (∃ v, s.calling v = some (d, k)) → (∃ num, s.last d k = some ⟨num, true, some true⟩) ∨
        ∃ v, ((s.newOpnCB dev unitno omode i rest).setPc t pc).calling v = some (d, k) := by
      rintro k (hgood | ⟨v, hv⟩)
      · exact .inl hgood
      · have hvt : v ≠ t := by
          rintro rfl
          exact hnot _ hv
        exact .inr ⟨v, (hother v hvt).trans hv⟩
    show (∃ num, s.last d ((s.newOpnCB dev unitno omode i rest).opncb j).unitno = _) ∨
      ∃ v, _ = some (d, ((s.newOpnCB dev unitno omode i rest).opncb j).unitno)
    rcases FreePool.mem_append.1 hj with hj' | ⟨rfl, rfl⟩
    · have hji : j ≠ i := by
        rintro rfl
        exact hout d hj'
      rw [newOpnCB_ne hji]
      exact keep _ (h.good d hreq j hj')
    · rw [newOpnCB_self]
      by_cases hcond : (s.knlChkopen d unitno && !(s.ddev d).openreq) = true
      · obtain ⟨k, hk, hunit⟩ := knlChkopen_iff.1 (Bool.and_eq_true_iff.1 hcond).1
        have hgood := h.good d hreq k hk
        rw [hunit] at hgood
        exact keep _ hgood
      · refine .inr ⟨t, ?_⟩
        rw [calling_self, hpc, if_neg hcond]
        show some (((s.newOpnCB d unitno omode j rest).opncb j).devcb,
          ((s.newOpnCB d unitno omode j rest).opncb j).unitno) = _
        rw [newOpnCB_self]
  case running =>
    intro v j num hv hreq
    by_cases hvt : v = t
    · subst hvt
      rw [setPc_self, hpc] at hv
      split at hv <;> cases hv
    · rw [setPc_ne hvt] at hv
      have hji : j ≠ i := by
        rintro rfl
        exact h.places.unheld j hi v (by rw [show s.pc v = _ from hv]; rfl)
      have hreq' : (s.ddev ((s.newOpnCB dev unitno omode i rest).opncb j).devcb).openreq = false :=
        hreq
      show s.last ((s.newOpnCB dev unitno omode i rest).opncb j).devcb
        ((s.newOpnCB dev unitno omode i rest).opncb j).unitno = _
      rw [newOpnCB_ne hji] at hreq' ⊢
      exact h.running v j num hv hreq'
  case closing =>
    intro v j d w num hv
    by_cases hvt : v = t
    · subst hvt
      rw [setPc_self, hpc] at hv
      split at hv <;> cases hv
    · rw [setPc_ne hvt] at hv
      exact h.closing v j d w num hv

/-! ## Driver calls -/

theorem last_beginCall {isOpen : Bool} {w : Nat} :
    (s.beginCall dev unitno isOpen).last d w =
      if d = dev ∧ w = unitno then some ⟨s.calls, isOpen, none⟩ else s.last d w := by
  show Function.update s.last dev (Function.update (s.last dev) unitno _) d w = _
  by_cases hd : d = dev
  · subst hd
    rw [Function.update_self]
    by_cases hw : w = unitno
    · subst hw
      rw [Function.update_self, if_pos ⟨rfl, rfl⟩]
    · rw [Function.update_of_ne hw, if_neg fun hc => hw hc.2]
  · rw [Function.update_of_ne hd, if_neg fun hc => hd hc.1]

theorem last_endCall {ok : Bool} {w : Nat} :
    (s.endCall dev unitno num ok).last d w = if d = dev ∧ w = unitno then
      (s.last d w).map fun c => if c.num = num then { c with result := some ok } else c
      else s.last d w := by
  show Function.update s.last dev (Function.update (s.last dev) unitno _) d w = _
  by_cases hd : d = dev
  · subst hd
    rw [Function.update_self]
    by_cases hw : w = unitno
    · subst hw
      rw [Function.update_self, if_pos ⟨rfl, rfl⟩]
    · rw [Function.update_of_ne hw, if_neg fun hc => hw hc.2]
  · rw [Function.update_of_ne hd, if_neg fun hc => hd hc.1]

/-- The return of another call changes nothing. -/
theorem last_endCall_other {ok : Bool} {w : Nat} {c : DrvCall} (hl : s.last d w = some c)
    (hn : d = dev → w = unitno → c.num ≠ num) :
    (s.endCall dev unitno num ok).last d w = some c := by
  rw [last_endCall]
  split
  · rename_i hc
    rw [hl]
    show some (if c.num = num then _ else c) = some c
    rw [if_neg (hn hc.1 hc.2)]
  · exact hl

/-- Which call is the last one does not change when a call returns. -/
theorem last_of_endCall {ok : Bool} {w : Nat} {c : DrvCall}
    (hl : (s.endCall dev unitno num ok).last d w = some c) :
    ∃ c', s.last d w = some c' ∧ c'.num = c.num ∧ c'.isOpen = c.isOpen := by
  rw [last_endCall] at hl
  split at hl
  · obtain ⟨c', hc', hcc⟩ := Option.map_eq_some_iff.1 hl
    refine ⟨c', hc', ?_⟩
    split at hcc
    · rw [← hcc]
      exact ⟨rfl, rfl⟩
    · rw [hcc]
      exact ⟨rfl, rfl⟩
  · exact ⟨c, hl, rfl, rfl⟩

/-- openfn is called. -/
theorem PairOk.openBegin (h : PairOk s) (hpc : s.pc t = .openCall i) :
    PairOk ((s.beginCall (s.opncb i).devcb (s.opncb i).unitno true).setPc t
      (.openRun i s.calls)) := by
  have hcall : ∀ v, ((s.beginCall (s.opncb i).devcb (s.opncb i).unitno true).setPc t
      (.openRun i s.calls)).calling v = s.calling v := by
    intro v
    by_cases hvt : v = t
    · subst hvt
      rw [calling_self]
      unfold calling
      rw [hpc]
      rfl
    · exact calling_ne hvt
  have hmine : s.calling t = some ((s.opncb i).devcb, (s.opncb i).unitno) := by
    unfold calling
    rw [hpc]
    rfl
  have hset : OpenOk (s.setPc t (.openRun i s.calls)) :=
    h.places.setPc (by rw [hpc]; rfl) (by rw [hpc]; rfl)
  constructor
  case places => exact hset.withCalls _ _
  case mine =>
    intro v d w hreq hv j hj hunit
    rw [hcall] at hv
    have hheld := h.mine v d w hreq hv j hj hunit
    by_cases hvt : v = t
    · subst hvt
      rw [hpc] at hheld
      rw [setPc_self]
      exact hheld
    · rw [setPc_ne hvt]
      exact hheld
  case alone =>
    intro v w d k hreq hv hw
    rw [hcall] at hv hw
    exact h.alone v w d k hreq hv hw
  case good =>
    intro d hreq j hj
    show (∃ num, (s.beginCall _ _ true).last d (s.opncb j).unitno = _) ∨
      ∃ v, _ = some (d, (s.opncb j).unitno)
    rw [last_beginCall]
    split
    · rename_i hc
      exact .inr ⟨t, by rw [hcall, hmine, hc.1, hc.2]⟩
    · rcases h.good d hreq j hj with hgood | ⟨v, hv⟩
      · exact .inl hgood
      · exact .inr ⟨v, (hcall v).trans hv⟩
  case running =>
    intro v j num hv hreq
    show (s.beginCall _ _ true).last (s.opncb j).devcb (s.opncb j).unitno = _
    rw [last_beginCall]
    by_cases hvt : v = t
    · subst hvt
      rw [setPc_self] at hv
      obtain ⟨rfl, rfl⟩ := OpenPc.openRun.inj hv
      rw [if_pos ⟨rfl, rfl⟩]
    · rw [setPc_ne hvt] at hv
      rw [if_neg]
      · exact h.running v j num hv hreq
      · intro hc
        have hv' : s.calling v = some ((s.opncb j).devcb, (s.opncb j).unitno) := by
          unfold calling
          rw [show s.pc v = _ from hv]
          rfl
        rw [← hc.1, ← hc.2] at hmine
        exact hvt (h.alone v t _ _ hreq hv' hmine)
  case closing =>
    intro v j d w num hv
    by_cases hvt : v = t
    · subst hvt
      rw [setPc_self] at hv
      cases hv
    · rw [setPc_ne hvt] at hv
      obtain ⟨hlt, hclose⟩ := h.closing v j d w num hv
      refine ⟨Nat.lt_succ_of_lt hlt, fun c hc hnum => ?_⟩
      have hc' : (s.beginCall (s.opncb i).devcb (s.opncb i).unitno true).last d w = some c := hc
      rw [last_beginCall] at hc'
      split at hc'
      · obtain rfl := Option.some.inj hc'
        exact absurd hnum (Nat.ne_of_gt hlt)
      · exact hclose c hc' hnum

/-- openfn has returned. -/
theorem PairOk.openReturn {ercd : Int} (h : PairOk s) (hpc : s.pc t = .openRun i num)
    (hnext : pc = if 0 ≤ ercd then .openDone i else .openFail i ercd) :
    PairOk ((s.endCall (s.opncb i).devcb (s.opncb i).unitno num (0 ≤ ercd)).setPc t pc) := by
  have hheld : pc.held = some i := by
    rw [hnext]
    split <;> rfl
  have hlisted : pc.listed = some i := by
    rw [hnext]
    split <;> rfl
  have hmine : s.calling t = some ((s.opncb i).devcb, (s.opncb i).unitno) := by
    unfold calling
    rw [hpc]
    rfl
  have hset : OpenOk (s.setPc t pc) :=
    h.places.setPc (by rw [hpc, hheld]; rfl) (by rw [hpc, hlisted]; rfl)
  have hback : ∀ v q, ((s.endCall (s.opncb i).devcb (s.opncb i).unitno num (0 ≤ ercd)).setPc t
      pc).calling v = some q → s.calling v = some q := by
    intro v q hq
    by_cases hvt : v = t
    · subst hvt
      rw [calling_self, hnext] at hq
      split at hq
      · cases hq
      · rw [hmine]
        exact hq
    · rw [calling_ne hvt] at hq
      exact hq
  constructor
  case places => exact hset.withCalls _ _
  case mine =>
    intro v d w hreq hv j hj hunit
    have hh := h.mine v d w hreq (hback v _ hv) j hj hunit
    by_cases hvt : v = t
    · subst hvt
      rw [hpc] at hh
      rw [setPc_self, hheld]
      exact hh
    · rw [setPc_ne hvt]
      exact hh
  case alone => exact fun v w d k hreq hv hw => h.alone v w d k hreq (hback v _ hv) (hback w _ hw)
  case good =>
    intro d hreq j hj
    show (∃ m, (s.endCall _ _ num _).last d (s.opncb j).unitno = _) ∨
      ∃ v, _ = some (d, (s.opncb j).unitno)
    by_cases hc : d = (s.opncb i).devcb ∧ (s.opncb j).unitno = (s.opncb i).unitno
    · by_cases hercd : 0 ≤ ercd
      · have hrun := h.running t i num hpc (hc.1 ▸ hreq)
        refine .inl ⟨num, ?_⟩
        rw [last_endCall, if_pos hc, hc.1, hc.2, hrun, Option.map_some, if_pos rfl,
          decide_eq_true hercd]
      · refine .inr ⟨t, ?_⟩
        rw [calling_self, hnext, if_neg hercd, hc.1, hc.2]
        rfl
    · rcases h.good d hreq j hj with ⟨m, hgood⟩ | ⟨v, hv⟩
      · exact .inl ⟨m, last_endCall_other hgood fun hd hw => absurd ⟨hd, hw⟩ hc⟩
      · have hvt : v ≠ t := by
          rintro rfl
          rw [hmine] at hv
          obtain ⟨hd, hw⟩ := Prod.mk.inj (Option.some.inj hv)
          exact hc ⟨hd.symm, hw.symm⟩
        exact .inr ⟨v, (calling_ne hvt).trans hv⟩
  case running =>
    intro v j m hv hreq
    by_cases hvt : v = t
    · subst hvt
      rw [setPc_self, hnext] at hv
      split at hv <;> cases hv
    · rw [setPc_ne hvt] at hv
      apply last_endCall_other (h.running v j m hv hreq)
      intro hd hw
      have hv' : s.calling v = some ((s.opncb j).devcb, (s.opncb j).unitno) := by
        unfold calling
        rw [show s.pc v = _ from hv]
        rfl
      rw [← hd, ← hw] at hmine
      exact absurd (h.alone v t _ _ hreq hv' hmine) hvt
  case closing =>
    intro v j d w m hv
    by_cases hvt : v = t
    · subst hvt
      rw [setPc_self, hnext] at hv
      split at hv <;> cases hv
    · rw [setPc_ne hvt] at hv
      obtain ⟨hlt, hclose⟩ := h.closing v j d w m hv
      refine ⟨hlt, fun c hc hnum => ?_⟩
      obtain ⟨c', hc', hn, ho⟩ := last_of_endCall hc
      rw [← ho]
      exact hclose c' hc' (hn.trans hnum)

/-- closefn is called. -/
theorem PairOk.closeBegin (h : PairOk s) (hpc : s.pc t = .closeCall i dev unitno) :
    PairOk ((s.beginCall dev unitno false).setPc t (.closeRun i dev unitno s.calls)) := by
  have hmine : s.calling t = some (dev, unitno) := by
    unfold calling
    rw [hpc]
    rfl
  have hset : OpenOk (s.setPc t (.closeRun i dev unitno s.calls)) :=
    h.places.setPc (by rw [hpc]; rfl) (by rw [hpc]; rfl)
  have hback : ∀ v q, ((s.beginCall dev unitno false).setPc t
      (.closeRun i dev unitno s.calls)).calling v = some q → v ≠ t ∧ s.calling v = some q := by
    intro v q hq
    have hvt : v ≠ t := by
      rintro rfl
      rw [calling_self] at hq
      cases hq
    rw [calling_ne hvt] at hq
    exact ⟨hvt, hq⟩
  constructor
  case places => exact hset.withCalls _ _
  case mine =>
    intro v d w hreq hv j hj hunit
    obtain ⟨hvt, hv'⟩ := hback v _ hv
    rw [setPc_ne hvt]
    exact h.mine v d w hreq hv' j hj hunit
  case alone =>
    exact fun v w d k hreq hv hw => h.alone v w d k hreq (hback v _ hv).2 (hback w _ hw).2
  case good =>
    intro d hreq j hj
    -- nobody has the unit open
    have hc : ¬ (d = dev ∧ (s.opncb j).unitno = unitno) := by
      rintro ⟨rfl, hw⟩
      have hheld := h.mine t d unitno hreq hmine j hj hw
      exact h.places.held_unlisted hheld (by rw [hpc]; rfl) d hj
    show (∃ m, (s.beginCall dev unitno false).last d (s.opncb j).unitno = _) ∨
      ∃ v, _ = some (d, (s.opncb j).unitno)
    rw [last_beginCall, if_neg hc]
    rcases h.good d hreq j hj with hgood | ⟨v, hv⟩
    · exact .inl hgood
    · have hvt : v ≠ t := by
        rintro rfl
        rw [hmine] at hv
        obtain ⟨hd, hw⟩ := Prod.mk.inj (Option.some.inj hv)
        exact hc ⟨hd.symm, hw.symm⟩
      exact .inr ⟨v, (calling_ne hvt).trans hv⟩
  case running =>
    intro v j m hv hreq
    by_cases hvt : v = t
    · subst hvt
      rw [setPc_self] at hv
      cases hv
    · rw [setPc_ne hvt] at hv
      show (s.beginCall dev unitno false).last (s.opncb j).devcb (s.opncb j).unitno = _
      rw [last_beginCall, if_neg]
      · exact h.running v j m hv hreq
      · intro hc
        have hv' : s.calling v = some ((s.opncb j).devcb, (s.opncb j).unitno) := by
          unfold calling
          rw [show s.pc v = _ from hv]
          rfl
        rw [← hc.1, ← hc.2] at hmine
        exact hvt (h.alone v t _ _ hreq hv' hmine)
  case closing =>
    intro v j d w m hv
    by_cases hvt : v = t
    · subst hvt
      rw [setPc_self] at hv
      obtain ⟨rfl, rfl, rfl, rfl⟩ := OpenPc.closeRun.inj hv
      refine ⟨Nat.lt_succ_self s.calls, fun c hc _ => ?_⟩
      have hc' : (s.beginCall dev unitno false).last dev unitno = some c := hc
      rw [last_beginCall, if_pos ⟨rfl, rfl⟩] at hc'
      obtain rfl := Option.some.inj hc'
      rfl
    · rw [setPc_ne hvt] at hv
      obtain ⟨hlt, hclose⟩ := h.closing v j d w m hv
      refine ⟨Nat.lt_succ_of_lt hlt, fun c hc hnum => ?_⟩
      have hc' : (s.beginCall dev unitno false).last d w = some c := hc
      rw [last_beginCall] at hc'
      split at hc'
      · obtain rfl := Option.some.inj hc'
        rfl
      · exact hclose c hc' hnum

/-- closefn has returned. -/
theorem PairOk.closeReturn {ok : Bool} (h : PairOk s) (hpc : s.pc t = .closeRun i dev unitno num) :
    PairOk ((s.endCall dev unitno num ok).setPc t (.closeEnd i)) := by
  have hset : OpenOk (s.setPc t (.closeEnd i)) :=
    h.places.setPc (by rw [hpc]; rfl) (by rw [hpc]; rfl)
  have hcall : ∀ v, ((s.endCall dev unitno num ok).setPc t (.closeEnd i)).calling v =
      s.calling v := by
    intro v
    by_cases hvt : v = t
    · subst hvt
      rw [calling_self]
      unfold calling
      rw [hpc]
      rfl
    · exact calling_ne hvt
  -- the call that returns is not an openfn
  have keep : ∀ d w c, s.last d w = some c → c.isOpen = true →
      (s.endCall dev unitno num ok).last d w = some c := by
    intro d w c hc hopen
    refine last_endCall_other hc ?_
    rintro rfl rfl hnum
    rw [(h.closing t i d w num hpc).2 c hc hnum] at hopen
    cases hopen
  constructor
  case places => exact hset.withCalls _ _
  case mine =>
    intro v d w hreq hv j hj hunit
    rw [hcall] at hv
    have hheld := h.mine v d w hreq hv j hj hunit
    by_cases hvt : v = t
    · subst hvt
      rw [hpc] at hheld
      rw [setPc_self]
      exact hheld
    · rw [setPc_ne hvt]
      exact hheld
  case alone =>
    intro v w d k hreq hv hw
    rw [hcall] at hv hw
    exact h.alone v w d k hreq hv hw
  case good =>
    intro d hreq j hj
    rcases h.good d hreq j hj with ⟨m, hgood⟩ | ⟨v, hv⟩
    · exact .inl ⟨m, keep d _ _ hgood rfl⟩
    · exact .inr ⟨v, (hcall v).trans hv⟩
  case running =>
    intro v j m hv hreq
    by_cases hvt : v = t
    · subst hvt
      rw [setPc_self] at hv
      cases hv
    · rw [setPc_ne hvt] at hv
      exact keep _ _ _ (h.running v j m hv hreq) rfl
  case closing =>
    intro v j d w m hv
    by_cases hvt : v = t
    · subst hvt
      rw [setPc_self] at hv
      cases hv
    · rw [setPc_ne hvt] at hv
      obtain ⟨hlt, hclose⟩ := h.closing v j d w m hv
      refine ⟨hlt, fun c hc hnum => ?_⟩
      obtain ⟨c', hc', hn, ho⟩ := last_of_endCall hc
      rw [← ho]
      exact hclose c' hc' (hn.trans hnum)

/-- The last descriptor of a unit leaves the queue: closefn is to be called. -/
theorem PairOk.closeSection (h : PairOk s) (hpc : s.pc t = .closing i)
    (hlast : ((s.knlDelOpnCB i).knlChkopen (s.opncb i).devcb (s.opncb i).unitno &&
      !(s.ddev (s.opncb i).devcb).openreq) ≠ true) :
    PairOk ((s.knlDelOpnCB i).setPc t
      (.closeCall i (s.opncb i).devcb (s.opncb i).unitno)) := by
  have hl : (s.pc t).listed = some i := by rw [hpc]; rfl
  have hmem := h.places.mem_openq hl
  have hf := fewer_knlDelOpnCB h.places hmem
  have hother : ∀ v, v ≠ t → ((s.knlDelOpnCB i).setPc t
      (.closeCall i (s.opncb i).devcb (s.opncb i).unitno)).calling v = s.calling v := by
    intro v hvt
    rw [calling_ne hvt]
    exact OpenPc.calling_congr fun j _ => ⟨setResid_frame.1, setResid_frame.2.1⟩
  have hself : ((s.knlDelOpnCB i).setPc t
      (.closeCall i (s.opncb i).devcb (s.opncb i).unitno)).calling t =
      some ((s.opncb i).devcb, (s.opncb i).unitno) := calling_self
  -- before the step somebody calling for the unit would be calling for this descriptor
  have hnobody : ∀ v, (s.ddev (s.opncb i).devcb).openreq = false →
      s.calling v ≠ some ((s.opncb i).devcb, (s.opncb i).unitno) := by
    intro v hreq hv
    have hheld := h.mine v _ _ hreq hv i hmem rfl
    obtain rfl := h.places.unique v t i hheld (OpenPc.held_of_listed hl)
    unfold calling at hv
    rw [hpc] at hv
    cases hv
  constructor
  case places => exact h.places.knlDelOpnCB hl rfl rfl
  case mine =>
    intro v d w hreq hv j hj hunit
    obtain ⟨hj', hju, -⟩ := hf d j hj
    by_cases hvt : v = t
    · subst hvt
      rw [hself] at hv
      obtain ⟨rfl, rfl⟩ := Prod.mk.inj (Option.some.inj hv)
      have hopen : (s.knlDelOpnCB i).knlChkopen (s.opncb i).devcb (s.opncb i).unitno = true :=
        knlChkopen_iff.2 ⟨j, hj, hunit⟩
      refine absurd ?_ hlast
      rw [hopen, show (s.ddev (s.opncb i).devcb).openreq = false from hreq]
      rfl
    · rw [hother v hvt] at hv
      rw [setPc_ne hvt]
      exact h.mine v d w hreq hv j hj' (hju.symm.trans hunit)
  case alone =>
    intro v w d k hreq hv hw
    by_cases hvt : v = t
    · by_cases hwt : w = t
      · rw [hvt, hwt]
      · rw [hvt, hself] at hv
        rw [hother w hwt, ← hv] at hw
        obtain ⟨rfl, -⟩ := Prod.mk.inj (Option.some.inj hv)
        exact absurd hw (hnobody w hreq)
    · rw [hother v hvt] at hv
      by_cases hwt : w = t
      · rw [hwt, hself] at hw
        rw [← hw] at hv
        obtain ⟨rfl, -⟩ := Prod.mk.inj (Option.some.inj hw)
        exact absurd hv (hnobody v hreq)
      · rw [hother w hwt] at hw
        exact h.alone v w d k hreq hv hw
  case good =>
    intro d hreq j hj
    obtain ⟨hj', hju, -⟩ := hf d j hj
    show (∃ num, s.last d ((s.knlDelOpnCB i).opncb j).unitno = _) ∨
      ∃ v, _ = some (d, ((s.knlDelOpnCB i).opncb j).unitno)
    rw [hju]
    rcases h.good d hreq j hj' with hgood | ⟨v, hv⟩
    · exact .inl hgood
    · have hvt : v ≠ t := by
        rintro rfl
        unfold calling at hv
        rw [hpc] at hv
        cases hv
      exact .inr ⟨v, (hother v hvt).trans hv⟩
  case running =>
    intro v j m hv hreq
    by_cases hvt : v = t
    · subst hvt
      rw [setPc_self] at hv
      cases hv
    · rw [setPc_ne hvt] at hv
      have hreq' : (s.ddev ((s.knlDelOpnCB i).opncb j).devcb).openreq = false := hreq
      show s.last ((s.knlDelOpnCB i).opncb j).devcb ((s.knlDelOpnCB i).opncb j).unitno = _
      rw [show ((s.knlDelOpnCB i).opncb j).devcb = _ from setResid_frame.1] at hreq' ⊢
      rw [show ((s.knlDelOpnCB i).opncb j).unitno = _ from setResid_frame.2.1]
      exact h.running v j m hv hreq'
  case closing =>
    intro v j d w m hv
    by_cases hvt : v = t
    · subst hvt
      rw [setPc_self] at hv
      cases hv
    · rw [setPc_ne hvt] at hv
      exact h.closing v j d w m hv

/-! ## Runs -/

theorem setResid_same (i : Nat) (b : Bool) (j : Nat) :
    ((s.setResid i b).opncb j).devcb = (s.opncb j).devcb ∧
      ((s.setResid i b).opncb j).unitno = (s.opncb j).unitno :=
  ⟨setResid_frame.1, setResid_frame.2.1⟩

theorem PairOk.tkOpnDev (h : PairOk s) (hpc : s.pc t = .idle) (sem : Bool)
    (halone : s.DecidesAlone (.tkOpnDev t dev unitno omode sem)) :
    PairOk (s.tkOpnDev t dev unitno omode sem) := by
  have hu : OpenOk (s.tkOpnDev t dev unitno omode sem) := h.places.tkOpnDev hpc sem
  rcases tkOpnDev_cases s t dev unitno omode sem with
    ⟨e, heq, -⟩ | ⟨i, rest, hfree, heq⟩ | ⟨i, rest, hfree, hgrant, heq⟩
  · rw [heq] at hu ⊢
    exact h.quiet hu rfl rfl rfl rfl (fewer_same rfl rfl) (fun _ _ _ => ⟨rfl, rfl⟩) rfl
      fun _ _ _ _ => calling_of_pc hpc rfl
  · rw [heq] at hu ⊢
    have hi : i ∈ s.free := by rw [hfree]; exact List.mem_cons_self
    refine h.quiet hu rfl rfl rfl rfl (fewer_undone h.places hfree) (fun v j hj => ?_) rfl
      fun _ _ _ _ => calling_of_pc hpc rfl
    have hji : j ≠ i := by
      rintro rfl
      exact h.places.unheld j hi v hj
    have hold : (s.newOpnCB dev unitno omode i rest).opncb j = s.opncb j := newOpnCB_ne hji
    rw [← hold]
    exact setResid_same i false j
  · rw [heq] at hu ⊢
    exact h.newOpnCB hfree hpc (halone hgrant) rfl hu

theorem PairOk.step {max : Nat} {e : OpenEvent} (h : PairOk s) (halone : s.DecidesAlone e)
    (hs : s.step max e = some u) : PairOk u := by
  have hu := h.places.step hs
  cases e with
  | tkOpnDev t dev unitno omode sem =>
    simp only [OpenSys.step] at hs
    split at hs
    · rename_i hpc
      obtain rfl := Option.some.inj hs
      exact h.tkOpnDev hpc sem halone
    · cases hs
  | openBegin t =>
    simp only [OpenSys.step] at hs
    split at hs
    · rename_i i hpc
      obtain rfl := Option.some.inj hs
      exact h.openBegin hpc
    · cases hs
  | openReturn t ercd =>
    simp only [OpenSys.step] at hs
    split at hs
    · rename_i i num hpc
      obtain rfl := Option.some.inj hs
      exact h.openReturn hpc rfl
    · cases hs
  | openFinish t =>
    simp only [OpenSys.step] at hs
    split at hs
    · rename_i i hpc
      obtain rfl := Option.some.inj hs
      exact h.quiet hu rfl rfl rfl rfl (fewer_setResid s i true)
        (fun _ j _ => setResid_same i true j) rfl fun _ _ _ _ => calling_of_pc hpc rfl
    · rename_i i ercd hpc
      obtain rfl := Option.some.inj hs
      have hl : (s.pc t).listed = some i := by rw [hpc]; rfl
      have hmem := h.places.mem_openq hl
      refine h.quiet hu rfl rfl rfl rfl (fewer_knlDelOpnCB h.places hmem)
        (fun _ j _ => setResid_same i false j) rfl ?_
      -- nobody else has the unit open
      intro d hreq j hj hc
      obtain ⟨hj', hji⟩ := (h.places.pool.mem_erase hmem).1 hj
      have hheld := h.mine t d _ hreq hc j hj' rfl
      rw [OpenPc.held_of_listed hl] at hheld
      exact hji (Option.some.inj hheld).symm
    · cases hs
  | tkClsDev t dd =>
    simp only [OpenSys.step] at hs
    split at hs
    · rename_i hpc
      obtain rfl := Option.some.inj hs
      unfold OpenSys.tkClsDev at hu ⊢
      split at hu
      · rename_i hdd
        rw [if_pos hdd]
        exact h
      · rename_i hdd
        rw [if_neg hdd]
        split at hu
        · rename_i hr
          rw [if_pos hr]
          exact h.quiet hu rfl rfl rfl rfl (fewer_setResid s (dd - 1) false)
            (fun _ j _ => setResid_same (dd - 1) false j) rfl
            fun _ _ _ _ => calling_of_pc hpc rfl
        · rename_i hr
          rw [if_neg hr]
          exact h
    · cases hs
  | closeSection t =>
    simp only [OpenSys.step] at hs
    split at hs
    · rename_i i hpc
      obtain rfl := Option.some.inj hs
      have hl : (s.pc t).listed = some i := by rw [hpc]; rfl
      have hf := fewer_knlDelOpnCB h.places (h.places.mem_openq hl)
      unfold OpenSys.closeSection at hu ⊢
      dsimp only at hu ⊢
      split
      · rename_i hc
        rw [if_pos hc] at hu
        exact h.quiet hu rfl rfl rfl rfl hf (fun _ j _ => setResid_same i false j) rfl
          fun _ _ _ _ => calling_of_pc hpc rfl
      · rename_i hc
        exact h.closeSection hpc hc
    · cases hs
  | closeBegin t =>
    simp only [OpenSys.step] at hs
    split at hs
    · rename_i i dev unitno hpc
      obtain rfl := Option.some.inj hs
      exact h.closeBegin hpc
    · cases hs
  | closeReturn t ercd =>
    simp only [OpenSys.step] at hs
    split at hs
    · rename_i i dev unitno num hpc
      obtain rfl := Option.some.inj hs
      exact h.closeReturn hpc
    · cases hs
  | closeFinish t =>
    simp only [OpenSys.step] at hs
    split at hs
    · rename_i i hpc
      obtain rfl := Option.some.inj hs
      exact h.quiet hu rfl rfl rfl rfl (fewer_same rfl rfl) (fun _ _ _ => ⟨rfl, rfl⟩) rfl
        fun _ _ _ _ => calling_of_pc hpc rfl
    · cases hs

theorem pairOk_boot (max : Nat) (ddev : Nat → Ddev) (opncb : Nat → OpnCb) :
    PairOk (.boot max ddev opncb) where
  places := OpenOk.boot max ddev opncb
  mine _ _ _ _ hc := by cases hc
  alone _ _ _ _ _ hc := by cases hc
  good _ _ _ hi := by cases hi
  running _ _ _ hpc := by cases hpc
  closing _ _ _ _ _ hpc := by cases hpc

/-- As long as no task is let in while another one has a driver call to make for the unit. -/
theorem open_close_paired (max : Nat) (s : OpenSys)
    (h : (openMachine max).ReachableIf DecidesAlone s) : Paired s := by
  have inv : PairOk s := by
    refine h.invariant PairOk ?_ ?_
    · rintro s ⟨ddev, opncb, rfl⟩
      exact pairOk_boot max ddev opncb
    · intro s e u hok halone hs
      exact hok.step halone hs
  exact inv.paired

theorem open_close_paired_run :
    ∃ s, ((s.opncb 0).resid = true ∧ s.last 0 0 = some ⟨0, true, some true⟩) ∧ Paired s := by
  let opncb : Nat → OpnCb := fun _ => ⟨0, 0, 0, false⟩
  let start : OpenSys := .boot 2 (fun _ => ⟨true, 0, false⟩) opncb
  -- only the first step is a tk_opn_dev, and nobody is inside a call then
  let quiet : OpenSys → OpenEvent → Bool := fun _ e =>
    match e with
    | .tkOpnDev .. => false
    | _ => true
  have sound : ∀ s e, quiet s e = true → DecidesAlone s e := by
    intro s e he
    cases e with
    | tkOpnDev => cases he
    | _ => trivial
  have first : (openMachine 2).ReachableIf DecidesAlone (start.tkOpnDev 0 0 0 TD_READ true) :=
    Lts.ReachableIf.step (e := .tkOpnDev 0 0 0 TD_READ true)
      ⟨start, ⟨_, opncb, rfl⟩, .refl start⟩ (fun _ => .inr fun v => nofun) rfl
  let p : OpenSys → Bool := fun s => (s.opncb 0).resid = true ∧
    s.last 0 0 = some ⟨0, true, some true⟩
  obtain ⟨s, reach, hp⟩ := first.exec (p := p) sound
    [.openBegin 0, .openReturn 0 0, .openFinish 0] (by decide)
  exact ⟨s, of_decide_eq_true hp, open_close_paired 2 s reach⟩

/-- A second task gets a descriptor while openfn runs for the first one, and openfn fails. -/
theorem open_unpaired : ∃ max s, (openMachine max).Reachable s ∧ ¬ Paired s := by
  let opncb : Nat → OpnCb := fun _ => ⟨0, 0, 0, false⟩
  let p : OpenSys → Bool := fun s => (s.opncb 1).resid = true ∧
    (s.ddev (s.opncb 1).devcb).openreq = false ∧
    s.last (s.opncb 1).devcb (s.opncb 1).unitno = some ⟨0, true, some false⟩
  obtain ⟨s, reach, hp⟩ := Lts.reachable_of_trace (L := openMachine 2) (p := p)
    (s := .boot 2 (fun _ => ⟨true, 0, false⟩) opncb)
    [.tkOpnDev 0 0 0 TD_READ true, .openBegin 0, .tkOpnDev 1 0 0 TD_READ true, .openFinish 1,
      .openReturn 0 (-1)] ⟨_, opncb, rfl⟩ (by decide)
  obtain ⟨hr, hreq, hlast⟩ := of_decide_eq_true hp
  refine ⟨2, s, reach, fun hpair => ?_⟩
  obtain ⟨num, hgood⟩ := hpair 1 hr hreq
  rw [hlast] at hgood
  cases hgood

end OpenSys

end Mtk3Smp
