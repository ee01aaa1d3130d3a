import Mtk3Smp.Dev.NamesProps
import Mathlib.Data.List.Perm.Basic
import Mathlib.Data.List.Range

/-!
# The table of device names

What holds of the table after any sequence of registrations: a DevCB is in use or free, those in use
have different names of an admitted length, and the names of the free ones are cleared. From it,
which names resolve, and when the name that tk_get_dev reports leads back to its device.
-/

namespace Mtk3Smp

/-- The name that is registered, updated or removed. -/
def DevEvent.devnm : DevEvent → DevNm
  | .tkDefDev devnm _ _ => devnm

variable {P : DevNm → Prop} {max : Nat} {s t : DevTbl} {name devnm : DevNm} {nsub : Int} {i j : Nat}
  {rest : List Nat} {inUse : Bool}

namespace DevTbl

/-- A registration that the checks of tk_def_dev let through. -/
structure Named (x : DevCb) : Prop where
  some : x.devnm ≠ []
  lower : 0 ≤ x.nsub
  upper : x.nsub ≤ MAX_UNIT
  fits : logLength x.devnm.length x.nsub ≤ L_DEVNM

/-- Of a table where all names that were ever defined meet `P`. -/
structure Ok (P : DevNm → Prop) (max : Nat) (s : DevTbl) : Prop where
  part : (s.used ++ s.free).Perm (List.range max)
  named : ∀ i ∈ s.used, Named (s.devcb i) ∧ P (s.devcb i).devnm
  apart : ∀ i ∈ s.used, ∀ j ∈ s.used, (s.devcb i).devnm = (s.devcb j).devnm → i = j
  cleared : ∀ i ∈ s.free, (s.devcb i).devnm = []

theorem setDevCb_devcb_self (x : DevCb) : (s.setDevCb i x).devcb i = x := Function.update_self ..

theorem setDevCb_devcb_ne (x : DevCb) (h : j ≠ i) : (s.setDevCb i x).devcb j = s.devcb j :=
  Function.update_of_ne h ..

theorem length_le_logLength (n : Nat) : n ≤ logLength n nsub := by
  unfold logLength
  dsimp only
  split_ifs <;> omega

theorem Named.length_le {x : DevCb} (h : Named x) : x.devnm.length ≤ L_DEVNM :=
  Nat.le_trans (length_le_logLength _) h.fits

/-! ## The search -/

theorem knlSearchDevCB_some (h : s.knlSearchDevCB name = some i) :
    i ∈ s.used ∧ (s.devcb i).devnm = name := by
  refine ⟨List.mem_of_find?_eq_some h, ?_⟩
  have hp := List.find?_some h
  rw [Bool.and_eq_true] at hp
  exact eq_of_beq hp.2

theorem knlSearchDevCB_none (h : s.knlSearchDevCB name = none) (hi : i ∈ s.used) :
    (s.devcb i).devnm ≠ name := by
  rintro rfl
  have hp := List.find?_eq_none.1 h i hi
  apply hp
  rw [beq_self_eq_true, beq_self_eq_true]
  rfl

theorem Ok.search (ok : s.Ok P max) (hi : i ∈ s.used) :
    s.knlSearchDevCB (s.devcb i).devnm = some i := by
  cases hf : s.knlSearchDevCB (s.devcb i).devnm with
  | none => exact absurd rfl (knlSearchDevCB_none hf hi)
  | some j =>
    obtain ⟨hj, hname⟩ := knlSearchDevCB_some hf
    rw [ok.apart j hj i hi hname]

/-! ## Registrations -/

theorem Ok.nodup (ok : s.Ok P max) : (s.used ++ s.free).Nodup :=
  (ok.part.nodup_iff).2 List.nodup_range

theorem Ok.not_free (ok : s.Ok P max) (hi : i ∈ s.used) : i ∉ s.free := by
  intro hf
  exact (List.nodup_append.1 ok.nodup).2.2 i hi i hf rfl

/-- Update of the registration information. -/
theorem Ok.update (ok : s.Ok P max) (hi : i ∈ s.used)
    (hx : Named { s.devcb i with nsub }) :
    (s.setDevCb i { s.devcb i with nsub }).Ok P max := by
  have hname : ∀ j, ((s.setDevCb i { s.devcb i with nsub }).devcb j).devnm = (s.devcb j).devnm := by
    intro j
    by_cases hj : j = i
    · subst hj
      rw [setDevCb_devcb_self]
    · rw [setDevCb_devcb_ne _ hj]
  refine ⟨ok.part, ?_, ?_, ?_⟩
  · intro j hj
    rw [hname]
    refine ⟨?_, (ok.named j hj).2⟩
    by_cases he : j = i
    · subst he
      rw [setDevCb_devcb_self]
      exact hx
    · rw [setDevCb_devcb_ne _ he]
      exact (ok.named j hj).1
  · intro j hj k hk h
    rw [hname, hname] at h
    exact ok.apart j hj k hk h
  · intro j hj
    rw [hname]
    exact ok.cleared j hj

theorem Ok.newDevCB (ok : s.Ok P max) (hfree : s.free = i :: rest) (hP : P devnm)
    (hx : Named { devnm, nsub }) (hnone : s.knlSearchDevCB devnm = none) :
    (s.newDevCB devnm nsub i rest).Ok P max := by
  have htake : devnm.take (L_DEVNM + 1) = devnm :=
    List.take_of_length_le (Nat.le_succ_of_le hx.length_le)
  have hi : i ∉ s.used := by
    intro hmem
    exact ok.not_free hmem (by rw [hfree]; exact List.mem_cons_self)
  have hrest : i ∉ rest := by
    have hnd := (List.nodup_append.1 ok.nodup).2.1
    rw [hfree] at hnd
    exact (List.nodup_cons.1 hnd).1
  have hself : (s.newDevCB devnm nsub i rest).devcb i = { devnm, nsub } := by
    unfold DevTbl.newDevCB
    rw [setDevCb_devcb_self, htake]
  have hother : ∀ j, j ≠ i → (s.newDevCB devnm nsub i rest).devcb j = s.devcb j := by
    intro j hj
    unfold DevTbl.newDevCB
    rw [setDevCb_devcb_ne _ hj]
  have hused : ∀ j, j ∈ (s.newDevCB devnm nsub i rest).used → j ∈ s.used ∨ j = i := by
    intro j hj
    rcases List.mem_append.1 hj with hj | hj
    · exact Or.inl hj
    · exact Or.inr (List.mem_singleton.1 hj)
  have hne : ∀ j, j ∈ s.used → j ≠ i := by
    rintro j hj rfl
    exact hi hj
  refine ⟨?_, ?_, ?_, ?_⟩
  · have hpart := ok.part
    rw [hfree] at hpart
    show ((s.used ++ [i]) ++ rest).Perm _
    rw [List.append_assoc]
    exact hpart
  · intro j hj
    rcases hused j hj with hj | rfl
    · rw [hother j (hne j hj)]
      exact ok.named j hj
    · rw [hself]
      exact ⟨hx, hP⟩
  · intro j hj k hk h
    rcases hused j hj with hju | rfl
    · rcases hused k hk with hku | rfl
      · rw [hother j (hne j hju), hother k (hne k hku)] at h
        exact ok.apart j hju k hku h
      · rw [hother j (hne j hju), hself] at h
        exact absurd h (knlSearchDevCB_none hnone hju)
    · rcases hused k hk with hku | rfl
      · rw [hother k (hne k hku), hself] at h
        exact absurd h.symm (knlSearchDevCB_none hnone hku)
      · rfl
  · intro j hj
    have hji : j ≠ i := by
      rintro rfl
      exact hrest hj
    rw [hother j hji]
    apply ok.cleared
    rw [hfree]
    exact List.mem_cons_of_mem _ hj

theorem Ok.delDevCB (ok : s.Ok P max) (hi : i ∈ s.used) : (s.delDevCB i).Ok P max := by
  have hnd : s.used.Nodup := (List.nodup_append.1 ok.nodup).1
  have hother : ∀ j, j ≠ i → (s.delDevCB i).devcb j = s.devcb j := by
    intro j hj
    unfold DevTbl.delDevCB
    rw [setDevCb_devcb_ne _ hj]
  have hused : ∀ j, j ∈ (s.delDevCB i).used → j ≠ i ∧ j ∈ s.used := fun j hj =>
    hnd.mem_erase_iff.1 hj
  refine ⟨?_, ?_, ?_, ?_⟩
  · have hmove : (s.used.erase i ++ (s.free ++ [i])).Perm (s.used ++ s.free) := by
      have h1 : (s.free ++ [i]).Perm (i :: s.free) := List.perm_append_singleton i s.free
      have h2 : (s.used.erase i ++ i :: s.free).Perm (i :: s.used.erase i ++ s.free) :=
        List.perm_middle
      have h3 : (i :: s.used.erase i).Perm s.used := (List.perm_cons_erase hi).symm
      exact ((h1.append_left _).trans h2).trans (h3.append_right _)
    exact hmove.trans ok.part
  · intro j hj
    obtain ⟨hne, hmem⟩ := hused j hj
    rw [hother j hne]
    exact ok.named j hmem
  · intro j hj k hk h
    obtain ⟨hne, hmem⟩ := hused j hj
    obtain ⟨hne', hmem'⟩ := hused k hk
    rw [hother j hne, hother k hne'] at h
    exact ok.apart j hmem k hmem' h
  · intro j hj
    by_cases he : j = i
    · subst he
      unfold DevTbl.delDevCB
      rw [setDevCb_devcb_self]
    · rw [hother j he]
      rcases List.mem_append.1 hj with hj | hj
      · exact ok.cleared j hj
      · exact absurd (List.mem_singleton.1 hj) he

theorem Ok.tkDefDev (ok : s.Ok P max) {nsub : Option Int} (hP : P devnm) :
    (s.tkDefDev devnm nsub inUse).2.Ok P max := by
  unfold DevTbl.tkDefDev
  by_cases hlen : devnm.length = 0 ∨ L_DEVNM < devnm.length
  · rw [if_pos hlen]
    exact ok
  · rw [if_neg hlen]
    obtain ⟨hpos, hmax⟩ := not_or.1 hlen
    cases nsub with
    | none =>
      dsimp only
      cases hf : s.knlSearchDevCB devnm with
      | none => exact ok
      | some i =>
        dsimp only
        cases inUse with
        | true => exact ok
        | false => exact ok.delDevCB (knlSearchDevCB_some hf).1
    | some nsub =>
      dsimp only
      by_cases hrange : nsub < 0 ∨ MAX_UNIT < nsub
      · rw [if_pos hrange]
        exact ok
      · rw [if_neg hrange]
        obtain ⟨hlo, hhi⟩ := not_or.1 hrange
        by_cases hlog : L_DEVNM < logLength devnm.length nsub
        · rw [if_pos hlog]
          exact ok
        · rw [if_neg hlog]
          have hnamed : Named { devnm, nsub } := by
            refine ⟨?_, Int.not_lt.1 hlo, Int.not_lt.1 hhi, Nat.not_lt.1 hlog⟩
            intro hnil
            exact hpos (List.length_eq_zero_iff.2 hnil)
          cases hf : s.knlSearchDevCB devnm with
          | some i =>
            obtain ⟨hi, rfl⟩ := knlSearchDevCB_some hf
            exact ok.update hi hnamed
          | none =>
            dsimp only
            cases hfree : s.free with
            | nil => exact ok
            | cons i rest => exact ok.newDevCB hfree hP hnamed hf

theorem Ok.boot (devcb : Nat → DevCb) : (boot max devcb).Ok P max := by
  refine ⟨.refl _, nofun, nofun, ?_⟩
  intro i _
  rfl

/-- After registrations whose names all meet `P`. -/
theorem Ok.reachable (h : (deviceMachine max).ReachableIf (fun _ e => P e.devnm) s) :
    s.Ok P max := by
  apply h.invariant (Ok P max)
  · rintro s ⟨devcb, rfl⟩
    exact .boot devcb
  · intro s e t ok hP hs
    cases e with
    | tkDefDev devnm nsub inUse =>
      cases hs
      exact ok.tkDefDev hP

/-- A name of at most `L_DEVNM` bytes can be registered, with as many subunits as fit. -/
theorem registered (hsome : name ≠ []) (hlen : name.length ≤ L_DEVNM) :
    ∃ s, (deviceMachine 1).Reachable s ∧
      ∃ i, s.knlSearchDevCB name = some i ∧ (s.devcb i).nsub = maxUnit name.length := by
  obtain ⟨hlo, hhi, hlog⟩ := maxUnit_accepted hlen
  have hpos : ¬(name.length = 0 ∨ L_DEVNM < name.length) := by
    rintro (hz | hlt)
    · exact hsome (List.length_eq_zero_iff.1 hz)
    · omega
  have hrange : ¬(maxUnit name.length < 0 ∨ MAX_UNIT < maxUnit name.length) := by omega
  have hfit : ¬L_DEVNM < logLength name.length (maxUnit name.length) := Nat.not_lt.2 hlog
  have htake : name.take (L_DEVNM + 1) = name := List.take_of_length_le (Nat.le_succ_of_le hlen)
  let b := boot 1 fun _ => ⟨[], 0⟩
  have hdef : (b.tkDefDev name (some (maxUnit name.length)) false).2 =
      b.newDevCB name (maxUnit name.length) 0 [] := by
    unfold DevTbl.tkDefDev
    rw [if_neg hpos]
    dsimp only
    rw [if_neg hrange, if_neg hfit]
    rfl
  have hb : (deviceMachine 1).Reachable b := ⟨b, ⟨_, rfl⟩, .refl _⟩
  have hs : (deviceMachine 1).Reachable (b.newDevCB name (maxUnit name.length) 0 []) := by
    refine hb.step (e := .tkDefDev name (some (maxUnit name.length)) false) trivial ?_
    rw [← hdef]
    rfl
  have ok : Ok (fun _ => True) 1 (b.newDevCB name (maxUnit name.length) 0 []) := .reachable hs
  have hself : (b.newDevCB name (maxUnit name.length) 0 []).devcb 0 =
      ⟨name, maxUnit name.length⟩ := by
    unfold DevTbl.newDevCB
    rw [setDevCb_devcb_self, htake]
  have hmem : 0 ∈ (b.newDevCB name (maxUnit name.length) 0 []).used := List.mem_singleton.2 rfl
  have hfind := ok.search hmem
  rw [hself] at hfind
  exact ⟨_, hs, 0, hfind, by rw [hself]⟩

end DevTbl

/-! ## Splitting a name -/

/-- What tk_opn_dev and tk_ref_dev rely on where they split a name. -/
structure NameRight (name : DevNm) : Prop where
  fits : (knlPhydevnm name).1.length + 1 ≤ L_DEVNM + 1
  plain : suffix name = [] → (knlPhydevnm name).2 = 0
  decimal : suffix name ≠ [] → Decimal (suffix name) →
    (knlPhydevnm name).2 = decimalValue (suffix name) + 1
  resolves : ∀ max s, (deviceMachine max).Reachable s → ∀ id, s.tkRefDev name = .ok id →
    suffix name = [] ∨
      Decimal (suffix name) ∧ ∃ i ∈ s.used, decimalValue (suffix name) + 1 ≤ (s.devcb i).nsub

/-- The physical name fits, a decimal suffix stays below the range of INT, and any other suffix,
summed up like a decimal number modulo 2^32, is above all units of a device of that name. -/
structure Splits (name : DevNm) : Prop where
  short : (physical name).length ≤ L_DEVNM
  value : Decimal (suffix name) → decimalValue (suffix name) + 1 < 2147483648
  other : ¬Decimal (suffix name) → physical name ≠ [] →
    maxUnit (physical name).length < (decimalValue (suffix name) + 1) % 4294967296 ∧
      (decimalValue (suffix name) + 1) % 4294967296 < 2147483648

theorem tkRefDev_ok {id : Int} (h : s.tkRefDev name = .ok id) :
    ∃ i, s.knlSearchDevCB (physical name) = some i ∧ (knlPhydevnm name).2 ≤ (s.devcb i).nsub := by
  unfold DevTbl.tkRefDev at h
  dsimp only at h
  rw [knlPhydevnm_fst] at h
  cases hf : s.knlSearchDevCB (physical name) with
  | none =>
    rw [hf] at h
    cases h
  | some i =>
    rw [hf] at h
    refine ⟨i, rfl, ?_⟩
    by_cases hlt : (s.devcb i).nsub < (knlPhydevnm name).2
    · dsimp only at h
      rw [if_pos hlt] at h
      cases h
    · exact Int.not_lt.1 hlt

theorem suffix_ne_nil (h : ¬Decimal (suffix name)) : suffix name ≠ [] := by
  intro hnil
  rw [hnil] at h
  exact h nofun

theorem Splits.nameRight (h : Splits name) : NameRight name := by
  have hunit : suffix name ≠ [] → Decimal (suffix name) →
      (knlPhydevnm name).2 = decimalValue (suffix name) + 1 := by
    intro hne hdec
    have hlo : 0 ≤ decimalValue (suffix name) := decimalFrom_nonneg (Int.le_refl 0) hdec
    have hhi := h.value hdec
    rw [knlPhydevnm_snd, if_neg hne]
    unfold toINT
    omega
  refine ⟨?_, ?_, hunit, ?_⟩
  · rw [knlPhydevnm_fst]
    exact Nat.succ_le_succ h.short
  · intro hnil
    rw [knlPhydevnm_snd, if_pos hnil]
  · intro max s hs id hid
    obtain ⟨i, hf, hle⟩ := tkRefDev_ok hid
    obtain ⟨hi, hname⟩ := DevTbl.knlSearchDevCB_some hf
    have ok : s.Ok (fun _ => True) max := .reachable hs
    have hnamed := (ok.named i hi).1
    by_cases hnil : suffix name = []
    · exact Or.inl hnil
    · right
      by_cases hdec : Decimal (suffix name)
      · refine ⟨hdec, i, hi, ?_⟩
        rw [← hunit hnil hdec]
        exact hle
      · have hsome : physical name ≠ [] := by
          rw [← hname]
          exact hnamed.some
        have hmax := le_maxUnit hnamed.fits hnamed.upper
        rw [hname] at hmax
        obtain ⟨habove, hbelow⟩ := h.other hdec hsome
        rw [knlPhydevnm_snd, if_neg hnil] at hle
        unfold toINT at hle
        omega

theorem NameRight.splits (h : NameRight name) : Splits name := by
  have hshort : (physical name).length ≤ L_DEVNM := by
    have hfits := h.fits
    rw [knlPhydevnm_fst] at hfits
    exact Nat.le_of_succ_le_succ hfits
  refine ⟨hshort, ?_, ?_⟩
  · intro hdec
    by_cases hnil : suffix name = []
    · rw [hnil]
      decide
    · have hunit := h.decimal hnil hdec
      rw [knlPhydevnm_snd, if_neg hnil] at hunit
      unfold toINT at hunit
      omega
  · intro hdec hsome
    have hne := suffix_ne_nil hdec
    obtain ⟨s, hs, i, hf, hnsub⟩ := DevTbl.registered hsome hshort
    have habove : maxUnit (physical name).length < (knlPhydevnm name).2 := by
      by_contra hle
      have hid : s.tkRefDev name = .ok (DevTbl.devid i (knlPhydevnm name).2) := by
        unfold DevTbl.tkRefDev
        dsimp only
        rw [knlPhydevnm_fst, hf]
        dsimp only
        rw [hnsub, if_neg hle]
      rcases h.resolves 1 s hs _ hid with hnil | ⟨hdec', -⟩
      · exact hne hnil
      · exact hdec hdec'
    have hlo := (maxUnit_accepted hshort).1
    rw [knlPhydevnm_snd, if_neg hne] at habove
    unfold toINT at habove
    omega

/-- A name is split right exactly where its parts stay within what the code can hold. -/
theorem nameRight_iff : NameRight name ↔ Splits name := ⟨NameRight.splits, Splits.nameRight⟩

/-- "a1x" is taken for a unit of "a", and a device can have it. -/
theorem nameRight_suffix : ¬NameRight [97, 49, 120] := by
  intro h
  have hsuffix : suffix [97, 49, 120] = [49, 120] := rfl
  have hphysical : physical [97, 49, 120] = [97] := rfl
  have hdigit : isDigit 120 = false := rfl
  have hdec : ¬Decimal (suffix [97, 49, 120]) := by
    intro hall
    rw [hsuffix] at hall
    have h120 := hall 120 (List.mem_cons_of_mem _ (List.mem_singleton.2 rfl))
    rw [hdigit] at h120
    cases h120
  have hsome : physical [97, 49, 120] ≠ [] := by
    rw [hphysical]
    exact List.cons_ne_nil _ _
  have hvalue : decimalValue [49, 120] = 82 := rfl
  have hother := (h.splits.other hdec hsome).1
  rw [hsuffix, hphysical, hvalue] at hother
  revert hother
  decide

/-! ## Names that are reported -/

/-- The name of a device identifier leads back to it, and fits. -/
def RoundTrips (max : Nat) (s : DevTbl) : Prop :=
  ∀ devid did name, s.tkGetDev max devid = .ok (did, name) →
    s.tkRefDev name = .ok devid ∧ name.length ≤ L_DEVNM

theorem tkGetDev_ok {devid did : Int} (ok : s.Ok P max)
    (h : s.tkGetDev max devid = .ok (did, name)) :
    ∃ i ∈ s.used, ∃ unitno : Nat, unitno ≤ 255 ∧ devid = DevTbl.devid i unitno ∧
      (unitno : Int) ≤ (s.devcb i).nsub ∧ name = logdevnm (s.devcb i).devnm unitno := by
  unfold DevTbl.tkGetDev at h
  by_cases hid : devid / 256 < 1 ∨ max < devid / 256
  · rw [if_pos hid] at h
    cases h
  · rw [if_neg hid] at h
    dsimp only at h
    by_cases hx : (s.devcb (devid / 256 - 1).toNat).devnm = [] ∨
        (s.devcb (devid / 256 - 1).toNat).nsub < devid % 256
    · rw [if_pos hx] at h
      cases h
    · rw [if_neg hx] at h
      obtain ⟨hsome, hle⟩ := not_or.1 hx
      have hmem : (devid / 256 - 1).toNat ∈ s.used ++ s.free := by
        rw [ok.part.mem_iff, List.mem_range]
        omega
      have hused : (devid / 256 - 1).toNat ∈ s.used := by
        rcases List.mem_append.1 hmem with hu | hf
        · exact hu
        · exact absurd (ok.cleared _ hf) hsome
      refine ⟨_, hused, (devid % 256).toNat, ?_, ?_, ?_, ?_⟩
      · omega
      · unfold DevTbl.devid DevTbl.did
        omega
      · omega
      · cases h
        rfl

/-- Where no name that is ever registered has a digit, every reported name leads back. -/
theorem roundTrips_of_no_digit
    (h : (deviceMachine max).ReachableIf (fun _ e => ∀ c ∈ e.devnm, isDigit c = false) s) :
    RoundTrips max s := by
  have ok : s.Ok (fun devnm => ∀ c ∈ devnm, isDigit c = false) max := .reachable h
  intro devid did name hget
  obtain ⟨i, hi, unitno, hunit, rfl, hle, rfl⟩ := tkGetDev_ok ok hget
  obtain ⟨hnamed, hdigit⟩ := ok.named i hi
  refine ⟨?_, length_logdevnm hnamed.fits hnamed.upper hle⟩
  unfold DevTbl.tkRefDev
  rw [knlPhydevnm_logdevnm hdigit hunit]
  dsimp only
  rw [ok.search hi]
  dsimp only
  rw [if_neg (Int.not_lt.2 hle)]

theorem roundTrips_disk : ∃ s, (deviceMachine 2).ReachableIf
    (fun _ e => ∀ c ∈ e.devnm, isDigit c = false) s ∧
      (s.tkGetDev 2 513).toBool = true ∧ RoundTrips 2 s := by
  let noDigit : DevTbl → DevEvent → Bool := fun _ e => e.devnm.all fun c => !isDigit c
  have sound : ∀ s e, noDigit s e = true → ∀ c ∈ e.devnm, isDigit c = false := by
    intro s e h c hc
    have hall := List.all_eq_true.1 h c hc
    rwa [Bool.not_eq_true'] at hall
  obtain ⟨s, hs, hget⟩ := Lts.reachable_of_exec (L := deviceMachine 2)
    (p := fun s => (s.tkGetDev 2 513).toBool) (s := .boot 2 fun _ => ⟨[], 0⟩) sound
    [.tkDefDev [97] (some 3) false, .tkDefDev [98] (some 1) false] ⟨_, rfl⟩ (by decide)
  exact ⟨s, hs, hget, roundTrips_of_no_digit hs⟩

/-- Where "a" with three units and "a1" are registered, the name of "a1" leads to a unit of "a". -/
theorem roundTrips_digit : ∃ s, (deviceMachine 2).Reachable s ∧ ¬RoundTrips 2 s := by
  obtain ⟨s, hs, hnames⟩ := Lts.reachable_of_trace (L := deviceMachine 2)
    (p := fun s => decide (s.tkGetDev 2 512 = .ok (512, [97, 49])) &&
      decide (s.tkRefDev [97, 49] = .ok 258))
    (s := .boot 2 fun _ => ⟨[], 0⟩)
    [.tkDefDev [97] (some 3) false, .tkDefDev [97, 49] (some 0) false] ⟨_, rfl⟩ (by decide)
  rw [Bool.and_eq_true, decide_eq_true_iff, decide_eq_true_iff] at hnames
  refine ⟨s, hs, ?_⟩
  intro hround
  obtain ⟨hback, -⟩ := hround 512 512 [97, 49] hnames.1
  rw [hnames.2] at hback
  exact absurd (Except.ok.inj hback) (by decide)

end Mtk3Smp
