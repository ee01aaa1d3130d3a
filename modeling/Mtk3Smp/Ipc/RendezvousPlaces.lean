import Mtk3Smp.Ipc.Rendezvous

/-!
# Who waits where at a rendezvous port

`Queued`: every waiting task is once in the queue that its wait is for and in no other, the port is
there, and nobody waits to call a port at which a task waits that would accept the call.
-/

namespace Mtk3Smp

/-- The queues of a port. -/
inductive PorQue
  | call (p : Nat)
  | accept (p : Nat)
  deriving DecidableEq

def PorQue.porid : PorQue → Nat
  | .call p | .accept p => p

def PorWait.que : PorWait → Option PorQue
  | .cal p _ _ _ => some (.call p)
  | .acp p _ => some (.accept p)
  | .rdv _ _ => none

/-- The port of the wait exists, and the wait specification agrees with its attribute. -/
def PorWait.Fits (porcb : Nat → Porcb) : PorWait → Prop
  | .cal p tpri _ _ => (porcb p).exists_ = true ∧ (porcb p).tpri = tpri
  | .acp p _ => (porcb p).exists_ = true
  | .rdv _ _ => True

def porQue (porcb : Nat → Porcb) : PorQue → List Tid
  | .call p => (porcb p).callQueue
  | .accept p => (porcb p).acceptQueue

structure Queued (porcb : Nat → Porcb) (wait : Tid → Option PorWait) : Prop where
  mem : ∀ q t, t ∈ porQue porcb q ↔ ∃ w, wait t = some w ∧ w.que = some q
  nodup : ∀ q, (porQue porcb q).Nodup
  fits : ∀ t w, wait t = some w → w.Fits porcb
  /-- no two tasks wait that could meet -/
  apart : ∀ p c a tpri calptn acpptn n, wait c = some (.cal p tpri calptn n) →
    wait a = some (.acp p acpptn) → calptn &&& acpptn = 0

/-- What does not change with the queues. -/
def SameAttr (porcb porcb' : Nat → Porcb) : Prop :=
  ∀ p, (porcb' p).exists_ = (porcb p).exists_ ∧ (porcb' p).tpri = (porcb p).tpri ∧
    (porcb' p).maxcmsz = (porcb p).maxcmsz ∧ (porcb' p).maxrmsz = (porcb p).maxrmsz

section

variable {porcb porcb' : Nat → Porcb} {wait : Tid → Option PorWait} {t y : Tid} {p : Nat}
  {q : PorQue} {w : PorWait} {v : Option PorWait} {x : Porcb}

theorem SameAttr.refl (porcb : Nat → Porcb) : SameAttr porcb porcb :=
  fun _ => ⟨rfl, rfl, rfl, rfl⟩

theorem SameAttr.trans {porcb'' : Nat → Porcb} (h : SameAttr porcb porcb')
    (h' : SameAttr porcb' porcb'') : SameAttr porcb porcb'' := by
  intro p
  obtain ⟨he, ht, hc, hr⟩ := h p
  obtain ⟨he', ht', hc', hr'⟩ := h' p
  exact ⟨he'.trans he, ht'.trans ht, hc'.trans hc, hr'.trans hr⟩

theorem SameAttr.update (h : x.exists_ = (porcb p).exists_ ∧ x.tpri = (porcb p).tpri ∧
    x.maxcmsz = (porcb p).maxcmsz ∧ x.maxrmsz = (porcb p).maxrmsz) :
    SameAttr porcb (Function.update porcb p x) := by
  intro i
  by_cases hi : i = p
  · subst hi
    rwa [Function.update_self]
  · rw [Function.update_of_ne hi]
    exact ⟨rfl, rfl, rfl, rfl⟩

theorem PorWait.Fits.congr (h : w.Fits porcb) (hs : SameAttr porcb porcb') : w.Fits porcb' := by
  cases w with
  | cal p tpri calptn n => exact ⟨(hs p).1.trans h.1, (hs p).2.1.trans h.2⟩
  | acp p acpptn => exact (hs p).1.trans h
  | rdv n m => trivial

/-- A wait for another port. -/
theorem PorWait.Fits.update (h : w.Fits porcb) (hne : ∀ q, w.que = some q → q.porid ≠ p) :
    w.Fits (Function.update porcb p x) := by
  cases w with
  | cal i tpri calptn n =>
    have hi : i ≠ p := hne (.call i) rfl
    dsimp only [PorWait.Fits]
    rw [Function.update_of_ne hi]
    exact h
  | acp i acpptn =>
    have hi : i ≠ p := hne (.accept i) rfl
    dsimp only [PorWait.Fits]
    rw [Function.update_of_ne hi]
    exact h
  | rdv n m => trivial

/-- The queues of one port change. -/
theorem porQue_update_self (h : q.porid = p) :
    porQue (Function.update porcb p x) q = porQue (fun _ => x) q := by
  subst h
  cases q with
  | call i => exact congrArg Porcb.callQueue (Function.update_self _ _ _)
  | accept i => exact congrArg Porcb.acceptQueue (Function.update_self _ _ _)

theorem porQue_update_ne (h : q.porid ≠ p) :
    porQue (Function.update porcb p x) q = porQue porcb q := by
  cases q with
  | call i => exact congrArg Porcb.callQueue (Function.update_of_ne h _ _)
  | accept i => exact congrArg Porcb.acceptQueue (Function.update_of_ne h _ _)

namespace Queued

theorem notMem (h : Queued porcb wait) (hw : ∀ w, wait t = some w → w.que ≠ some q) :
    t ∉ porQue porcb q := by
  intro hm
  obtain ⟨w, hw', hq⟩ := (h.mem q t).1 hm
  exact hw w hw' hq

/-- Queues are reordered. -/
theorem perm (h : Queued porcb wait) (hs : SameAttr porcb porcb')
    (hque : ∀ q, (porQue porcb' q).Perm (porQue porcb q)) : Queued porcb' wait where
  mem q t := (hque q).mem_iff.trans (h.mem q t)
  nodup q := (hque q).nodup_iff.2 (h.nodup q)
  fits t w hw := (h.fits t w hw).congr hs
  apart := h.apart

/-- One task changes its wait, and its place with it. -/
theorem update (h : Queued porcb wait) (hs : SameAttr porcb porcb')
    (hmem : ∀ q y, y ∈ porQue porcb' q ↔
      y ∈ porQue porcb q ∧ y ≠ t ∨ y = t ∧ ∃ w, v = some w ∧ w.que = some q)
    (hnodup : ∀ q, (porQue porcb' q).Nodup) (hfits : ∀ w, v = some w → w.Fits porcb)
    (hcal : ∀ p a tpri calptn acpptn n, v = some (.cal p tpri calptn n) →
      wait a = some (.acp p acpptn) → calptn &&& acpptn = 0)
    (hacp : ∀ p c tpri calptn acpptn n, v = some (.acp p acpptn) →
      wait c = some (.cal p tpri calptn n) → calptn &&& acpptn = 0) :
    Queued porcb' (Function.update wait t v) where
  mem q y := by
    rw [hmem, h.mem]
    by_cases hy : y = t
    · subst hy
      simp
    · rw [Function.update_of_ne hy]
      simp [hy]
  nodup := hnodup
  fits y w hw := by
    refine PorWait.Fits.congr ?_ hs
    by_cases hy : y = t
    · subst hy
      rw [Function.update_self] at hw
      exact hfits w hw
    · rw [Function.update_of_ne hy] at hw
      exact h.fits y w hw
  apart p c a tpri calptn acpptn n hc ha := by
    by_cases hct : c = t
    · rw [hct, Function.update_self] at hc
      by_cases hat : a = t
      · rw [hat, Function.update_self, hc] at ha
        cases ha
      · rw [Function.update_of_ne hat] at ha
        exact hcal p a tpri calptn acpptn n hc ha
    · rw [Function.update_of_ne hct] at hc
      by_cases hat : a = t
      · rw [hat, Function.update_self] at ha
        exact hacp p c tpri calptn acpptn n ha hc
      · rw [Function.update_of_ne hat] at ha
        exact h.apart p c a tpri calptn acpptn n hc ha

/-- A task that is in no queue goes into one. -/
theorem join (h : Queued porcb wait) (q₀ : PorQue) (hq₀ : w.que = some q₀)
    (hout : ∀ w, wait t = some w → w.que = none) (hs : SameAttr porcb porcb')
    (hque : ∀ q, (porQue porcb' q).Perm
      (if q = q₀ then t :: porQue porcb q else porQue porcb q))
    (hfits : w.Fits porcb)
    (hcal : ∀ p a tpri calptn acpptn n, some w = some (PorWait.cal p tpri calptn n) →
      wait a = some (.acp p acpptn) → calptn &&& acpptn = 0)
    (hacp : ∀ p c tpri calptn acpptn n, some w = some (PorWait.acp p acpptn) →
      wait c = some (.cal p tpri calptn n) → calptn &&& acpptn = 0) :
    Queued porcb' (Function.update wait t (some w)) := by
  have hnot : ∀ q, t ∉ porQue porcb q := fun q => h.notMem fun w hw => by
    rw [hout w hw]
    simp
  have hne : ∀ q, ∀ y ∈ porQue porcb q, y ≠ t := fun q y hy he => hnot q (he ▸ hy)
  refine h.update hs ?_ ?_ ?_ hcal hacp
  · intro q y
    have hwq : (∃ w', some w = some w' ∧ w'.que = some q) ↔ q = q₀ := by
      constructor
      · rintro ⟨w', hw, hq⟩
        cases hw
        rw [hq₀] at hq
        exact (Option.some.inj hq).symm
      · rintro rfl
        exact ⟨_, rfl, hq₀⟩
    rw [(hque q).mem_iff, hwq]
    split
    · rename_i hq
      rw [List.mem_cons]
      constructor
      · rintro (rfl | hy)
        · exact .inr ⟨rfl, hq⟩
        · exact .inl ⟨hy, hne q y hy⟩
      · rintro (⟨hy, -⟩ | ⟨rfl, -⟩)
        · exact .inr hy
        · exact .inl rfl
    · rename_i hq
      constructor
      · exact fun hy => .inl ⟨hy, hne q y hy⟩
      · rintro (⟨hy, -⟩ | ⟨-, hq'⟩)
        · exact hy
        · exact absurd hq' hq
  · intro q
    refine (hque q).nodup_iff.2 ?_
    split
    · exact List.nodup_cons.2 ⟨hnot q, h.nodup q⟩
    · exact h.nodup q
  · intro w' hw
    cases hw
    exact hfits

end Queued

end

namespace RdvSys

variable {s : RdvSys} {t y : Tid} {p : Nat} {q : PorQue} {w : PorWait} {e : ER} {n : Nat}

@[simp] theorem copyTo_porcb (s : RdvSys) (t : Tid) (src : MsgArea) (n : Nat) :
    (s.copyTo t src n).porcb = s.porcb := by
  unfold copyTo
  split <;> rfl

@[simp] theorem copyTo_wait (s : RdvSys) (t : Tid) (src : MsgArea) (n : Nat) :
    (s.copyTo t src n).wait = s.wait := by
  unfold copyTo
  split <;> rfl

@[simp] theorem copyTo_call (s : RdvSys) (t : Tid) (src : MsgArea) (n : Nat) :
    (s.copyTo t src n).call = s.call := by
  unfold copyTo
  split <;> rfl

@[simp] theorem breaks_wrdvno (s : RdvSys) (t : Tid) : (s.breaks t).wrdvno = s.wrdvno := by
  unfold breaks
  split <;> rfl

@[simp] theorem breaks_wait (s : RdvSys) (t : Tid) : (s.breaks t).wait = s.wait := by
  unfold breaks
  split <;> rfl

@[simp] theorem breaks_call (s : RdvSys) (t : Tid) : (s.breaks t).call = s.call := by
  unfold breaks
  split <;> rfl

@[simp] theorem breaks_frame (s : RdvSys) (t : Tid) : (s.breaks t).frame = s.frame := by
  unfold breaks
  split <;> rfl

/-! ## Leaving a queue -/

theorem sameAttr_queRemove (s : RdvSys) (t : Tid) : SameAttr s.porcb (s.queRemove t).porcb := by
  unfold queRemove
  dsimp only
  split
  · exact SameAttr.update ⟨rfl, rfl, rfl, rfl⟩
  · exact SameAttr.update ⟨rfl, rfl, rfl, rfl⟩
  · exact SameAttr.refl _

theorem porQue_queRemove (h : Queued s.porcb s.wait) (t : Tid) (q : PorQue) :
    porQue (s.queRemove t).porcb q = (porQue s.porcb q).erase t := by
  have other : ∀ q, (∀ w, s.wait t = some w → w.que ≠ some q) →
      (porQue s.porcb q).erase t = porQue s.porcb q := fun q hq =>
    List.erase_of_not_mem (h.notMem hq)
  have elsewhere : ∀ w q₀, s.wait t = some w → w.que = some q₀ → q ≠ q₀ →
      (porQue s.porcb q).erase t = porQue s.porcb q := by
    intro w q₀ hw hq₀ hne
    refine other q fun w' hw' hq => ?_
    rw [hw] at hw'
    cases hw'
    rw [hq₀] at hq
    exact hne (Option.some.inj hq).symm
  unfold queRemove
  dsimp only
  split
  · rename_i p b calptn n hw
    by_cases hq : q.porid = p
    · rw [porQue_update_self hq]
      subst hq
      cases q with
      | call i => rfl
      | accept i => exact (elsewhere _ _ hw rfl PorQue.noConfusion).symm
    · rw [porQue_update_ne hq]
      refine (elsewhere _ _ hw rfl ?_).symm
      rintro rfl
      exact hq rfl
  · rename_i p acpptn hw
    by_cases hq : q.porid = p
    · rw [porQue_update_self hq]
      subst hq
      cases q with
      | call i => exact (elsewhere _ _ hw rfl PorQue.noConfusion).symm
      | accept i => rfl
    · rw [porQue_update_ne hq]
      refine (elsewhere _ _ hw rfl ?_).symm
      rintro rfl
      exact hq rfl
  · rename_i hcal hacp
    refine (other _ ?_).symm
    rintro w hw hq
    cases w with
    | cal p b calptn n => exact hcal _ _ _ _ hw
    | acp p acpptn => exact hacp _ _ hw
    | rdv n m => cases hq

/-- A task leaves its queue, and waits no more or for the end of a rendezvous. -/
theorem Queued.leave (h : Queued s.porcb s.wait) {v : Option PorWait}
    (hv : ∀ w, v = some w → w.que = none) :
    Queued (s.queRemove t).porcb (Function.update s.wait t v) := by
  refine h.update (sameAttr_queRemove s t) ?_ ?_ ?_ ?_ ?_
  · intro q y
    rw [porQue_queRemove h, (h.nodup q).mem_erase_iff]
    constructor
    · rintro ⟨hne, hy⟩
      exact .inl ⟨hy, hne⟩
    · rintro (⟨hy, hne⟩ | ⟨-, w, hw, hq⟩)
      · exact ⟨hne, hy⟩
      · rw [hv w hw] at hq
        cases hq
  · intro q
    rw [porQue_queRemove h]
    exact (h.nodup q).erase t
  · intro w hw
    cases w with
    | rdv n m => trivial
    | _ => cases hv _ hw
  · rintro p a tpri calptn acpptn n hw -
    cases hv _ hw
  · rintro p c tpri calptn acpptn n hw -
    cases hv _ hw

theorem queRemove_eq (h : ∀ w, s.wait t = some w → w.que = none) : s.queRemove t = s := by
  have hp : (s.queRemove t).porcb = s.porcb := by
    unfold queRemove
    dsimp only
    split
    · cases h _ ‹_›
    · cases h _ ‹_›
    · rfl
  calc s.queRemove t = { s with porcb := (s.queRemove t).porcb } := rfl
    _ = s := by rw [hp]

/-! ## Joining a queue -/

/-- `t` waits to call `p`, at which no task waits that would accept the call. -/
theorem joinCall (h : Queued s.porcb s.wait) (hout : ∀ w, s.wait t = some w → w.que = none)
    {calptn : BitVec 32} {tmout : Tmo} (hopen : (s.porcb p).exists_ = true)
    (hapart : ∀ a acpptn, s.wait a = some (.acp p acpptn) → calptn &&& acpptn = 0) :
    Queued ((s.setWait t (.cal p (s.porcb p).tpri calptn n) tmout).insertCall p t).porcb
      (Function.update s.wait t (some (.cal p (s.porcb p).tpri calptn n))) := by
  refine h.join (.call p) rfl hout (SameAttr.update ⟨rfl, rfl, rfl, rfl⟩) ?_ ⟨hopen, rfl⟩ ?_ ?_
  · intro q
    unfold insertCall setPor setWait
    by_cases hq : q.porid = p
    · rw [porQue_update_self hq]
      subst hq
      cases q with
      | call i =>
        rw [if_pos (show PorQue.call i = .call (PorQue.call i).porid from rfl)]
        dsimp only [porQue, PorQue.porid]
        split
        · exact KeyOrder.perm_insert _ _
        · exact List.perm_append_singleton _ _
      | accept i =>
        rw [if_neg PorQue.noConfusion]
        exact List.Perm.refl _
    · rw [porQue_update_ne hq, if_neg (by rintro rfl; exact hq rfl)]
  · intro p' a tpri calptn' acpptn n' hw ha
    cases hw
    exact hapart a acpptn ha
  · intro p' c tpri calptn' acpptn n' hw
    cases hw

/-- `t` waits to accept at `p`, which no task waits to call that it would accept. -/
theorem joinAccept (h : Queued s.porcb s.wait) (hout : ∀ w, s.wait t = some w → w.que = none)
    {acpptn : BitVec 32} (hopen : (s.porcb p).exists_ = true)
    (hapart : ∀ c tpri calptn n, s.wait c = some (.cal p tpri calptn n) →
      calptn &&& acpptn = 0) :
    Queued (s.setPor p fun x => { x with acceptQueue := x.acceptQueue ++ [t] }).porcb
      (Function.update s.wait t (some (.acp p acpptn))) := by
  refine h.join (.accept p) rfl hout (SameAttr.update ⟨rfl, rfl, rfl, rfl⟩) ?_ hopen ?_ ?_
  · intro q
    unfold setPor
    by_cases hq : q.porid = p
    · rw [porQue_update_self hq]
      subst hq
      cases q with
      | call i =>
        rw [if_neg PorQue.noConfusion]
        exact List.Perm.refl _
      | accept i =>
        rw [if_pos (show PorQue.accept i = .accept (PorQue.accept i).porid from rfl)]
        exact List.perm_append_singleton _ _
    · rw [porQue_update_ne hq, if_neg (by rintro rfl; exact hq rfl)]
  · intro p' a tpri calptn acpptn' n' hw
    cases hw
  · intro p' c tpri calptn acpptn' n' hw hc
    cases hw
    exact hapart c tpri calptn n' hc

/-! ## The searches -/

theorem ptn_acp {a : Tid} {acpptn : BitVec 32} (h : s.wait a = some (.acp p acpptn)) :
    s.ptn a = acpptn := by
  unfold ptn
  rw [h]

theorem ptn_cal {c : Tid} {b : Bool} {calptn : BitVec 32} (h : s.wait c = some (.cal p b calptn n)) :
    s.ptn c = calptn := by
  unfold ptn
  rw [h]

theorem mem_acceptQueue (h : Queued s.porcb s.wait) {a : Tid} :
    a ∈ (s.porcb p).acceptQueue ↔ ∃ acpptn, s.wait a = some (.acp p acpptn) := by
  refine (h.mem (.accept p) a).trans ⟨?_, ?_⟩
  · rintro ⟨w, hw, hq⟩
    cases w with
    | acp i acpptn =>
      cases hq
      exact ⟨acpptn, hw⟩
    | _ => cases hq
  · rintro ⟨acpptn, hw⟩
    exact ⟨_, hw, rfl⟩

theorem mem_callQueue (h : Queued s.porcb s.wait) {c : Tid} :
    c ∈ (s.porcb p).callQueue ↔ ∃ b calptn n, s.wait c = some (.cal p b calptn n) := by
  refine (h.mem (.call p) c).trans ⟨?_, ?_⟩
  · rintro ⟨w, hw, hq⟩
    cases w with
    | cal i b calptn n =>
      cases hq
      exact ⟨b, calptn, n, hw⟩
    | _ => cases hq
  · rintro ⟨b, calptn, n, hw⟩
    exact ⟨_, hw, rfl⟩

/-- The search finds a task that waits to accept the call. -/
theorem searchAccept_some (h : Queued s.porcb s.wait) {calptn : BitVec 32} {a : Tid}
    (ha : s.searchAccept p calptn = some a) :
    ∃ acpptn, s.wait a = some (.acp p acpptn) ∧ calptn &&& acpptn ≠ 0 := by
  obtain ⟨acpptn, hw⟩ := (mem_acceptQueue h).1 (List.mem_of_find?_eq_some ha)
  have hp := List.find?_some ha
  rw [ptn_acp hw, bne_iff_ne] at hp
  exact ⟨acpptn, hw, hp⟩

theorem searchAccept_none (h : Queued s.porcb s.wait) {calptn : BitVec 32}
    (hnone : s.searchAccept p calptn = none) {a : Tid} {acpptn : BitVec 32}
    (hw : s.wait a = some (.acp p acpptn)) : calptn &&& acpptn = 0 := by
  have hp := List.find?_eq_none.1 hnone a ((mem_acceptQueue h).2 ⟨acpptn, hw⟩)
  rw [ptn_acp hw, bne_iff_ne, ne_eq, not_not] at hp
  exact hp

/-- The search finds a task that waits with a call to be accepted. -/
theorem searchCall_some (h : Queued s.porcb s.wait) {acpptn : BitVec 32} {c : Tid}
    (hc : s.searchCall p acpptn = some c) :
    ∃ b calptn n, s.wait c = some (.cal p b calptn n) ∧ acpptn &&& calptn ≠ 0 := by
  obtain ⟨b, calptn, n, hw⟩ := (mem_callQueue h).1 (List.mem_of_find?_eq_some hc)
  have hp := List.find?_some hc
  rw [ptn_cal hw, bne_iff_ne] at hp
  exact ⟨b, calptn, n, hw, hp⟩

theorem searchCall_none (h : Queued s.porcb s.wait) {acpptn : BitVec 32}
    (hnone : s.searchCall p acpptn = none) {c : Tid} {b : Bool} {calptn : BitVec 32}
    (hw : s.wait c = some (.cal p b calptn n)) : calptn &&& acpptn = 0 := by
  have hp := List.find?_eq_none.1 hnone c ((mem_callQueue h).2 ⟨b, calptn, n, hw⟩)
  rw [ptn_cal hw, bne_iff_ne, ne_eq, not_not] at hp
  rw [BitVec.and_comm]
  exact hp

end RdvSys

end Mtk3Smp
