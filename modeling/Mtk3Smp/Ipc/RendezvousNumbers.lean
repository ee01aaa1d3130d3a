import Mtk3Smp.Ipc.RendezvousWaits

/-!
# Rendezvous numbers

The calls of a task get numbers one after the other, as they are accepted. A number is good for one
answer: `RdvNumbers` balances the calls that have been accepted under it with the answers to it and
the task that still waits for one.
-/

namespace Mtk3Smp

/-- The number that the call of `t` is accepted under which is the `i`-th to be accepted. -/
def rdvnoOf (t : Tid) (i : Nat) : Nat := (tskid t + i * 2 ^ RDVNO_SHIFT) % 2 ^ 32

/-- A call of `t` has been accepted, under this number. -/
def RdvRecord.rdvnoGiven (t : Tid) : RdvRecord → Option Nat
  | .accepted rdvno caller _ _ => if caller = t then some rdvno else none
  | _ => none

/-- The numbers of `t`, the newest first. -/
def rdvnosOf (t : Tid) (log : List RdvRecord) : List Nat := log.filterMap (·.rdvnoGiven t)

def RdvRecord.accepts (rdvno : Nat) : RdvRecord → Bool
  | .accepted n _ _ _ => n == rdvno
  | _ => false

/-- A reply, a forwarding or the end of the wait for want of one. -/
def RdvRecord.answers (rdvno : Nat) : RdvRecord → Bool
  | .replied n _ | .forwarded n | .broken n => n == rdvno
  | _ => false

def acceptedUnder (rdvno : Nat) (log : List RdvRecord) : Nat := log.countP (·.accepts rdvno)

def answersTo (rdvno : Nat) (log : List RdvRecord) : Nat := log.countP (·.answers rdvno)

/-- The wait is for an answer to the number. -/
def openUnder (rdvno : Nat) : Option PorWait → Nat
  | some (.rdv n _) => if n = rdvno then 1 else 0
  | _ => 0

structure RdvNumbers (k : RdvCfg) (wrdvno : Tid → Nat) (wait : Tid → Option PorWait)
    (log : List RdvRecord) : Prop where
  next : ∀ t, t < k.numTskid → wrdvno t = rdvnoOf t (rdvnosOf t log).length
  given : ∀ t, t < k.numTskid →
    rdvnosOf t log = ((List.range (rdvnosOf t log).length).map (rdvnoOf t)).reverse
  /-- an answer is awaited to the newest number -/
  newest : ∀ t n m, wait t = some (.rdv n m) →
    t < k.numTskid ∧ (rdvnosOf t log).head? = some n
  balance : ∀ n, acceptedUnder n log = answersTo n log + openUnder n (wait (getTcbRdvno n))

section

variable {k : RdvCfg} {wrdvno : Tid → Nat} {wait : Tid → Option PorWait} {log : List RdvRecord}
  {t a : Tid} {n m i : Nat} {v : Option PorWait} {r : RdvRecord} {msg : List UInt8}

/-- The number leads back to the task. -/
theorem getTcbRdvno_rdvnoOf (ht : t < k.numTskid) (i : Nat) : getTcbRdvno (rdvnoOf t i) = t := by
  have hid : ∀ id : Nat, id < 2 ^ 16 → (id + i * 2 ^ 16) % 2 ^ 32 % 2 ^ 16 = id := by omega
  unfold getTcbRdvno knlGetTskidRdvno rdvnoOf tskid RDVNO_SHIFT
  rw [hid (t + 1) (Nat.lt_of_le_of_lt ht k.small), Nat.add_sub_cancel]

theorem rdvnoOf_succ (t : Tid) (i : Nat) :
    rdvnoOf t (i + 1) = (rdvnoOf t i + 2 ^ RDVNO_SHIFT) % 2 ^ 32 := by
  unfold rdvnoOf RDVNO_SHIFT
  omega

/-- Two numbers of a task are the same only if 2^16 calls lie between them, or a multiple. -/
theorem rdvnoOf_inj {i j : Nat} (h : rdvnoOf t i = rdvnoOf t j) : i % 2 ^ 16 = j % 2 ^ 16 := by
  unfold rdvnoOf RDVNO_SHIFT at h
  omega

theorem openUnder_of_ne (h : ∀ n m, v ≠ some (.rdv n m)) (n : Nat) : openUnder n v = 0 := by
  unfold openUnder
  split
  · exact absurd rfl (h _ _)
  · rfl

namespace RdvNumbers

/-- The task that waits for an answer to a number is the one that the number leads to. -/
theorem getTcb (h : RdvNumbers k wrdvno wait log) (hw : wait t = some (.rdv n m)) :
    getTcbRdvno n = t := by
  obtain ⟨ht, hhead⟩ := h.newest t n m hw
  rw [h.given t ht] at hhead
  have hmem := List.mem_of_mem_head? hhead
  rw [List.mem_reverse] at hmem
  obtain ⟨i, -, rfl⟩ := List.mem_map.1 hmem
  exact getTcbRdvno_rdvnoOf ht i

/-- A record that neither gives a number nor answers one. -/
theorem quiet (h : RdvNumbers k wrdvno wait log) (hg : ∀ t, r.rdvnoGiven t = none)
    (hacc : ∀ n, r.accepts n = false) (hans : ∀ n, r.answers n = false) :
    RdvNumbers k wrdvno wait (r :: log) := by
  have hnos : ∀ t, rdvnosOf t (r :: log) = rdvnosOf t log := fun t =>
    List.filterMap_cons_none (hg t)
  refine ⟨fun t ht => ?_, fun t ht => ?_, fun t n m hw => ?_, fun n => ?_⟩
  · rw [hnos]
    exact h.next t ht
  · rw [hnos]
    exact h.given t ht
  · rw [hnos]
    exact h.newest t n m hw
  · unfold acceptedUnder answersTo
    rw [List.countP_cons_of_neg (by rw [hacc]; exact Bool.false_ne_true),
      List.countP_cons_of_neg (by rw [hans]; exact Bool.false_ne_true)]
    exact h.balance n

/-- Tasks that wait for no answer change their waits to ones that are for no answer either. -/
theorem setWaits (h : RdvNumbers k wrdvno wait log) {wait' : Tid → Option PorWait}
    (hw : ∀ u, wait' u = wait u ∨
      (∀ n m, wait u ≠ some (.rdv n m)) ∧ ∀ n m, wait' u ≠ some (.rdv n m)) :
    RdvNumbers k wrdvno wait' log := by
  refine ⟨h.next, h.given, fun u n m hu => ?_, fun n => ?_⟩
  · rcases hw u with he | ⟨-, hno⟩
    · exact h.newest u n m (he ▸ hu)
    · exact absurd hu (hno n m)
  · rw [h.balance n]
    rcases hw (getTcbRdvno n) with he | ⟨hold, hnew⟩
    · rw [he]
    · rw [openUnder_of_ne hold, openUnder_of_ne hnew]

theorem setWait (h : RdvNumbers k wrdvno wait log) (hw : ∀ n m, wait t ≠ some (.rdv n m))
    (hv : ∀ n m, v ≠ some (.rdv n m)) :
    RdvNumbers k wrdvno (Function.update wait t v) log := by
  refine h.setWaits fun u => ?_
  by_cases hut : u = t
  · subst hut
    rw [Function.update_self]
    exact .inr ⟨hw, hv⟩
  · exact .inl (Function.update_of_ne hut _ _)

/-- The call of `t` is accepted. -/
theorem accept (h : RdvNumbers k wrdvno wait log) (ht : t < k.numTskid)
    (hw : ∀ n m, wait t ≠ some (.rdv n m)) (a : Tid) (msg : List UInt8) (m : Nat) :
    RdvNumbers k (Function.update wrdvno t ((wrdvno t + 2 ^ RDVNO_SHIFT) % 2 ^ 32))
      (Function.update wait t (some (.rdv (wrdvno t) m)))
      (.accepted (wrdvno t) t a msg :: log) := by
  have hself : rdvnosOf t (.accepted (wrdvno t) t a msg :: log) = wrdvno t :: rdvnosOf t log :=
    List.filterMap_cons_some (if_pos rfl)
  have hother : ∀ u, u ≠ t → rdvnosOf u (.accepted (wrdvno t) t a msg :: log) = rdvnosOf u log :=
    fun u hu => List.filterMap_cons_none (if_neg (Ne.symm hu))
  have hno := h.next t ht
  have htcb : getTcbRdvno (wrdvno t) = t := by
    rw [hno]
    exact getTcbRdvno_rdvnoOf ht _
  refine ⟨fun u hu => ?_, fun u hu => ?_, fun u n m' hwu => ?_, fun n => ?_⟩
  · by_cases hut : u = t
    · subst hut
      rw [Function.update_self, hself, List.length_cons, rdvnoOf_succ, ← hno]
    · rw [Function.update_of_ne hut, hother u hut]
      exact h.next u hu
  · by_cases hut : u = t
    · subst hut
      rw [hself, List.length_cons, List.range_succ, List.map_append, List.reverse_append, ← h.given u hu,
        List.map_singleton, ← hno]
      rfl
    · rw [hother u hut]
      exact h.given u hu
  · by_cases hut : u = t
    · subst hut
      rw [Function.update_self] at hwu
      cases hwu
      exact ⟨ht, by rw [hself]; rfl⟩
    · rw [Function.update_of_ne hut] at hwu
      rw [hother u hut]
      exact h.newest u n m' hwu
  · have hbal := h.balance n
    have hans : answersTo n (.accepted (wrdvno t) t a msg :: log) = answersTo n log :=
      List.countP_cons_of_neg Bool.false_ne_true
    rw [hans]
    by_cases hn : n = wrdvno t
    · subst hn
      have hacc : acceptedUnder (wrdvno t) (.accepted (wrdvno t) t a msg :: log) =
          acceptedUnder (wrdvno t) log + 1 := List.countP_cons_of_pos (beq_self_eq_true _)
      rw [htcb, openUnder_of_ne hw] at hbal
      rw [hacc, htcb, Function.update_self, hbal]
      simp [openUnder]
    · have hacc : acceptedUnder n (.accepted (wrdvno t) t a msg :: log) = acceptedUnder n log :=
        List.countP_cons_of_neg fun he => hn (beq_iff_eq.1 he).symm
      rw [hacc, hbal]
      by_cases hut : getTcbRdvno n = t
      · subst hut
        rw [Function.update_self, openUnder_of_ne hw]
        simp [openUnder, Ne.symm hn]
      · rw [Function.update_of_ne hut]

/-- The number that `t` waits for an answer to gets one. -/
theorem answer (h : RdvNumbers k wrdvno wait log) (hw : wait t = some (.rdv n m))
    (hv : ∀ n m, v ≠ some (.rdv n m)) (hg : ∀ t, r.rdvnoGiven t = none)
    (hacc : ∀ n, r.accepts n = false) (hans : ∀ i, r.answers i = (n == i)) :
    RdvNumbers k wrdvno (Function.update wait t v) (r :: log) := by
  have hnos : ∀ t, rdvnosOf t (r :: log) = rdvnosOf t log := fun t =>
    List.filterMap_cons_none (hg t)
  have htcb := h.getTcb hw
  refine ⟨fun u hu => ?_, fun u hu => ?_, fun u n' m' hu => ?_, fun i => ?_⟩
  · rw [hnos]
    exact h.next u hu
  · rw [hnos]
    exact h.given u hu
  · rw [hnos]
    by_cases hut : u = t
    · subst hut
      rw [Function.update_self] at hu
      exact absurd hu (hv n' m')
    · rw [Function.update_of_ne hut] at hu
      exact h.newest u n' m' hu
  · have hbal := h.balance i
    have hacc' : acceptedUnder i (r :: log) = acceptedUnder i log :=
      List.countP_cons_of_neg (by rw [hacc]; exact Bool.false_ne_true)
    rw [hacc', hbal]
    by_cases hi : i = n
    · subst hi
      have hans' : answersTo i (r :: log) = answersTo i log + 1 :=
        List.countP_cons_of_pos (by rw [hans]; exact beq_self_eq_true _)
      rw [hans', htcb, Function.update_self, hw, openUnder_of_ne hv]
      simp [openUnder]
    · have hans' : answersTo i (r :: log) = answersTo i log :=
        List.countP_cons_of_neg (by rw [hans]; exact fun he => hi (beq_iff_eq.1 he).symm)
      rw [hans']
      by_cases hut : getTcbRdvno i = t
      · subst hut
        rw [Function.update_self, hw, openUnder_of_ne hv]
        simp [openUnder, Ne.symm hi]
      · rw [Function.update_of_ne hut]

end RdvNumbers

end

/-- What a state says about the numbers. -/
abbrev RdvNumbersIn (k : RdvCfg) (s : RdvSys) : Prop := RdvNumbers k s.wrdvno s.wait s.log

namespace RdvNumbersIn

variable {k : RdvCfg} {s s' : RdvSys} {t : Tid} {p n m rdvno : Nat}

theorem sent (h : RdvNumbersIn k s) (t : Tid) (msg : List UInt8) :
    RdvNumbers k s.wrdvno s.wait (.sent t msg :: s.log) :=
  h.quiet (fun _ => rfl) (fun _ => rfl) fun _ => rfl

/-- A task that waits to accept stops, and then a call is accepted. -/
theorem accepted {wrdvno : Tid → Nat} {wait : Tid → Option PorWait} {log : List RdvRecord}
    (h : RdvNumbers k wrdvno wait log) (ht : t < k.numTskid)
    (hw : ∀ n m, wait t ≠ some (.rdv n m)) {a : Tid} {acpptn : BitVec 32}
    (ha : wait a = some (.acp p acpptn)) (msg : List UInt8) (m : Nat) :
    RdvNumbers k (Function.update wrdvno t ((wrdvno t + 2 ^ RDVNO_SHIFT) % 2 ^ 32))
      (Function.update (Function.update wait a none) t (some (.rdv (wrdvno t) m)))
      (.accepted (wrdvno t) t a msg :: log) := by
  have hstop : RdvNumbers k wrdvno (Function.update wait a none) log := by
    refine h.setWait (fun n m hn => ?_) fun n m hn => nomatch hn
    rw [ha] at hn
    cases hn
  refine hstop.accept ht (fun n m => ?_) a msg m
  by_cases hta : t = a
  · subst hta
    rw [Function.update_self]
    exact fun hn => nomatch hn
  · rw [Function.update_of_ne hta]
    exact hw n m

theorem calPor (h : RdvNumbersIn k s) (hq : Queued s.porcb s.wait) (ht : t < k.numTskid)
    (hw : s.wait t = none) (calptn : BitVec 32) (n : Nat) (tmout : Tmo) :
    RdvNumbersIn k (s.calPor t p calptn n tmout) := by
  have hnone : ∀ n m, s.wait t ≠ some (.rdv n m) := fun n m hn => by
    rw [hw] at hn
    cases hn
  unfold RdvSys.calPor
  dsimp only
  split
  · rename_i a hfind
    obtain ⟨acpptn, ha, -⟩ := RdvSys.searchAccept_some hq hfind
    have hacc := accepted (h.sent t ((s.frame t).msg.read n)) ht hnone ha
    unfold RdvSys.sendMessage RdvSys.copyTo
    split
    · exact hacc _ _
    · exact hacc _ _
  · split
    · exact h.sent t _
    · exact (h.sent t _).setWait hnone fun n m hn => nomatch hn

theorem acpPor (h : RdvNumbersIn k s) (hq : Queued s.porcb s.wait)
    (htask : ∀ t w, s.wait t = some w → t < k.numTskid) (hw : s.wait t = none)
    (acpptn : BitVec 32) (tmout : Tmo) : RdvNumbersIn k (s.acpPor t p acpptn tmout) := by
  have hnone : ∀ n m, s.wait t ≠ some (.rdv n m) := fun n m hn => by
    rw [hw] at hn
    cases hn
  unfold RdvSys.acpPor
  dsimp only
  split
  · rename_i c hfind
    obtain ⟨b, calptn, n, hc, -⟩ := RdvSys.searchCall_some hq hfind
    have hacc := h.accept (htask c _ hc) (fun n m hn => by rw [hc] at hn; cases hn) t
    unfold RdvSys.copyTo
    split
    · exact hacc _ _
    · exact hacc _ _
  · split
    · exact h
    · exact h.setWait hnone fun n m hn => nomatch hn

theorem fwdPor (h : RdvNumbersIn k s) (hq : Queued s.porcb s.wait)
    (hw : s.wait t = some (.rdv rdvno m)) (calptn : BitVec 32) (msg : MsgArea) (n : Nat) :
    RdvNumbersIn k (s.fwdPor t p calptn rdvno msg n) := by
  -- the caller stops waiting for the answer to the old number, and goes on with the new one
  have hans : ∀ v, (∀ n m, v ≠ some (.rdv n m)) →
      RdvNumbers k s.wrdvno (Function.update s.wait t v)
        (.sent t (msg.read n) :: .forwarded rdvno :: s.log) := fun v hv =>
    (h.answer hw hv (fun _ => rfl) (fun _ => rfl) fun _ => rfl).quiet (fun _ => rfl)
      (fun _ => rfl) fun _ => rfl
  unfold RdvSys.fwdPor
  dsimp only
  split
  · rename_i a hfind
    obtain ⟨acpptn, ha, -⟩ := RdvSys.searchAccept_some hq hfind
    have hat : a ≠ t := by
      rintro rfl
      rw [hw] at ha
      cases ha
    have hwait : ∀ v, Function.update (Function.update (Function.update s.wait t none) a none) t v =
        Function.update (Function.update s.wait a none) t v := fun v => by
      rw [Function.update_comm hat.symm, Function.update_idem]
    have hacc : ∀ c m, RdvNumbers k
        (Function.update s.wrdvno t ((s.wrdvno t + 2 ^ RDVNO_SHIFT) % 2 ^ 32))
        (Function.update (Function.update s.wait a none) t (some (.rdv (s.wrdvno t) m)))
        (.accepted (s.wrdvno t) t a c :: .sent t (msg.read n) :: .forwarded rdvno :: s.log) := by
      intro c m
      rw [← hwait]
      refine accepted (hans none fun n m hn => nomatch hn) (h.newest t rdvno _ hw).1 ?_
        ((Function.update_of_ne hat _ _).trans ha) c m
      intro n m hn
      rw [Function.update_self] at hn
      cases hn
    unfold RdvSys.sendMessage RdvSys.copyTo
    split
    · exact hacc _ _
    · exact hacc _ _
  · unfold RdvSys.copyTo
    split
    · exact hans _ fun n m hn => nomatch hn
    · exact hans _ fun n m hn => nomatch hn

theorem rplRdv (h : RdvNumbersIn k s) (hw : s.wait t = some (.rdv rdvno m)) (msg : MsgArea)
    (n : Nat) : RdvNumbersIn k (s.rplRdv t rdvno msg n) := by
  have hans : RdvNumbers k s.wrdvno (Function.update s.wait t none)
      (.replied rdvno (msg.read n) :: s.log) :=
    h.answer hw (fun _ _ hn => nomatch hn) (fun _ => rfl) (fun _ => rfl) fun _ => rfl
  unfold RdvSys.rplRdv RdvSys.copyTo
  dsimp only
  split
  · exact hans
  · exact hans

/-- The wait of a task ends, and the rendezvous with it. -/
theorem breaks (h : RdvNumbersIn k s) (t : Tid) :
    RdvNumbers k (s.breaks t).wrdvno (Function.update (s.breaks t).wait t none)
      (s.breaks t).log := by
  rw [RdvSys.breaks_wrdvno, RdvSys.breaks_wait]
  unfold RdvSys.breaks
  split
  · rename_i rdvno m hw
    exact h.answer hw (fun _ _ hn => nomatch hn) (fun _ => rfl) (fun _ => rfl) fun _ => rfl
  · rename_i hno
    exact h.setWait (fun n m hn => hno n m hn) fun n m hn => nomatch hn

theorem knlWaitDelete_eq (queue : List Tid) (s : RdvSys) :
    (RdvSys.knlWaitDelete queue s).wrdvno = s.wrdvno ∧
      (RdvSys.knlWaitDelete queue s).log = s.log := by
  induction queue generalizing s with
  | nil => exact ⟨rfl, rfl⟩
  | cons t queue ih => exact ih (s.release t .E_DLT)

/-- The tasks in a queue of a port wait for no answer. -/
theorem knlWaitDelete (h : RdvNumbersIn k s) (hq : Queued s.porcb s.wait) (q : PorQue) :
    RdvNumbersIn k (RdvSys.knlWaitDelete (porQue s.porcb q) s) := by
  obtain ⟨hno, hlog⟩ := knlWaitDelete_eq (porQue s.porcb q) s
  show RdvNumbers k _ _ _
  rw [hno, hlog]
  refine h.setWaits fun u => ?_
  rw [RdvPlaces.wait_knlWaitDelete]
  split
  · rename_i hu
    obtain ⟨w, hw, hwq⟩ := (hq.mem q u).1 hu
    refine .inr ⟨fun n m hn => ?_, fun n m hn => nomatch hn⟩
    rw [hw] at hn
    cases hn
    cases hwq
  · exact .inl rfl

theorem step (h : RdvNumbersIn k s) (hp : RdvPlaces k s) {e : RdvEvent}
    (hs : s.step k e = some s') : RdvNumbersIn k s' := by
  have htask : ∀ t w, s.wait t = some w → t < k.numTskid := fun t w hw =>
    hp.tasks t (by rw [hp.calls t w hw]; exact Option.some_ne_none _)
  cases e with
  | tkCrePor tpri maxcmsz maxrmsz =>
    cases hs
    unfold RdvSys.tkCrePor
    split
    · exact h
    split
    · exact h
    · exact h
  | tkDelPor porid =>
    cases hs
    unfold RdvSys.tkDelPor
    split
    · exact h
    split
    · exact h
    have hcall := h.knlWaitDelete hp.queued (.call porid)
    exact hcall.knlWaitDelete (hp.knlWaitDelete _).queued (.accept porid)
  | tkCalPor self porid calptn msg cmsgsz tmout =>
    obtain ⟨hfree, hs⟩ := Option.ite_none_right_eq_some.1 hs
    cases hs
    have hf : self < k.numTskid ∧ s.call self = none := by simpa [RdvSys.free?] using hfree
    have henter : RdvNumbersIn k (s.enter self .cal msg) := h
    unfold RdvSys.tkCalPor
    split
    · exact h
    split
    · exact h
    split
    · exact h
    split
    · exact h
    · exact henter.calPor hp.queued hf.1 (hp.wait_eq_none hf.2) calptn _ tmout
  | tkAcpPor self porid acpptn msg tmout =>
    obtain ⟨hfree, hs⟩ := Option.ite_none_right_eq_some.1 hs
    cases hs
    have hf : self < k.numTskid ∧ s.call self = none := by simpa [RdvSys.free?] using hfree
    have henter : RdvNumbersIn k (s.enter self .acp msg) := h
    unfold RdvSys.tkAcpPor
    split
    · exact h
    split
    · exact h
    split
    · exact h
    · exact henter.acpPor hp.queued htask (hp.wait_eq_none hf.2) acpptn tmout
  | tkFwdPor porid calptn rdvno msg cmsgsz =>
    cases hs
    rcases RdvSys.tkFwdPor_cases with ⟨hsame, -⟩ | ⟨m, hw, -, -, -, -, -, heq⟩
    · rw [hsame]
      exact h
    · rw [heq]
      exact h.fwdPor hp.queued hw calptn msg _
  | tkRplRdv rdvno msg rmsgsz =>
    cases hs
    rcases RdvSys.tkRplRdv_cases with ⟨hsame, -⟩ | ⟨m, hw, -, -, heq⟩
    · rw [hsame]
      exact h
    · rw [heq]
      exact h.rplRdv hw msg _
  | timeout t =>
    obtain ⟨-, hs⟩ := Option.ite_none_right_eq_some.1 hs
    cases hs
    exact h.breaks t
  | tkRelWai t =>
    obtain ⟨-, hs⟩ := Option.ite_none_right_eq_some.1 hs
    cases hs
    exact h.breaks t
  | tkTerTsk t =>
    cases hs
    refine RdvNumbers.quiet ?_ (fun _ => rfl) (fun _ => rfl) fun _ => rfl
    split
    · exact h.breaks t
    · exact h
  | chgPri t priority =>
    cases hs
    unfold RdvSys.calChgPri
    split
    · exact h
    · exact h
  | ret t =>
    simp only [RdvSys.step] at hs
    split at hs
    · obtain ⟨hw, hs⟩ := Option.ite_none_right_eq_some.1 hs
      cases hs
      rename_i c _
      cases c with
      | cal => exact h.quiet (fun _ => rfl) (fun _ => rfl) fun _ => rfl
      | acp => exact h.quiet (fun _ => rfl) (fun _ => rfl) fun _ => rfl
    · cases hs

theorem boot (k : RdvCfg) (priority : Tid → Nat) : RdvNumbersIn k (.boot k priority) where
  next t ht := by
    have hlt : t + 1 < 2 ^ 32 :=
      Nat.lt_trans (Nat.lt_of_le_of_lt ht k.small) (by decide)
    show t + 1 = (t + 1 + 0 * 2 ^ RDVNO_SHIFT) % 2 ^ 32
    rw [Nat.zero_mul, Nat.add_zero, Nat.mod_eq_of_lt hlt]
  given _ _ := rfl
  newest _ _ _ hw := nomatch hw
  balance _ := rfl

theorem of_reachable (hr : (rdvMachine k).Reachable s) : RdvNumbersIn k s := by
  have hboth : RdvPlaces k s ∧ RdvNumbersIn k s := by
    apply Lts.ReachableIf.invariant (fun s => RdvPlaces k s ∧ RdvNumbersIn k s) ?_ ?_ hr
    · rintro s ⟨priority, rfl⟩
      exact ⟨RdvPlaces.boot k priority, boot k priority⟩
    · rintro s e s' ⟨hp, h⟩ - hs
      exact ⟨hp.step hs, h.step hp hs⟩
  exact hboth.2

end RdvNumbersIn

end Mtk3Smp
