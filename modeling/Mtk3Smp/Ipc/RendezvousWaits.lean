import Mtk3Smp.Ipc.RendezvousPlaces

/-!
# Every wait at a rendezvous port

`RdvPlaces` is kept by every call, by what ends a wait and by a change of priority.
-/

namespace Mtk3Smp

/-- The blocking call that a wait belongs to. -/
def PorWait.call : PorWait → PorCall
  | .cal _ _ _ _ | .rdv _ _ => .cal
  | .acp _ _ => .acp

structure RdvPlaces (k : RdvCfg) (s : RdvSys) : Prop where
  queued : Queued s.porcb s.wait
  sorted : ∀ p, (s.porcb p).tpri = true → KeyOrder.Sorted s.priority (s.porcb p).callQueue
  calls : ∀ t w, s.wait t = some w → s.call t = some w.call
  tasks : ∀ t, s.call t ≠ none → t < k.numTskid
  /-- the end of a rendezvous is waited for without a timeout -/
  patient : ∀ t n m, s.wait t = some (.rdv n m) → s.tmout t = .TMO_FEVR
  free : s.free.Nodup ∧ ∀ p ∈ s.free, (s.porcb p).exists_ = false

namespace RdvPlaces

variable {k : RdvCfg} {s s' : RdvSys} {t : Tid} {p n m : Nat}

theorem congr (h : RdvPlaces k s) (hp : s'.porcb = s.porcb) (hw : s'.wait = s.wait)
    (hpri : s'.priority = s.priority) (hc : s'.call = s.call) (ht : s'.tmout = s.tmout)
    (hf : s'.free = s.free) : RdvPlaces k s' where
  queued := by rw [hp, hw]; exact h.queued
  sorted := by rw [hp, hpri]; exact h.sorted
  calls := by rw [hw, hc]; exact h.calls
  tasks := by rw [hc]; exact h.tasks
  patient := by rw [hw, ht]; exact h.patient
  free := by rw [hp, hf]; exact h.free

theorem out_of_none (hw : s.wait t = none) : ∀ w, s.wait t = some w → w.que = none := by
  intro w hw'
  rw [hw] at hw'
  cases hw'

theorem out_of_rdv (hw : s.wait t = some (.rdv n m)) :
    ∀ w, s.wait t = some w → w.que = none := by
  intro w hw'
  rw [hw] at hw'
  cases hw'
  rfl

theorem sorted_queRemove (h : RdvPlaces k s) (t : Tid) (i : Nat)
    (htpri : ((s.queRemove t).porcb i).tpri = true) :
    KeyOrder.Sorted s.priority ((s.queRemove t).porcb i).callQueue := by
  have hque : ((s.queRemove t).porcb i).callQueue = (s.porcb i).callQueue.erase t :=
    RdvSys.porQue_queRemove h.queued t (.call i)
  rw [hque]
  rw [(RdvSys.sameAttr_queRemove s t i).2.1] at htpri
  exact (h.sorted i htpri).sublist List.erase_sublist

/-- One task changes its wait. -/
theorem change (h : RdvPlaces k s) {v : Option PorWait} (hw : s'.wait = Function.update s.wait t v)
    (hq : Queued s'.porcb (Function.update s.wait t v)) (hs : SameAttr s.porcb s'.porcb)
    (hsorted : ∀ p, (s'.porcb p).tpri = true →
      KeyOrder.Sorted s'.priority (s'.porcb p).callQueue)
    (hc : s'.call = s.call) (hv : ∀ w, v = some w → s.call t = some w.call)
    (htm : ∀ u, u ≠ t → s'.tmout u = s.tmout u)
    (hpat : ∀ n m, v = some (.rdv n m) → s'.tmout t = .TMO_FEVR) (hf : s'.free = s.free) :
    RdvPlaces k s' where
  queued := by rw [hw]; exact hq
  sorted := hsorted
  calls u w hu := by
    rw [hw] at hu
    rw [hc]
    by_cases hut : u = t
    · subst hut
      rw [Function.update_self] at hu
      exact hv w hu
    · rw [Function.update_of_ne hut] at hu
      exact h.calls u w hu
  tasks := by rw [hc]; exact h.tasks
  patient u n m hu := by
    rw [hw] at hu
    by_cases hut : u = t
    · subst hut
      rw [Function.update_self] at hu
      exact hpat n m hu
    · rw [Function.update_of_ne hut] at hu
      rw [htm u hut]
      exact h.patient u n m hu
  free := by
    rw [hf]
    exact ⟨h.free.1, fun p hp => (hs p).1.trans (h.free.2 p hp)⟩

/-- A wait is over. -/
theorem release (h : RdvPlaces k s) (t : Tid) : RdvPlaces k (s.knlWaitRelease t) :=
  h.change (t := t) (v := none) rfl (RdvSys.Queued.leave h.queued fun _ hw => nomatch hw)
    (RdvSys.sameAttr_queRemove s t) (h.sorted_queRemove t) rfl (fun _ hw => nomatch hw)
    (fun _ _ => rfl) (fun _ _ hw => nomatch hw) rfl

/-- A caller waits for the end of a rendezvous. -/
theorem meet (h : RdvPlaces k s) (hc : s.call t = some .cal) (n m : Nat) :
    RdvPlaces k ((s.queRemove t).setWait t (.rdv n m) .TMO_FEVR) := by
  refine h.change (t := t) rfl (RdvSys.Queued.leave h.queued fun w hw => by cases hw; rfl)
    (RdvSys.sameAttr_queRemove s t) (h.sorted_queRemove t) rfl ?_ ?_ ?_ rfl
  · intro w hw
    cases hw
    exact hc
  · exact fun u hu => Function.update_of_ne hu _ _
  · exact fun _ _ _ => Function.update_self _ _ _

/-- A caller that is in no queue waits for the end of a rendezvous. -/
theorem meetOut (h : RdvPlaces k s) (hc : s.call t = some .cal)
    (hout : ∀ w, s.wait t = some w → w.que = none) (n m : Nat) :
    RdvPlaces k (s.setWait t (.rdv n m) .TMO_FEVR) := by
  have hmeet := h.meet hc n m
  rwa [RdvSys.queRemove_eq hout] at hmeet

/-- A caller waits to be accepted. -/
theorem waitCall (h : RdvPlaces k s) (hc : s.call t = some .cal)
    (hout : ∀ w, s.wait t = some w → w.que = none) (hopen : (s.porcb p).exists_ = true)
    {calptn : BitVec 32} (hnone : s.searchAccept p calptn = none) (n : Nat) (tmout : Tmo) :
    RdvPlaces k ((s.setWait t (.cal p (s.porcb p).tpri calptn n) tmout).insertCall p t) := by
  refine h.change (t := t) rfl
    (RdvSys.joinCall h.queued hout hopen fun a acpptn ha =>
      RdvSys.searchAccept_none h.queued hnone ha)
    (SameAttr.update ⟨rfl, rfl, rfl, rfl⟩) ?_ rfl ?_ ?_ ?_ rfl
  · intro i htpri
    unfold RdvSys.insertCall RdvSys.setPor RdvSys.setWait at htpri ⊢
    dsimp only at htpri ⊢
    by_cases hi : i = p
    · subst hi
      rw [Function.update_self] at htpri ⊢
      dsimp only at htpri ⊢
      rw [if_pos htpri]
      exact (h.sorted i htpri).insert t
    · rw [Function.update_of_ne hi] at htpri ⊢
      exact h.sorted i htpri
  · intro w hw
    cases hw
    exact hc
  · exact fun u hu => Function.update_of_ne hu _ _
  · intro n m hw
    cases hw

/-- A task waits to accept. -/
theorem waitAccept (h : RdvPlaces k s) (hc : s.call t = some .acp)
    (hout : ∀ w, s.wait t = some w → w.que = none) (hopen : (s.porcb p).exists_ = true)
    {acpptn : BitVec 32} (hnone : s.searchCall p acpptn = none) (tmout : Tmo) :
    RdvPlaces k ((s.setWait t (.acp p acpptn) tmout).setPor p fun x =>
      { x with acceptQueue := x.acceptQueue ++ [t] }) := by
  refine h.change (t := t) rfl
    (RdvSys.joinAccept h.queued hout hopen fun c b calptn n hc =>
      RdvSys.searchCall_none h.queued hnone hc)
    (SameAttr.update ⟨rfl, rfl, rfl, rfl⟩) ?_ rfl ?_ ?_ ?_ rfl
  · intro i htpri
    unfold RdvSys.setPor RdvSys.setWait at htpri ⊢
    dsimp only at htpri ⊢
    by_cases hi : i = p
    · subst hi
      rw [Function.update_self] at htpri ⊢
      exact h.sorted i htpri
    · rw [Function.update_of_ne hi] at htpri ⊢
      exact h.sorted i htpri
  · intro w hw
    cases hw
    exact hc
  · exact fun u hu => Function.update_of_ne hu _ _
  · intro n m hw
    cases hw

/-! ## What leaves the waits alone -/

theorem setFrame (h : RdvPlaces k s) (t : Tid) (f : PorFrame → PorFrame) :
    RdvPlaces k (s.setFrame t f) :=
  h.congr rfl rfl rfl rfl rfl rfl

theorem setErcd (h : RdvPlaces k s) (t : Tid) (e : ER) : RdvPlaces k (s.setErcd t e) :=
  h.congr rfl rfl rfl rfl rfl rfl

theorem logged (h : RdvPlaces k s) (r : RdvRecord) : RdvPlaces k (s.logged r) :=
  h.congr rfl rfl rfl rfl rfl rfl

theorem knlGenRdvno (h : RdvPlaces k s) (t : Tid) : RdvPlaces k (s.knlGenRdvno t) :=
  h.congr rfl rfl rfl rfl rfl rfl

theorem copyTo (h : RdvPlaces k s) (t : Tid) (src : MsgArea) (n : Nat) :
    RdvPlaces k (s.copyTo t src n) := by
  unfold RdvSys.copyTo
  split
  · exact h.congr rfl rfl rfl rfl rfl rfl
  · exact h

theorem breaks (h : RdvPlaces k s) (t : Tid) : RdvPlaces k (s.breaks t) := by
  unfold RdvSys.breaks
  split
  · exact h.logged _
  · exact h

/-! ## The calls -/

theorem sendMessage (h : RdvPlaces k s) (tcb : Tid) (rdvno : Nat) (caller : Tid) (msg : MsgArea)
    (n : Nat) : RdvPlaces k (s.sendMessage tcb rdvno caller msg n) := by
  unfold RdvSys.sendMessage RdvSys.release
  exact ((((h.copyTo tcb msg n).setFrame tcb _).logged _).setErcd tcb _).release tcb

/-- Only the wait of the task that accepts changes. -/
theorem wait_sendMessage (s : RdvSys) (tcb : Tid) (rdvno : Nat) (caller : Tid) (msg : MsgArea)
    (n : Nat) : (s.sendMessage tcb rdvno caller msg n).wait = Function.update s.wait tcb none := by
  rw [← RdvSys.copyTo_wait s tcb msg n]
  rfl

theorem call_sendMessage (s : RdvSys) (tcb : Tid) (rdvno : Nat) (caller : Tid) (msg : MsgArea)
    (n : Nat) : (s.sendMessage tcb rdvno caller msg n).call = s.call :=
  RdvSys.copyTo_call s tcb msg n

/-- The message of a caller that is in no queue is accepted. -/
theorem sendMeet (h : RdvPlaces k s) (hc : s.call t = some .cal)
    (hout : ∀ w, s.wait t = some w → w.que = none) (tcb : Tid) (rdvno : Nat) (caller : Tid)
    (msg : MsgArea) (n m : Nat) :
    RdvPlaces k ((s.sendMessage tcb rdvno caller msg n).setWait t (.rdv rdvno m) .TMO_FEVR) := by
  refine (h.sendMessage tcb rdvno caller msg n).meetOut ?_ ?_ rdvno m
  · rw [call_sendMessage]
    exact hc
  · intro w hw
    rw [wait_sendMessage] at hw
    by_cases ht : t = tcb
    · subst ht
      rw [Function.update_self] at hw
      cases hw
    · rw [Function.update_of_ne ht] at hw
      exact hout w hw

theorem calPor (h : RdvPlaces k s) (hc : s.call t = some .cal) (hw : s.wait t = none)
    (hopen : (s.porcb p).exists_ = true) (calptn : BitVec 32) (n : Nat) (tmout : Tmo) :
    RdvPlaces k (s.calPor t p calptn n tmout) := by
  unfold RdvSys.calPor
  dsimp only
  have hroom : RdvPlaces k { s with room := Function.update s.room t (s.porcb p).maxrmsz } :=
    h.congr rfl rfl rfl rfl rfl rfl
  split
  · rename_i tcb _
    have hgen := (hroom.logged (.sent t ((s.frame t).msg.read n))).knlGenRdvno t
    exact (hgen.sendMeet hc (out_of_none hw) tcb _ _ _ n _).setErcd t .E_TMOUT
  · have herr := (hroom.logged (.sent t ((s.frame t).msg.read n))).setErcd t .E_TMOUT
    split
    · exact herr
    · exact herr.waitCall hc (out_of_none hw) hopen ‹_› n tmout

theorem acpPor (h : RdvPlaces k s) (hc : s.call t = some .acp) (hw : s.wait t = none)
    (hopen : (s.porcb p).exists_ = true) (acpptn : BitVec 32) (tmout : Tmo) :
    RdvPlaces k (s.acpPor t p acpptn tmout) := by
  unfold RdvSys.acpPor
  dsimp only
  have hroom : RdvPlaces k { s with room := Function.update s.room t (s.porcb p).maxcmsz } :=
    h.congr rfl rfl rfl rfl rfl rfl
  split
  · rename_i c hcall
    obtain ⟨b, calptn, n, hwc, -⟩ := RdvSys.searchCall_some hroom.queued hcall
    have hcal : s.call c = some .cal := h.calls c _ hwc
    refine ((((hroom.knlGenRdvno c).setFrame t _).copyTo t _ _).logged _).meet ?_ _ _
    exact (congrFun (RdvSys.copyTo_call _ _ _ _) c).trans hcal
  · have herr := hroom.setErcd t .E_TMOUT
    split
    · exact herr
    · exact herr.waitAccept hc (out_of_none hw) hopen ‹_› tmout

/-- What the test of tk_fwd_por and tk_rpl_rdv finds. -/
theorem wait_of_maxrmsz {rdvno : Nat} (hm : s.maxrmsz t rdvno = some m) :
    s.wait t = some (.rdv rdvno m) := by
  unfold RdvSys.maxrmsz at hm
  split at hm
  · rename_i n' m' hw
    obtain ⟨rfl, he⟩ := Option.ite_none_right_eq_some.1 hm
    cases he
    exact hw
  · cases hm

theorem fwdPor (h : RdvPlaces k s) {rdvno : Nat} (hw : s.wait t = some (.rdv rdvno m))
    (hopen : (s.porcb p).exists_ = true) (calptn : BitVec 32) (msg : MsgArea) (n : Nat) :
    RdvPlaces k (s.fwdPor t p calptn rdvno msg n) := by
  have hc : s.call t = some .cal := h.calls t _ hw
  have hlog := (h.logged (.forwarded rdvno)).logged (.sent t (msg.read n))
  unfold RdvSys.fwdPor
  dsimp only
  split
  · rename_i tcb _
    exact (hlog.knlGenRdvno t).sendMeet hc (out_of_rdv hw) tcb _ _ msg n _
  · exact (hlog.waitCall hc (out_of_rdv hw) hopen ‹_› n .TMO_FEVR).copyTo t msg n

theorem rplRdv (h : RdvPlaces k s) (t : Tid) (rdvno : Nat) (msg : MsgArea) (n : Nat) :
    RdvPlaces k (s.rplRdv t rdvno msg n) := by
  unfold RdvSys.rplRdv
  exact ((((h.logged _).copyTo t msg n).setFrame t _).setErcd t .E_OK).release t

theorem tkCalPor (h : RdvPlaces k s) (hc : s.call t = some .cal) (hw : s.wait t = none)
    (calptn : BitVec 32) (cmsgsz : Int) (tmout : Tmo) :
    RdvPlaces k (s.tkCalPor k t p calptn cmsgsz tmout) := by
  unfold RdvSys.tkCalPor
  split
  · exact h.setErcd t _
  split
  · exact h.setErcd t _
  split
  · exact h.setErcd t _
  rename_i hopen
  split
  · exact h.setErcd t _
  · exact h.calPor hc hw (by simpa using hopen) calptn _ tmout

theorem tkAcpPor (h : RdvPlaces k s) (hc : s.call t = some .acp) (hw : s.wait t = none)
    (acpptn : BitVec 32) (tmout : Tmo) : RdvPlaces k (s.tkAcpPor k t p acpptn tmout) := by
  unfold RdvSys.tkAcpPor
  split
  · exact h.setErcd t _
  split
  · exact h.setErcd t _
  split
  · exact h.setErcd t _
  rename_i hopen
  exact h.acpPor hc hw (by simpa using hopen) acpptn tmout

end RdvPlaces

namespace RdvSys

variable {k : RdvCfg} {s : RdvSys} {p rdvno : Nat} {calptn : BitVec 32} {msg : MsgArea}
  {cmsgsz rmsgsz : Int}

/-- tk_fwd_por leaves everything as it is, or forwards a call that waits for a reply. -/
theorem tkFwdPor_cases :
    ((s.tkFwdPor k p calptn rdvno msg cmsgsz).1 = s ∧
      (s.tkFwdPor k p calptn rdvno msg cmsgsz).2 ≠ .E_OK) ∨
    ∃ m, s.wait (getTcbRdvno rdvno) = some (.rdv rdvno m) ∧ (s.porcb p).exists_ = true ∧
      0 ≤ cmsgsz ∧ cmsgsz ≤ (s.porcb p).maxcmsz ∧ (s.porcb p).maxrmsz ≤ m ∧ cmsgsz ≤ m ∧
      s.tkFwdPor k p calptn rdvno msg cmsgsz =
        (s.fwdPor (getTcbRdvno rdvno) p calptn rdvno msg cmsgsz.toNat, .E_OK) := by
  unfold tkFwdPor
  dsimp only
  split
  · exact .inl ⟨rfl, ER.noConfusion⟩
  split
  · exact .inl ⟨rfl, ER.noConfusion⟩
  split
  · exact .inl ⟨rfl, ER.noConfusion⟩
  split
  · exact .inl ⟨rfl, ER.noConfusion⟩
  split
  · exact .inl ⟨rfl, ER.noConfusion⟩
  split
  · exact .inl ⟨rfl, ER.noConfusion⟩
  split
  · exact .inl ⟨rfl, ER.noConfusion⟩
  rename_i hpar hopen hcmsz _ m hm
  split
  · exact .inl ⟨rfl, ER.noConfusion⟩
  split
  · exact .inl ⟨rfl, ER.noConfusion⟩
  rename_i hmax hlen
  exact .inr ⟨m, RdvPlaces.wait_of_maxrmsz hm, by simpa using hopen, not_lt.1 hpar,
    not_lt.1 hcmsz, not_lt.1 hmax, not_lt.1 hlen, rfl⟩

/-- tk_rpl_rdv leaves everything as it is, or releases a caller that waits for the reply. -/
theorem tkRplRdv_cases :
    ((s.tkRplRdv k rdvno msg rmsgsz).1 = s ∧ (s.tkRplRdv k rdvno msg rmsgsz).2 ≠ .E_OK) ∨
    ∃ m, s.wait (getTcbRdvno rdvno) = some (.rdv rdvno m) ∧ 0 ≤ rmsgsz ∧ rmsgsz ≤ m ∧
      s.tkRplRdv k rdvno msg rmsgsz =
        (s.rplRdv (getTcbRdvno rdvno) rdvno msg rmsgsz.toNat, .E_OK) := by
  unfold tkRplRdv
  dsimp only
  split
  · exact .inl ⟨rfl, ER.noConfusion⟩
  split
  · exact .inl ⟨rfl, ER.noConfusion⟩
  split
  · exact .inl ⟨rfl, ER.noConfusion⟩
  rename_i hpar _ m hm
  split
  · exact .inl ⟨rfl, ER.noConfusion⟩
  rename_i hlen
  exact .inr ⟨m, RdvPlaces.wait_of_maxrmsz hm, not_lt.1 hpar, not_lt.1 hlen, rfl⟩

end RdvSys

namespace RdvPlaces

variable {k : RdvCfg} {s s' : RdvSys} {t u : Tid} {p : Nat}

/-! ## The other steps -/

theorem wait_knlWaitDelete (queue : List Tid) (s : RdvSys) (u : Tid) :
    (RdvSys.knlWaitDelete queue s).wait u = if u ∈ queue then none else s.wait u := by
  induction queue generalizing s with
  | nil => rfl
  | cons t queue ih =>
    have hrel : (s.release t .E_DLT).wait = Function.update s.wait t none := rfl
    show (RdvSys.knlWaitDelete queue (s.release t .E_DLT)).wait u = _
    rw [ih, hrel]
    by_cases hu : u = t
    · subst hu
      simp
    · rw [Function.update_of_ne hu]
      simp [hu]

theorem knlWaitDelete (h : RdvPlaces k s) (queue : List Tid) :
    RdvPlaces k (RdvSys.knlWaitDelete queue s) := by
  induction queue generalizing s with
  | nil => exact h
  | cons t queue ih => exact ih ((h.setErcd t .E_DLT).release t)

theorem sameAttr_knlWaitDelete (queue : List Tid) (s : RdvSys) :
    SameAttr s.porcb (RdvSys.knlWaitDelete queue s).porcb := by
  induction queue generalizing s with
  | nil => exact SameAttr.refl _
  | cons t queue ih =>
    exact (RdvSys.sameAttr_queRemove (s.setErcd t .E_DLT) t).trans (ih (s.release t .E_DLT))

/-- A port at which nobody waits is given up. -/
theorem close (h : RdvPlaces k s) (hopen : (s.porcb p).exists_ = true)
    (hnone : ∀ t w q, s.wait t = some w → w.que = some q → q.porid ≠ p) :
    RdvPlaces k ({ s with free := s.free ++ [p] }.setPor p fun x => { x with exists_ := false })
    where
  queued := by
    have hque : ∀ q, porQue (Function.update s.porcb p { s.porcb p with exists_ := false }) q =
        porQue s.porcb q := by
      intro q
      by_cases hq : q.porid = p
      · subst hq
        rw [porQue_update_self rfl]
        cases q <;> rfl
      · rw [porQue_update_ne hq]
    refine ⟨fun q t => ?_, fun q => ?_, fun t w hw => ?_, h.queued.apart⟩
    · exact (iff_of_eq (congrArg (t ∈ ·) (hque q))).trans (h.queued.mem q t)
    · exact (hque q).symm ▸ h.queued.nodup q
    · exact (h.queued.fits t w hw).update fun q hq => hnone t w q hw hq
  sorted i htpri := by
    unfold RdvSys.setPor at htpri ⊢
    dsimp only at htpri ⊢
    by_cases hi : i = p
    · subst hi
      rw [Function.update_self] at htpri ⊢
      exact h.sorted i htpri
    · rw [Function.update_of_ne hi] at htpri ⊢
      exact h.sorted i htpri
  calls := h.calls
  tasks := h.tasks
  patient := h.patient
  free := by
    have hp : p ∉ s.free := fun hm => by
      rw [h.free.2 p hm] at hopen
      cases hopen
    unfold RdvSys.setPor
    refine ⟨List.nodup_append.2 ⟨h.free.1, List.nodup_singleton p, fun i hi j hj he => ?_⟩, ?_⟩
    · rw [List.mem_singleton] at hj
      exact hp (hj ▸ he ▸ hi)
    · intro i hi
      dsimp only
      by_cases hip : i = p
      · subst hip
        rw [Function.update_self]
      · rw [Function.update_of_ne hip]
        rcases List.mem_append.1 hi with hi | hi
        · exact h.free.2 i hi
        · exact absurd (List.mem_singleton.1 hi) hip

theorem tkDelPor (h : RdvPlaces k s) : RdvPlaces k (s.tkDelPor k p).1 := by
  unfold RdvSys.tkDelPor
  split
  · exact h
  split
  · exact h
  rename_i hopen
  dsimp only
  have h₁ := h.knlWaitDelete (s.porcb p).callQueue
  have h₂ := h₁.knlWaitDelete
    ((RdvSys.knlWaitDelete (s.porcb p).callQueue s).porcb p).acceptQueue
  refine h₂.close ?_ ?_
  · rw [((sameAttr_knlWaitDelete _ s).trans (sameAttr_knlWaitDelete _ _) p).1]
    simpa using hopen
  · intro t w q hw hq hp
    subst hp
    rw [wait_knlWaitDelete] at hw
    obtain ⟨hacc, hw⟩ := Option.ite_none_left_eq_some.1 hw
    have hw₁ := hw
    rw [wait_knlWaitDelete] at hw₁
    obtain ⟨hcall, hw₂⟩ := Option.ite_none_left_eq_some.1 hw₁
    cases q with
    | call i => exact hcall ((h.queued.mem (.call i) t).2 ⟨w, hw₂, hq⟩)
    | accept i => exact hacc ((h₁.queued.mem (.accept i) t).2 ⟨w, hw, hq⟩)

/-- Nobody waits at a port that is not there. -/
theorem que_of_closed (h : RdvPlaces k s) (hp : (s.porcb p).exists_ = false) {w : PorWait}
    {q : PorQue} (hw : s.wait t = some w) (hq : w.que = some q) : q.porid ≠ p := by
  rintro rfl
  have hfits := h.queued.fits t w hw
  cases w with
  | cal i b calptn n =>
    cases hq
    exact Bool.false_ne_true (hp.symm.trans hfits.1)
  | acp i acpptn =>
    cases hq
    exact Bool.false_ne_true (hp.symm.trans hfits)
  | rdv n m => cases hq

theorem tkCrePor (h : RdvPlaces k s) (tpri : Bool) (maxcmsz maxrmsz : Int) :
    RdvPlaces k (s.tkCrePor tpri maxcmsz maxrmsz).1 := by
  unfold RdvSys.tkCrePor
  split
  · exact h
  split
  · exact h
  rename_i p rest hfree
  obtain ⟨hnd, hno⟩ := h.free
  rw [hfree] at hnd hno
  have hclosed := hno p List.mem_cons_self
  have hnone : ∀ t w q, s.wait t = some w → w.que = some q → q.porid ≠ p :=
    fun _ _ _ => h.que_of_closed hclosed
  unfold RdvSys.setPor
  refine ⟨⟨fun q t => ?_, fun q => ?_, fun t w hw => ?_, h.queued.apart⟩, fun i htpri => ?_, h.calls,
    h.tasks, h.patient, hnd.of_cons, fun i hi => ?_⟩
  · dsimp only
    by_cases hq : q.porid = p
    · rw [porQue_update_self hq]
      have hempty : t ∉ porQue (fun _ => (⟨true, tpri, maxcmsz.toNat, maxrmsz.toNat, [], []⟩ : Porcb))
          q := by
        cases q <;> exact List.not_mem_nil
      refine iff_of_false hempty ?_
      rintro ⟨w, hw, hwq⟩
      exact hnone t w q hw hwq hq
    · rw [porQue_update_ne hq]
      exact h.queued.mem q t
  · dsimp only
    by_cases hq : q.porid = p
    · rw [porQue_update_self hq]
      cases q <;> exact List.nodup_nil
    · rw [porQue_update_ne hq]
      exact h.queued.nodup q
  · exact (h.queued.fits t w hw).update fun q hq => hnone t w q hw hq
  · dsimp only at htpri ⊢
    by_cases hi : i = p
    · subst hi
      rw [Function.update_self]
      exact List.Pairwise.nil
    · rw [Function.update_of_ne hi] at htpri ⊢
      exact h.sorted i htpri
  · have hip : i ≠ p := fun he => (List.nodup_cons.1 hnd).1 (he ▸ hi)
    dsimp only
    rw [Function.update_of_ne hip]
    exact hno i (List.mem_cons_of_mem _ hi)

/-- The queue of a task with a new priority is sorted again. -/
theorem sorted_other {priority : Nat} {l : List Tid}
    (hl : KeyOrder.Sorted s.priority l) (ht : t ∉ l) :
    KeyOrder.Sorted (Function.update s.priority t priority) l :=
  hl.congr fun _ hy => Function.update_of_ne (ne_of_mem_of_not_mem hy ht) _ _

theorem chgPri (h : RdvPlaces k s) (t : Tid) (priority : Nat) :
    RdvPlaces k ({ s with priority := Function.update s.priority t priority }.calChgPri t) := by
  unfold RdvSys.calChgPri
  dsimp only
  split
  · rename_i p calptn n hw
    have hmem : t ∈ (s.porcb p).callQueue := (RdvSys.mem_callQueue h.queued).2 ⟨_, _, _, hw⟩
    have hporcb : (RdvSys.queRemove { s with
        priority := Function.update s.priority t priority } t).porcb =
        Function.update s.porcb p { s.porcb p with callQueue := (s.porcb p).callQueue.erase t } := by
      unfold RdvSys.queRemove
      dsimp only
      rw [hw]
    have hnot : ∀ i, i ≠ p → t ∉ (s.porcb i).callQueue := by
      intro i hi hm
      obtain ⟨b, ptn, n', hw'⟩ := (RdvSys.mem_callQueue h.queued).1 hm
      rw [hw] at hw'
      cases hw'
      exact hi rfl
    unfold RdvSys.setPor
    rw [hporcb, Function.update_self, Function.update_idem]
    refine ⟨h.queued.perm (SameAttr.update ⟨rfl, rfl, rfl, rfl⟩) fun q => ?_, fun i htpri => ?_,
      h.calls, h.tasks, h.patient, h.free.1, fun i hi => ?_⟩
    · by_cases hq : q.porid = p
      · rw [porQue_update_self hq]
        subst hq
        cases q with
        | call i =>
          exact (KeyOrder.perm_insert _ _).trans (List.perm_cons_erase hmem).symm
        | accept i => exact List.Perm.refl _
      · rw [porQue_update_ne hq]
    · dsimp only at htpri ⊢
      by_cases hi : i = p
      · subst hi
        rw [Function.update_self] at htpri ⊢
        have herase := (h.sorted i htpri).sublist (List.erase_sublist (a := t))
        exact (sorted_other herase (h.queued.nodup (.call i)).not_mem_erase).insert t
      · rw [Function.update_of_ne hi] at htpri ⊢
        exact sorted_other (h.sorted i htpri) (hnot i hi)
    · have hattr : SameAttr s.porcb (Function.update s.porcb p
          { s.porcb p with
            callQueue := KeyOrder.insert (Function.update s.priority t priority) t
              ((s.porcb p).callQueue.erase t) }) := SameAttr.update ⟨rfl, rfl, rfl, rfl⟩
      exact (hattr i).1.trans (h.free.2 i hi)
  · rename_i hno
    refine ⟨h.queued, fun i htpri => ?_, h.calls, h.tasks, h.patient, h.free⟩
    refine sorted_other (h.sorted i htpri) fun hm => ?_
    obtain ⟨b, calptn, n, hw⟩ := (RdvSys.mem_callQueue h.queued).1 hm
    have hb : (s.porcb i).tpri = b := (h.queued.fits t _ hw).2
    rw [← hb, htpri] at hw
    exact hno _ _ _ hw

/-- A task that waits for nothing enters a blocking call. -/
theorem enter (h : RdvPlaces k s) (ht : t < k.numTskid) (hw : s.wait t = none) (c : PorCall)
    (msg : MsgArea) : RdvPlaces k (s.enter t c msg) where
  queued := h.queued
  sorted := h.sorted
  calls u w hu := by
    have hne : u ≠ t := by
      rintro rfl
      rw [show (s.enter u c msg).wait u = s.wait u from rfl, hw] at hu
      cases hu
    exact (Function.update_of_ne hne _ _).trans (h.calls u w hu)
  tasks u hu := by
    by_cases hne : u = t
    · exact hne ▸ ht
    · exact h.tasks u fun hn => hu ((Function.update_of_ne hne _ _).trans hn)
  patient := h.patient
  free := h.free

/-- The call of a task that waits for nothing is over. -/
theorem leave (h : RdvPlaces k s) (hw : s.wait t = none) :
    RdvPlaces k { s with call := Function.update s.call t none } where
  queued := h.queued
  sorted := h.sorted
  calls u w hu := by
    have hne : u ≠ t := by
      rintro rfl
      rw [show RdvSys.wait _ u = s.wait u from rfl, hw] at hu
      cases hu
    exact (Function.update_of_ne hne _ _).trans (h.calls u w hu)
  tasks u hu := by
    by_cases hne : u = t
    · subst hne
      exact absurd (Function.update_self _ _ _) hu
    · exact h.tasks u fun hn => hu ((Function.update_of_ne hne _ _).trans hn)
  patient := h.patient
  free := h.free

/-- A task that is in no call does not wait. -/
theorem wait_eq_none (h : RdvPlaces k s) (hc : s.call t = none) : s.wait t = none := by
  cases hw : s.wait t with
  | none => rfl
  | some w =>
    have hcall := h.calls t w hw
    rw [hc] at hcall
    cases hcall

theorem step (h : RdvPlaces k s) {e : RdvEvent} (hs : s.step k e = some s') : RdvPlaces k s' := by
  cases e with
  | tkCrePor tpri maxcmsz maxrmsz =>
    cases hs
    exact h.tkCrePor tpri maxcmsz maxrmsz
  | tkDelPor porid =>
    cases hs
    exact h.tkDelPor
  | tkCalPor self porid calptn msg cmsgsz tmout =>
    obtain ⟨hfree, hs⟩ := Option.ite_none_right_eq_some.1 hs
    cases hs
    have hf : self < k.numTskid ∧ s.call self = none := by simpa [RdvSys.free?] using hfree
    have hw := h.wait_eq_none hf.2
    exact (h.enter hf.1 hw .cal msg).tkCalPor (Function.update_self _ _ _) hw calptn cmsgsz tmout
  | tkAcpPor self porid acpptn msg tmout =>
    obtain ⟨hfree, hs⟩ := Option.ite_none_right_eq_some.1 hs
    cases hs
    have hf : self < k.numTskid ∧ s.call self = none := by simpa [RdvSys.free?] using hfree
    have hw := h.wait_eq_none hf.2
    exact (h.enter hf.1 hw .acp msg).tkAcpPor (Function.update_self _ _ _) hw acpptn tmout
  | tkFwdPor porid calptn rdvno msg cmsgsz =>
    cases hs
    rcases RdvSys.tkFwdPor_cases with ⟨hsame, -⟩ | ⟨m, hw, hopen, -, -, -, -, heq⟩
    · rw [hsame]
      exact h
    · rw [heq]
      exact h.fwdPor hw hopen calptn msg _
  | tkRplRdv rdvno msg rmsgsz =>
    cases hs
    rcases RdvSys.tkRplRdv_cases with ⟨hsame, -⟩ | ⟨m, -, -, -, heq⟩
    · rw [hsame]
      exact h
    · rw [heq]
      exact h.rplRdv _ rdvno msg _
  | timeout t =>
    obtain ⟨-, hs⟩ := Option.ite_none_right_eq_some.1 hs
    cases hs
    exact (h.breaks t).release t
  | tkRelWai t =>
    obtain ⟨-, hs⟩ := Option.ite_none_right_eq_some.1 hs
    cases hs
    exact ((h.breaks t).setErcd t .E_RLWAI).release t
  | tkTerTsk t =>
    cases hs
    split
    · exact (((h.breaks t).release t).leave (Function.update_self _ _ _)).logged _
    · rename_i hw
      exact (h.leave (by simpa using hw)).logged _
  | chgPri t priority =>
    cases hs
    exact h.chgPri t priority
  | ret t =>
    simp only [RdvSys.step] at hs
    split at hs
    · obtain ⟨hw, hs⟩ := Option.ite_none_right_eq_some.1 hs
      cases hs
      exact (h.leave hw).logged _
    · cases hs

theorem boot (k : RdvCfg) (priority : Tid → Nat) : RdvPlaces k (.boot k priority) where
  queued := by
    refine ⟨fun q t => ?_, fun q => ?_, ?_, ?_⟩
    · cases q <;> exact iff_of_false List.not_mem_nil fun ⟨w, hw, _⟩ => nomatch hw
    · cases q <;> exact List.nodup_nil
    · exact fun t w hw => nomatch hw
    · exact fun p c a b x y n hc => nomatch hc
  sorted _ _ := List.Pairwise.nil
  calls _ _ hw := nomatch hw
  tasks _ hc := absurd rfl hc
  patient _ _ _ hw := nomatch hw
  free := ⟨List.nodup_range.map (Nat.succ_injective), fun _ _ => rfl⟩

theorem of_reachable (hr : (rdvMachine k).Reachable s) : RdvPlaces k s := by
  apply Lts.ReachableIf.invariant (RdvPlaces k) ?_ ?_ hr
  · rintro s ⟨priority, rfl⟩
    exact boot k priority
  · intro s e s' h _ hs
    exact h.step hs

end RdvPlaces

end Mtk3Smp
