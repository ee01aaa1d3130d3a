import Mtk3Smp.Ipc.RendezvousWaits

/-!
# No message area is overrun

A caller has room for the longest reply of the port that it called, and a task that accepts for
the longest message. Forwarding to another port keeps to that.
-/

namespace Mtk3Smp

/-- All that may be written for a wait has room at the `msg` of the call. -/
def PorWait.Room (porcb : Nat → Porcb) (room : Nat) : PorWait → Prop
  | .cal p _ _ n => n ≤ (porcb p).maxcmsz ∧ (porcb p).maxrmsz ≤ room
  | .acp p _ => (porcb p).maxcmsz ≤ room
  | .rdv _ m => m ≤ room

structure RdvFits (s : RdvSys) : Prop where
  waits : ∀ t w, s.wait t = some w → w.Room s.porcb (s.room t)
  written : ∀ x ∈ s.written, x.2.1 ≤ x.2.2

section

variable {porcb porcb' : Nat → Porcb} {room p : Nat} {w : PorWait} {x : Porcb}

theorem PorWait.Room.congr (h : w.Room porcb room)
    (hs : ∀ p, (porcb' p).maxcmsz = (porcb p).maxcmsz ∧ (porcb' p).maxrmsz = (porcb p).maxrmsz) :
    w.Room porcb' room := by
  cases w with
  | cal p b calptn n =>
    obtain ⟨hc, hr⟩ := hs p
    exact ⟨le_of_le_of_eq h.1 hc.symm, le_of_eq_of_le hr h.2⟩
  | acp p acpptn => exact le_of_eq_of_le (hs p).1 h
  | rdv n m => exact h

/-- A wait for another port. -/
theorem PorWait.Room.update (h : w.Room porcb room) (hne : ∀ q, w.que = some q → q.porid ≠ p) :
    w.Room (Function.update porcb p x) room := by
  cases w with
  | cal i tpri calptn n =>
    have hi : i ≠ p := hne (.call i) rfl
    dsimp only [PorWait.Room]
    rw [Function.update_of_ne hi]
    exact h
  | acp i acpptn =>
    have hi : i ≠ p := hne (.accept i) rfl
    dsimp only [PorWait.Room]
    rw [Function.update_of_ne hi]
    exact h
  | rdv n m => exact h

end

namespace RdvSys

variable (s : RdvSys)

@[simp] theorem copyTo_room (t : Tid) (src : MsgArea) (n : Nat) :
    (s.copyTo t src n).room = s.room := by
  unfold copyTo
  split <;> rfl

theorem room_sendMessage (a : Tid) (rdvno : Nat) (c : Tid) (msg : MsgArea) (n : Nat) :
    (s.sendMessage a rdvno c msg n).room = s.room :=
  s.copyTo_room a msg n

theorem sameAttr_sendMessage (a : Tid) (rdvno : Nat) (c : Tid) (msg : MsgArea) (n : Nat) :
    SameAttr s.porcb (s.sendMessage a rdvno c msg n).porcb := by
  rw [← s.copyTo_porcb a msg n]
  unfold sendMessage release
  exact sameAttr_queRemove (RdvSys.setErcd _ a .E_OK) a

end RdvSys

namespace RdvFits

variable {k : RdvCfg} {s s' : RdvSys} {t : Tid} {p n m rdvno : Nat}

/-- One task changes its wait. -/
theorem change (h : RdvFits s) {v : Option PorWait} (hs : SameAttr s.porcb s'.porcb)
    (hw : s'.wait = Function.update s.wait t v) (hr : s'.room = s.room)
    (hv : ∀ w, v = some w → w.Room s.porcb (s.room t)) (hwr : s'.written = s.written) :
    RdvFits s' where
  waits u w hu := by
    rw [hw] at hu
    rw [hr]
    by_cases hut : u = t
    · subst hut
      rw [Function.update_self] at hu
      exact (hv w hu).congr fun p => (hs p).2.2
    · rw [Function.update_of_ne hut] at hu
      exact (h.waits u w hu).congr fun p => (hs p).2.2
  written := by
    rw [hwr]
    exact h.written

theorem congr (h : RdvFits s) (hs : SameAttr s.porcb s'.porcb) (hw : s'.wait = s.wait)
    (hr : s'.room = s.room) (hwr : s'.written = s.written) : RdvFits s' where
  waits u w hu := by
    rw [hw] at hu
    rw [hr]
    exact (h.waits u w hu).congr fun p => (hs p).2.2
  written := by
    rw [hwr]
    exact h.written

theorem setFrame (h : RdvFits s) (t : Tid) (f : PorFrame → PorFrame) : RdvFits (s.setFrame t f) :=
  h.congr (SameAttr.refl _) rfl rfl rfl

theorem setErcd (h : RdvFits s) (t : Tid) (e : ER) : RdvFits (s.setErcd t e) := h.setFrame t _

theorem logged (h : RdvFits s) (r : RdvRecord) : RdvFits (s.logged r) :=
  h.congr (SameAttr.refl _) rfl rfl rfl

theorem knlGenRdvno (h : RdvFits s) (t : Tid) : RdvFits (s.knlGenRdvno t) :=
  h.congr (SameAttr.refl _) rfl rfl rfl

theorem breaks (h : RdvFits s) (t : Tid) : RdvFits (s.breaks t) := by
  unfold RdvSys.breaks
  split
  · exact h.logged _
  · exact h

theorem copyTo (h : RdvFits s) (hn : n ≤ s.room t) (src : MsgArea) : RdvFits (s.copyTo t src n) where
  waits u w hu := by
    rw [RdvSys.copyTo_wait] at hu
    rw [RdvSys.copyTo_porcb, RdvSys.copyTo_room]
    exact h.waits u w hu
  written := by
    unfold RdvSys.copyTo
    split
    · intro x hx
      rcases List.mem_cons.1 hx with rfl | hx
      · exact hn
      · exact h.written x hx
    · exact h.written

theorem release (h : RdvFits s) (t : Tid) : RdvFits (s.knlWaitRelease t) :=
  h.change (t := t) (v := none) (RdvSys.sameAttr_queRemove s t) rfl rfl (fun _ hw => nomatch hw) rfl

theorem setWait (h : RdvFits s) {w : PorWait} (hw : w.Room s.porcb (s.room t)) (tmout : Tmo) :
    RdvFits (s.setWait t w tmout) :=
  h.change (SameAttr.refl _) rfl rfl (fun v hv => by cases hv; exact hw) rfl

theorem insertCall (h : RdvFits s) (p : Nat) (t : Tid) : RdvFits (s.insertCall p t) :=
  h.congr (SameAttr.update ⟨rfl, rfl, rfl, rfl⟩) rfl rfl rfl

/-- A task that does not wait enters a call of a port. -/
theorem setRoom (h : RdvFits s) (hw : s.wait t = none) (n : Nat) :
    RdvFits { s with room := Function.update s.room t n } where
  waits u w hu := by
    have hut : u ≠ t := by
      rintro rfl
      rw [show _ = none from hw] at hu
      cases hu
    show w.Room s.porcb (Function.update s.room t n u)
    rw [Function.update_of_ne hut]
    exact h.waits u w hu
  written := h.written

theorem sendMessage (h : RdvFits s) {a : Tid} (hn : n ≤ s.room a) (rdvno : Nat) (caller : Tid)
    (msg : MsgArea) : RdvFits (s.sendMessage a rdvno caller msg n) := by
  unfold RdvSys.sendMessage RdvSys.release
  exact ((((h.copyTo hn msg).setFrame a _).logged _).setErcd a _).release a

/-- The task that a search has found has room for a message of the port. -/
theorem room_searchAccept (h : RdvFits s) (hq : Queued s.porcb s.wait) {calptn : BitVec 32}
    {a : Tid} (ha : s.searchAccept p calptn = some a) : (s.porcb p).maxcmsz ≤ s.room a := by
  obtain ⟨acpptn, hwa, -⟩ := RdvSys.searchAccept_some hq ha
  exact h.waits a _ hwa

/-- The caller waits for a reply that it has room for. -/
theorem sendMeet (h : RdvFits s) {a : Tid} (hn : n ≤ s.room a) (hm : (s.porcb p).maxrmsz ≤ s.room t)
    (rdvno : Nat) (msg : MsgArea) :
    RdvFits ((s.sendMessage a rdvno t msg n).setWait t
      (.rdv rdvno ((s.sendMessage a rdvno t msg n).porcb p).maxrmsz) .TMO_FEVR) := by
  refine (h.sendMessage hn rdvno t msg).setWait ?_ _
  show _ ≤ (s.sendMessage a rdvno t msg n).room t
  rw [s.room_sendMessage, (s.sameAttr_sendMessage a rdvno t msg n p).2.2.2]
  exact hm

theorem calPor (h : RdvFits s) (hq : Queued s.porcb s.wait) (hw : s.wait t = none)
    (hn : n ≤ (s.porcb p).maxcmsz) (calptn : BitVec 32) (tmout : Tmo) :
    RdvFits (s.calPor t p calptn n tmout) := by
  have hroom := (h.setRoom hw (s.porcb p).maxrmsz).logged (.sent t ((s.frame t).msg.read n))
  have hself : (s.porcb p).maxrmsz ≤ Function.update s.room t (s.porcb p).maxrmsz t :=
    le_of_eq (Function.update_self t _ s.room).symm
  unfold RdvSys.calPor
  dsimp only
  split
  · rename_i a hfind
    have ha := hn.trans (hroom.room_searchAccept hq hfind)
    exact ((hroom.knlGenRdvno t).sendMeet ha hself _ _).setErcd t .E_TMOUT
  · have herr := hroom.setErcd t .E_TMOUT
    split
    · exact herr
    · have hcal : PorWait.Room s.porcb (Function.update s.room t (s.porcb p).maxrmsz t)
          (.cal p (s.porcb p).tpri calptn n) := ⟨hn, hself⟩
      exact (herr.setWait hcal tmout).insertCall p t

theorem acpPor (h : RdvFits s) (hq : Queued s.porcb s.wait) (hw : s.wait t = none)
    (acpptn : BitVec 32) (tmout : Tmo) : RdvFits (s.acpPor t p acpptn tmout) := by
  have hroom := h.setRoom hw (s.porcb p).maxcmsz
  have hself : (s.porcb p).maxcmsz ≤ Function.update s.room t (s.porcb p).maxcmsz t :=
    le_of_eq (Function.update_self t _ s.room).symm
  unfold RdvSys.acpPor
  dsimp only
  split
  · rename_i c hfind
    obtain ⟨b, calptn, n, hwc, -⟩ := RdvSys.searchCall_some hq hfind
    obtain ⟨hn, hr⟩ := hroom.waits c _ hwc
    have hsz : RdvSys.cmsgsz { s with room := Function.update s.room t (s.porcb p).maxcmsz } c =
        n := by
      unfold RdvSys.cmsgsz
      dsimp only
      rw [hwc]
    rw [hsz]
    refine ((((hroom.knlGenRdvno c).setFrame t _).copyTo (hn.trans hself) _).logged _).change
      (RdvSys.sameAttr_queRemove _ c) rfl rfl (fun w hw => ?_) rfl
    cases hw
    show ((RdvSys.copyTo _ _ _ _).porcb p).maxrmsz ≤ (RdvSys.copyTo _ _ _ _).room c
    rw [RdvSys.copyTo_porcb, RdvSys.copyTo_room]
    exact hr
  · have herr := hroom.setErcd t .E_TMOUT
    split
    · exact herr
    · exact (herr.setWait (w := .acp p acpptn) hself _).congr (SameAttr.update ⟨rfl, rfl, rfl, rfl⟩)
        rfl rfl rfl

theorem fwdPor (h : RdvFits s) (hq : Queued s.porcb s.wait)
    (hw : s.wait t = some (.rdv rdvno m)) (hn : n ≤ (s.porcb p).maxcmsz) (hnm : n ≤ m)
    (hm : (s.porcb p).maxrmsz ≤ m) (calptn : BitVec 32) (msg : MsgArea) :
    RdvFits (s.fwdPor t p calptn rdvno msg n) := by
  have hlog := (h.logged (.forwarded rdvno)).logged (.sent t (msg.read n))
  have hroom : m ≤ s.room t := h.waits t _ hw
  unfold RdvSys.fwdPor
  dsimp only
  split
  · rename_i a hfind
    have ha := hn.trans (hlog.room_searchAccept hq hfind)
    exact (hlog.knlGenRdvno t).sendMeet ha (hm.trans hroom) _ msg
  · have hcal : PorWait.Room s.porcb (s.room t) (.cal p (s.porcb p).tpri calptn n) :=
      ⟨hn, hm.trans hroom⟩
    exact ((hlog.setWait hcal _).insertCall p t).copyTo (hnm.trans hroom) msg

theorem rplRdv (h : RdvFits s) (hw : s.wait t = some (.rdv rdvno m)) (hn : n ≤ m)
    (msg : MsgArea) : RdvFits (s.rplRdv t rdvno msg n) := by
  have hroom : m ≤ s.room t := h.waits t _ hw
  unfold RdvSys.rplRdv RdvSys.release
  exact ((((h.logged _).copyTo (hn.trans hroom) msg).setFrame t _).setErcd t .E_OK).release t

/-! ## The steps -/

theorem knlWaitDelete (h : RdvFits s) (queue : List Tid) :
    RdvFits (RdvSys.knlWaitDelete queue s) := by
  induction queue generalizing s with
  | nil => exact h
  | cons t queue ih => exact ih ((h.setErcd t .E_DLT).release t)

theorem tkCrePor (h : RdvFits s) (hp : RdvPlaces k s) (tpri : Bool) (maxcmsz maxrmsz : Int) :
    RdvFits (s.tkCrePor tpri maxcmsz maxrmsz).1 := by
  unfold RdvSys.tkCrePor
  split
  · exact h
  split
  · exact h
  rename_i p rest hfree
  have hclosed : (s.porcb p).exists_ = false := by
    refine hp.free.2 p ?_
    rw [hfree]
    exact List.mem_cons_self
  exact ⟨fun u w hu => (h.waits u w hu).update fun q hq => hp.que_of_closed hclosed hu hq,
    h.written⟩

theorem tkDelPor (h : RdvFits s) : RdvFits (s.tkDelPor k p).1 := by
  unfold RdvSys.tkDelPor
  split
  · exact h
  split
  · exact h
  dsimp only
  have hdel := (h.knlWaitDelete (s.porcb p).callQueue).knlWaitDelete
    ((RdvSys.knlWaitDelete (s.porcb p).callQueue s).porcb p).acceptQueue
  refine ⟨fun u w hu => (hdel.waits u w hu).congr fun i => ?_, hdel.written⟩
  unfold RdvSys.setPor
  dsimp only
  by_cases hi : i = p
  · subst hi
    rw [Function.update_self]
    exact ⟨rfl, rfl⟩
  · rw [Function.update_of_ne hi]
    exact ⟨rfl, rfl⟩

theorem tkCalPor (h : RdvFits s) (hq : Queued s.porcb s.wait) (hw : s.wait t = none)
    (calptn : BitVec 32) (cmsgsz : Int) (tmout : Tmo) :
    RdvFits (s.tkCalPor k t p calptn cmsgsz tmout) := by
  unfold RdvSys.tkCalPor
  split
  · exact h.setErcd t _
  split
  · exact h.setErcd t _
  split
  · exact h.setErcd t _
  split
  · exact h.setErcd t _
  · rename_i hlen
    exact h.calPor hq hw (Int.toNat_le.2 (not_lt.1 hlen)) calptn tmout

theorem tkAcpPor (h : RdvFits s) (hq : Queued s.porcb s.wait) (hw : s.wait t = none)
    (acpptn : BitVec 32) (tmout : Tmo) : RdvFits (s.tkAcpPor k t p acpptn tmout) := by
  unfold RdvSys.tkAcpPor
  split
  · exact h.setErcd t _
  split
  · exact h.setErcd t _
  split
  · exact h.setErcd t _
  · exact h.acpPor hq hw acpptn tmout

theorem step (h : RdvFits s) (hp : RdvPlaces k s) {e : RdvEvent} (hs : s.step k e = some s') :
    RdvFits s' := by
  cases e with
  | tkCrePor tpri maxcmsz maxrmsz =>
    cases hs
    exact h.tkCrePor hp tpri maxcmsz maxrmsz
  | tkDelPor porid =>
    cases hs
    exact h.tkDelPor
  | tkCalPor self porid calptn msg cmsgsz tmout =>
    obtain ⟨hfree, hs⟩ := Option.ite_none_right_eq_some.1 hs
    cases hs
    have hf : self < k.numTskid ∧ s.call self = none := by simpa [RdvSys.free?] using hfree
    have henter : RdvFits (s.enter self .cal msg) := h.congr (SameAttr.refl _) rfl rfl rfl
    exact henter.tkCalPor hp.queued (hp.wait_eq_none hf.2) calptn cmsgsz tmout
  | tkAcpPor self porid acpptn msg tmout =>
    obtain ⟨hfree, hs⟩ := Option.ite_none_right_eq_some.1 hs
    cases hs
    have hf : self < k.numTskid ∧ s.call self = none := by simpa [RdvSys.free?] using hfree
    have henter : RdvFits (s.enter self .acp msg) := h.congr (SameAttr.refl _) rfl rfl rfl
    exact henter.tkAcpPor hp.queued (hp.wait_eq_none hf.2) acpptn tmout
  | tkFwdPor porid calptn rdvno msg cmsgsz =>
    cases hs
    rcases RdvSys.tkFwdPor_cases with ⟨hsame, -⟩ | ⟨m, hw, -, -, hlen, hmax, hroom, heq⟩
    · rw [hsame]
      exact h
    · rw [heq]
      exact h.fwdPor hp.queued hw (Int.toNat_le.2 hlen) (Int.toNat_le.2 hroom) hmax calptn msg
  | tkRplRdv rdvno msg rmsgsz =>
    cases hs
    rcases RdvSys.tkRplRdv_cases with ⟨hsame, -⟩ | ⟨m, hw, -, hlen, heq⟩
    · rw [hsame]
      exact h
    · rw [heq]
      exact h.rplRdv hw (Int.toNat_le.2 hlen) msg
  | timeout t =>
    obtain ⟨-, hs⟩ := Option.ite_none_right_eq_some.1 hs
    cases hs
    exact (h.breaks t).release t
  | tkRelWai t =>
    obtain ⟨-, hs⟩ := Option.ite_none_right_eq_some.1 hs
    cases hs
    exact ((h.breaks t).setErcd t .E_RLWAI).release t
  | tkTerTsk t =>
    cases hs
    split
    · exact ((h.breaks t).release t).congr (SameAttr.refl _) rfl rfl rfl
    · exact h.congr (SameAttr.refl _) rfl rfl rfl
  | chgPri t priority =>
    cases hs
    unfold RdvSys.calChgPri
    split
    · refine h.congr (SameAttr.trans (RdvSys.sameAttr_queRemove _ t)
        (SameAttr.update ⟨rfl, rfl, rfl, rfl⟩)) rfl rfl rfl
    · exact h.congr (SameAttr.refl _) rfl rfl rfl
  | ret t =>
    simp only [RdvSys.step] at hs
    split at hs
    · obtain ⟨-, hs⟩ := Option.ite_none_right_eq_some.1 hs
      cases hs
      exact h.congr (SameAttr.refl _) rfl rfl rfl
    · cases hs

theorem boot (k : RdvCfg) (priority : Tid → Nat) : RdvFits (.boot k priority) :=
  ⟨(fun _ _ hw => nomatch hw), fun _ hx => absurd hx List.not_mem_nil⟩

theorem of_reachable (hr : (rdvMachine k).Reachable s) : RdvFits s := by
  have hboth : RdvPlaces k s ∧ RdvFits s := by
    apply Lts.ReachableIf.invariant (fun s => RdvPlaces k s ∧ RdvFits s) ?_ ?_ hr
    · rintro s ⟨priority, rfl⟩
      exact ⟨.boot k priority, boot k priority⟩
    · rintro s e s' ⟨hp, h⟩ - hs
      exact ⟨hp.step hs, h.step hp hs⟩
  exact hboth.2

end RdvFits

end Mtk3Smp
