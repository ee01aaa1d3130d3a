import Mtk3Smp.Ipc.RendezvousNumbers
import Mtk3Smp.Ipc.RendezvousTurns

/-!
# Every conversation goes by the protocol

Each call keeps the conversations of all tasks where the states of the tasks say they are.
-/

namespace Mtk3Smp

/-- All conversations are where the waits and the frames of the tasks have them. -/
abbrev RdvTalks (s : RdvSys) : Prop := ∀ t, Talks s.wait s.call s.frame s.log t

/-- A task has just entered a blocking call. -/
structure Entered (s : RdvSys) (t : Tid) (c : PorCall) : Prop where
  others : ∀ u, u ≠ t → Talks s.wait s.call s.frame s.log u
  wait : s.wait t = none
  call : s.call t = some c
  talk : (callProtocol t).after s.log = some .idle
  talk' : (acceptProtocol t).after s.log = some .idle
  ercd : (s.frame t).ercd = .E_OK

namespace RdvTalks

variable {k : RdvCfg} {s s' : RdvSys} {t : Tid} {p n m rdvno : Nat}

theorem entered (h : RdvTalks s) (hw : s.wait t = none) (hc : s.call t = none) (c : PorCall)
    (msg : MsgArea) : Entered (s.enter t c msg) t c := by
  obtain ⟨hx, hy⟩ := (h t).out hw hc
  refine ⟨fun u hu => ?_, hw, Function.update_self _ _ _, hx, hy, ?_⟩
  · obtain ⟨x, y, hx, hy, hux⟩ := h u
    refine ⟨x, y, hx, hy, ?_⟩
    unfold RdvSys.enter
    dsimp only
    rw [Function.update_of_ne hu, Function.update_of_ne hu]
    exact hux
  · unfold RdvSys.enter
    dsimp only
    rw [Function.update_self]

/-- A call fails before it has done anything. -/
theorem refuse {c : PorCall} (h : Entered s t c) {e : ER} (he : e ≠ .E_OK) :
    RdvTalks (s.setErcd t e) := by
  refine talks_of_ne h.others (fun _ _ => rfl) (fun _ _ => rfl)
    (fun u hu => Function.update_of_ne hu _ _) ⟨_, _, h.talk, h.talk', ?_⟩
  have hf : (s.setErcd t e).frame t = { s.frame t with ercd := e } := Function.update_self _ _ _
  rw [show (s.setErcd t e).wait t = none from h.wait,
    show (s.setErcd t e).call t = some c from h.call, hf]
  cases c with
  | cal => exact .failed _ _ he rfl
  | acp => exact .refused _ he

/-- The task that a search has found waits to accept. -/
theorem found {log : List RdvRecord} (h : ∀ u, u ≠ t → Talks s.wait s.call s.frame log u)
    (hq : Queued s.porcb s.wait) (hw : ∀ p x, s.wait t ≠ some (.acp p x)) {calptn : BitVec 32}
    {a : Tid} (ha : s.searchAccept p calptn = some a) :
    a ≠ t ∧ (callProtocol a).after log = some .idle ∧
      (acceptProtocol a).after log = some .idle ∧ s.call a = some .acp := by
  obtain ⟨acpptn, hwa, -⟩ := RdvSys.searchAccept_some hq ha
  have hne : a ≠ t := fun he => hw p acpptn (he ▸ hwa)
  obtain ⟨hx, hy, hc, -⟩ := (h a hne).accepting hwa
  exact ⟨hne, hx, hy, hc⟩

/-- A message that has been sent is delivered to a task that waits to accept. -/
theorem send {log : List RdvRecord} {a : Tid} {msg : MsgArea} {wait' : Tid → Option PorWait}
    {frame' : Tid → PorFrame} (h : ∀ u, u ≠ t → Talks s.wait s.call s.frame log u) (hat : a ≠ t)
    (hx : (callProtocol t).after log = some (.sent (msg.read n)))
    (hy : (acceptProtocol t).after log = some .idle) (hc : s.call t = some .cal)
    (hxa : (callProtocol a).after log = some .idle)
    (hya : (acceptProtocol a).after log = some .idle) (hca : s.call a = some .acp)
    (hwt : wait' t = some (.rdv rdvno m))
    (hw : ∀ u, u ≠ t → wait' u = (s.sendMessage a rdvno t msg n).wait u)
    (hft : (frame' t).ercd = .E_TMOUT)
    (hf : ∀ u, u ≠ t → frame' u = (s.sendMessage a rdvno t msg n).frame u) :
    ∀ u, Talks wait' s.call frame' (.accepted rdvno t a (msg.read n) :: log) u := by
  rw [RdvPlaces.wait_sendMessage] at hw
  rw [s.sendMessage_frame] at hf
  refine talks_accept (fun u hu _ => h u hu) hat hx hy hc hxa hya hca hwt ?_ ?_ hft ?_ ?_
  · rw [hw a hat, Function.update_self]
  · intro u hu hua
    rw [hw u hu, Function.update_of_ne hua]
  · rw [hf a hat, Function.update_self]
    exact ⟨rfl, rfl, MsgArea.read_knlMemcpy _ _ _⟩
  · intro u hu hua
    rw [hf u hu, Function.update_of_ne hua]

theorem calPor (h : Entered s t .cal) (hq : Queued s.porcb s.wait) (calptn : BitVec 32) (n : Nat)
    (tmout : Tmo) : RdvTalks (s.calPor t p calptn n tmout) := by
  -- the message has been sent
  have hothers : ∀ u, u ≠ t → Talks s.wait s.call s.frame
      (.sent t ((s.frame t).msg.read n) :: s.log) u := fun u hu =>
    (h.others u hu).other fun he => hu he.symm
  have hx : (callProtocol t).after (.sent t ((s.frame t).msg.read n) :: s.log) =
      some (.sent ((s.frame t).msg.read n)) :=
    Monitor.after_cons h.talk ((if_pos rfl).trans (if_pos (.inl rfl)))
  have hy : (acceptProtocol t).after (.sent t ((s.frame t).msg.read n) :: s.log) = some .idle :=
    Monitor.after_cons h.talk' rfl
  unfold RdvSys.calPor
  dsimp only
  split
  · rename_i a hfind
    have hnot : ∀ p x, s.wait t ≠ some (.acp p x) := fun p x hn => by
      rw [h.wait] at hn
      cases hn
    obtain ⟨hat, hxa, hya, hca⟩ := found hothers hq hnot hfind
    unfold RdvTalks RdvSys.setWait RdvSys.setErcd RdvSys.setFrame
    dsimp only
    rw [RdvPlaces.call_sendMessage, RdvSys.sendMessage_log]
    refine send hothers hat hx hy h.call hxa hya hca (Function.update_self _ _ _)
      (fun u hu => Function.update_of_ne hu _ _) ?_ fun u hu => Function.update_of_ne hu _ _
    rw [Function.update_self]
  · have herr : ({ s.frame t with ercd := .E_TMOUT } : PorFrame).ercd ≠ .E_OK := ER.noConfusion
    split
    · refine talks_of_ne hothers (fun _ _ => rfl) (fun _ _ => rfl)
        (fun u hu => Function.update_of_ne hu _ _) ⟨_, _, hx, hy, ?_⟩
      unfold RdvSys.setErcd RdvSys.setFrame RdvSys.logged
      dsimp only
      rw [Function.update_self, h.wait, h.call]
      exact .failed _ _ herr rfl
    · refine talks_of_ne hothers (fun u hu => Function.update_of_ne hu _ _) (fun _ _ => rfl)
        (fun u hu => Function.update_of_ne hu _ _) ⟨_, _, hx, hy, ?_⟩
      unfold RdvSys.insertCall RdvSys.setPor RdvSys.setWait RdvSys.setErcd RdvSys.setFrame
        RdvSys.logged
      dsimp only
      rw [Function.update_self, Function.update_self, h.call]
      exact .calling p _ calptn n _ rfl

theorem acpPor (h : Entered s t .acp) (hq : Queued s.porcb s.wait) (acpptn : BitVec 32)
    (tmout : Tmo) : RdvTalks (s.acpPor t p acpptn tmout) := by
  unfold RdvSys.acpPor
  dsimp only
  split
  · rename_i c hfind
    obtain ⟨b, calptn, n, hwc, -⟩ := RdvSys.searchCall_some hq hfind
    have hct : c ≠ t := by
      rintro rfl
      rw [h.wait] at hwc
      cases hwc
    obtain ⟨hx, hy, hc, he⟩ := (h.others c hct).calling hwc
    have hsz : ∀ room, RdvSys.cmsgsz { s with room := room } c = n := fun room => by
      unfold RdvSys.cmsgsz
      dsimp only
      rw [hwc]
    unfold RdvTalks RdvSys.setWait RdvSys.queRemove RdvSys.logged
    simp only [RdvSys.copyTo_call, RdvSys.copyTo_log, RdvSys.copyTo_frame, RdvSys.copyTo_wait,
      RdvSys.setFrame, RdvSys.knlGenRdvno, Function.update_self, Function.update_idem,
      Function.update_of_ne hct, MsgArea.read_knlMemcpy, hsz]
    refine talks_accept (fun u _ hu => h.others u hu) hct.symm hx hy hc h.talk h.talk' h.call
      (Function.update_self _ _ _) ?_ (fun u hu _ => Function.update_of_ne hu _ _) ?_ ?_
      fun u _ hu => Function.update_of_ne hu _ _
    · rw [Function.update_of_ne hct.symm]
      exact h.wait
    · rw [Function.update_of_ne hct]
      exact he
    · rw [Function.update_self]
      exact ⟨h.ercd, rfl, MsgArea.read_knlMemcpy _ _ _⟩
  · have herr : ({ s.frame t with ercd := .E_TMOUT } : PorFrame).ercd ≠ .E_OK := ER.noConfusion
    split
    · exact refuse h ER.noConfusion
    · refine talks_of_ne h.others (fun u hu => Function.update_of_ne hu _ _) (fun _ _ => rfl)
        (fun u hu => Function.update_of_ne hu _ _) ⟨_, _, h.talk, h.talk', ?_⟩
      unfold RdvSys.setPor RdvSys.setWait RdvSys.setErcd RdvSys.setFrame
      dsimp only
      rw [Function.update_self, Function.update_self, h.call]
      exact .accepting p acpptn _ rfl

theorem fwdPor (h : RdvTalks s) (hq : Queued s.porcb s.wait)
    (hw : s.wait t = some (.rdv rdvno m)) (htcb : getTcbRdvno rdvno = t) (calptn : BitVec 32)
    (msg : MsgArea) (n : Nat) : RdvTalks (s.fwdPor t p calptn rdvno msg n) := by
  obtain ⟨hx₀, hy₀, hc, he⟩ := (h t).meeting hw
  -- the message of the forwarding takes the place of the one that was accepted
  have hothers : ∀ u, u ≠ t → Talks s.wait s.call s.frame
      (.sent t (msg.read n) :: .forwarded rdvno :: s.log) u := fun u hu =>
    ((h u).other (r := .forwarded rdvno) fun hr : getTcbRdvno rdvno = u =>
      hu (hr.symm.trans htcb)).other fun hr => hu hr.symm
  have hx : (callProtocol t).after (.sent t (msg.read n) :: .forwarded rdvno :: s.log) =
      some (.sent (msg.read n)) :=
    Monitor.after_cons (Monitor.after_cons hx₀ ((if_pos htcb).trans (if_pos rfl)))
      ((if_pos rfl).trans (if_pos (.inr rfl)))
  have hy : (acceptProtocol t).after (.sent t (msg.read n) :: .forwarded rdvno :: s.log) =
      some .idle := Monitor.after_cons (Monitor.after_cons hy₀ rfl) rfl
  unfold RdvSys.fwdPor
  dsimp only
  split
  · rename_i a hfind
    have hnot : ∀ p x, s.wait t ≠ some (.acp p x) := fun p x hn => by
      rw [hw] at hn
      cases hn
    obtain ⟨hat, hxa, hya, hca⟩ := found hothers hq hnot hfind
    unfold RdvTalks RdvSys.setWait
    dsimp only
    rw [RdvPlaces.call_sendMessage, RdvSys.sendMessage_log]
    refine send hothers hat hx hy hc hxa hya hca (Function.update_self _ _ _)
      (fun u hu => Function.update_of_ne hu _ _) ?_ fun _ _ => rfl
    rw [RdvSys.sendMessage_frame, Function.update_of_ne hat.symm]
    exact he
  · unfold RdvTalks
    rw [RdvSys.copyTo_wait, RdvSys.copyTo_call, RdvSys.copyTo_frame, RdvSys.copyTo_log]
    refine talks_of_ne hothers (fun u hu => Function.update_of_ne hu _ _) (fun _ _ => rfl)
      (fun u hu => Function.update_of_ne hu _ _) ⟨_, _, hx, hy, ?_⟩
    unfold RdvSys.insertCall RdvSys.setPor RdvSys.setWait RdvSys.logged
    dsimp only
    rw [Function.update_self, Function.update_self, hc, ← MsgArea.read_knlMemcpy (s.frame t).msg]
    exact .calling p _ calptn n { s.frame t with msg := (s.frame t).msg.knlMemcpy msg n } he

theorem rplRdv (h : RdvTalks s) (hw : s.wait t = some (.rdv rdvno m))
    (htcb : getTcbRdvno rdvno = t) (msg : MsgArea) (n : Nat) :
    RdvTalks (s.rplRdv t rdvno msg n) := by
  obtain ⟨hx, hy, hc, -⟩ := (h t).meeting hw
  have hothers : ∀ u, u ≠ t → Talks s.wait s.call s.frame
      (.replied rdvno (msg.read n) :: s.log) u := fun u hu =>
    (h u).other fun hr : getTcbRdvno rdvno = u => hu (hr.symm.trans htcb)
  unfold RdvTalks RdvSys.rplRdv RdvSys.release RdvSys.setErcd RdvSys.setFrame
    RdvSys.knlWaitRelease RdvSys.queRemove
  dsimp only
  rw [RdvSys.copyTo_wait, RdvSys.copyTo_call, RdvSys.copyTo_frame, RdvSys.copyTo_log]
  simp only [Function.update_self, Function.update_idem]
  refine talks_of_ne hothers (fun u hu => Function.update_of_ne hu _ _) (fun _ _ => rfl)
    (fun u hu => Function.update_of_ne hu _ _)
    ⟨_, _, Monitor.after_cons hx ((if_pos htcb).trans (if_pos rfl)), Monitor.after_cons hy rfl, ?_⟩
  rw [Function.update_self, Function.update_self,
    show (s.logged (.replied rdvno (msg.read n))).call t = some .cal from hc,
    ← MsgArea.read_knlMemcpy (s.frame t).msg]
  exact .replied ⟨.E_OK, n, (s.frame t).rdvno, (s.frame t).msg.knlMemcpy msg n⟩ rfl

/-- Until a wait ends, its call is to return that it has timed out. -/
theorem ercd_of_wait (h : RdvTalks s) (hw : (s.wait t).isSome) :
    (s.frame t).ercd = .E_TMOUT := by
  obtain ⟨w, hw⟩ := Option.isSome_iff_exists.1 hw
  cases w with
  | cal p b calptn n => exact ((h t).calling hw).2.2.2
  | acp p acpptn => exact ((h t).accepting hw).2.2.2
  | rdv n m => exact ((h t).meeting hw).2.2.2

/-- A wait that nobody has answered is over. -/
theorem breaks (h : RdvTalks s) (htcb : ∀ n m, s.wait t = some (.rdv n m) → getTcbRdvno n = t)
    (hw : (s.wait t).isSome) {f : PorFrame} (hf : f.ercd ≠ .E_OK) :
    ∀ u, Talks (Function.update s.wait t none) s.call (Function.update s.frame t f)
      (s.breaks t).log u := by
  obtain ⟨w, hw⟩ := Option.isSome_iff_exists.1 hw
  have hend : (∀ u, u ≠ t → Talks s.wait s.call s.frame (s.breaks t).log u) ∧
      ∃ x y, (callProtocol t).after (s.breaks t).log = some x ∧
        (acceptProtocol t).after (s.breaks t).log = some y ∧ TaskTalks none (s.call t) f x y := by
    unfold RdvSys.breaks
    rw [hw]
    cases w with
    | cal p b calptn n => exact ⟨fun u _ => h u, (h t).stop hw (Option.some_ne_none _) f hf⟩
    | acp p acpptn => exact ⟨fun u _ => h u, (h t).stop hw (Option.some_ne_none _) f hf⟩
    | rdv n m =>
      have he := htcb n m hw
      obtain ⟨hx, hy, hc, -⟩ := (h t).meeting hw
      refine ⟨fun u hu => (h u).other fun hr : getTcbRdvno n = u => hu (hr.symm.trans he), _, _,
        Monitor.after_cons hx ((if_pos he).trans (if_pos rfl)), Monitor.after_cons hy rfl, ?_⟩
      rw [hc]
      exact .failed f _ hf rfl
  obtain ⟨hothers, x, y, hx, hy, ht⟩ := hend
  refine talks_of_ne hothers (fun u hu => Function.update_of_ne hu _ _) (fun _ _ => rfl)
    (fun u hu => Function.update_of_ne hu _ _) ⟨x, y, hx, hy, ?_⟩
  rw [Function.update_self, Function.update_self]
  exact ht

/-- Without an answer a call is to return what it was to return from the start. -/
theorem breaks_release (h : RdvTalks s)
    (htcb : ∀ n m, s.wait t = some (.rdv n m) → getTcbRdvno n = t) (hw : (s.wait t).isSome) :
    RdvTalks ((s.breaks t).knlWaitRelease t) := by
  have hf : (s.frame t).ercd ≠ .E_OK := by
    rw [ercd_of_wait h hw]
    exact ER.noConfusion
  have hu := h.breaks htcb hw hf
  rw [Function.update_eq_self] at hu
  unfold RdvTalks RdvSys.knlWaitRelease RdvSys.queRemove
  dsimp only
  rw [RdvSys.breaks_wait, RdvSys.breaks_call, RdvSys.breaks_frame]
  exact hu

theorem knlWaitDelete {queue : List Tid} (h : RdvTalks s) (hnd : queue.Nodup)
    (hq : ∀ t ∈ queue, ∃ w, s.wait t = some w ∧ w.que ≠ none) :
    RdvTalks (RdvSys.knlWaitDelete queue s) := by
  induction queue generalizing s with
  | nil => exact h
  | cons t queue ih =>
    obtain ⟨ht, hnd⟩ := List.nodup_cons.1 hnd
    obtain ⟨w, hw, hwq⟩ := hq t List.mem_cons_self
    have hstop := (h t).stop hw hwq { s.frame t with ercd := .E_DLT } ER.noConfusion
    refine ih (s := s.release t .E_DLT) ?_ hnd fun u hu => ?_
    · obtain ⟨x, y, hx, hy, hend⟩ := hstop
      refine talks_of_ne (fun u _ => h u) (fun u hu => Function.update_of_ne hu _ _)
        (fun _ _ => rfl) (fun u hu => Function.update_of_ne hu _ _) ⟨x, y, hx, hy, ?_⟩
      unfold RdvSys.release RdvSys.setErcd RdvSys.setFrame RdvSys.knlWaitRelease RdvSys.queRemove
      dsimp only
      rw [Function.update_self, Function.update_self]
      exact hend
    · obtain ⟨w, hw, hwq⟩ := hq u (List.mem_cons_of_mem _ hu)
      exact ⟨w, (Function.update_of_ne (ne_of_mem_of_not_mem hu ht) _ _).trans hw, hwq⟩

/-- A task is terminated, whatever it was doing. -/
theorem terminate (h : RdvTalks s) (hw : s.wait t = none) :
    RdvTalks ({ s with call := Function.update s.call t none }.logged (.terminated t)) := by
  have hothers : ∀ u, u ≠ t → Talks s.wait s.call s.frame (.terminated t :: s.log) u := fun u hu =>
    (h u).other fun hr => hu hr.symm
  obtain ⟨x, y, hx, hy, -⟩ := h t
  refine talks_of_ne hothers (fun _ _ => rfl) (fun u hu => Function.update_of_ne hu _ _)
    (fun _ _ => rfl) ⟨.idle, .idle, Monitor.after_cons hx (if_pos rfl),
      Monitor.after_cons hy (if_pos rfl), ?_⟩
  show TaskTalks (s.wait t) (Function.update s.call t none t) _ _ _
  rw [hw, Function.update_self]
  exact .out _

/-- A blocking call returns what has come of it. -/
theorem returns (h : RdvTalks s) {c : PorCall} (hc : s.call t = some c) (hw : s.wait t = none) :
    RdvTalks (s.returns t c) := by
  have hrec : ∀ r : RdvRecord, (∀ u, r.About u → u = t) →
      (∀ x y, (callProtocol t).after s.log = some x → (acceptProtocol t).after s.log = some y →
        TaskTalks none (some c) (s.frame t) x y →
        (callProtocol t).after (r :: s.log) = some .idle ∧
          (acceptProtocol t).after (r :: s.log) = some .idle) →
      ∀ u, Talks s.wait (Function.update s.call t none) s.frame (r :: s.log) u := by
    intro r hr hend
    refine talks_of_ne (fun u hu => (h u).other fun hu' => hu (hr u hu')) (fun _ _ => rfl)
      (fun u hu => Function.update_of_ne hu _ _) (fun _ _ => rfl) ?_
    obtain ⟨x, y, hx, hy, ht⟩ := h t
    rw [hw, hc] at ht
    obtain ⟨hx', hy'⟩ := hend x y hx hy ht
    refine ⟨_, _, hx', hy', ?_⟩
    rw [hw, Function.update_self]
    exact .out _
  cases c with
  | cal =>
    refine hrec _ (fun u hu => hu.symm) fun x y hx hy ht => ?_
    generalize s.frame t = f at ht
    dsimp only
    cases ht with
    | replied _ he =>
      rw [if_pos he]
      exact ⟨Monitor.after_cons hx ((if_pos rfl).trans (if_pos rfl)), Monitor.after_cons hy rfl⟩
    | failed _ _ he hfails =>
      rw [if_neg he]
      exact ⟨Monitor.after_cons hx ((if_pos rfl).trans (if_pos hfails)), Monitor.after_cons hy rfl⟩
  | acp =>
    refine hrec _ (fun u hu => hu.symm) fun x y hx hy ht => ?_
    generalize s.frame t = f at ht
    dsimp only
    cases ht with
    | accepted _ he =>
      rw [if_pos he]
      exact ⟨Monitor.after_cons hx rfl, Monitor.after_cons hy ((if_pos rfl).trans (if_pos rfl))⟩
    | refused _ he =>
      rw [if_neg he]
      exact ⟨Monitor.after_cons hx rfl, Monitor.after_cons hy ((if_pos rfl).trans (if_pos rfl))⟩

theorem step (h : RdvTalks s) (hp : RdvPlaces k s) (hn : RdvNumbersIn k s) {e : RdvEvent}
    (hs : s.step k e = some s') : RdvTalks s' := by
  have htcb : ∀ t n m, s.wait t = some (.rdv n m) → getTcbRdvno n = t := fun t n m hw =>
    hn.getTcb hw
  cases e with
  | tkCrePor tpri maxcmsz maxrmsz =>
    cases hs
    unfold RdvSys.tkCrePor
    split
    · exact h
    split
    · exact h
    · exact h
  | tkDelPor porid =>
    cases hs
    unfold RdvSys.tkDelPor
    split
    · exact h
    split
    · exact h
    have hwaits : ∀ {s : RdvSys}, Queued s.porcb s.wait → ∀ q, ∀ t ∈ porQue s.porcb q,
        ∃ w, s.wait t = some w ∧ w.que ≠ none := by
      intro s hq q t ht
      obtain ⟨w, hw, hwq⟩ := (hq.mem q t).1 ht
      exact ⟨w, hw, by rw [hwq]; exact Option.some_ne_none q⟩
    have hp₁ := hp.knlWaitDelete (s.porcb porid).callQueue
    have h₁ := h.knlWaitDelete (hp.queued.nodup (.call porid)) (hwaits hp.queued (.call porid))
    exact knlWaitDelete h₁ (hp₁.queued.nodup (.accept porid))
      (hwaits hp₁.queued (.accept porid))
  | tkCalPor self porid calptn msg cmsgsz tmout =>
    obtain ⟨hfree, hs⟩ := Option.ite_none_right_eq_some.1 hs
    cases hs
    have hf : self < k.numTskid ∧ s.call self = none := by simpa [RdvSys.free?] using hfree
    have henter := h.entered (hp.wait_eq_none hf.2) hf.2 .cal msg
    unfold RdvSys.tkCalPor
    split
    · exact refuse henter ER.noConfusion
    split
    · exact refuse henter ER.noConfusion
    split
    · exact refuse henter ER.noConfusion
    split
    · exact refuse henter ER.noConfusion
    · exact calPor henter hp.queued calptn _ tmout
  | tkAcpPor self porid acpptn msg tmout =>
    obtain ⟨hfree, hs⟩ := Option.ite_none_right_eq_some.1 hs
    cases hs
    have hf : self < k.numTskid ∧ s.call self = none := by simpa [RdvSys.free?] using hfree
    have henter := h.entered (hp.wait_eq_none hf.2) hf.2 .acp msg
    unfold RdvSys.tkAcpPor
    split
    · exact refuse henter ER.noConfusion
    split
    · exact refuse henter ER.noConfusion
    split
    · exact refuse henter ER.noConfusion
    · exact acpPor henter hp.queued acpptn tmout
  | tkFwdPor porid calptn rdvno msg cmsgsz =>
    cases hs
    rcases RdvSys.tkFwdPor_cases with ⟨hsame, -⟩ | ⟨m, hw, -, -, -, -, -, heq⟩
    · rw [hsame]
      exact h
    · rw [heq]
      exact h.fwdPor hp.queued hw rfl calptn msg _
  | tkRplRdv rdvno msg rmsgsz =>
    cases hs
    rcases RdvSys.tkRplRdv_cases with ⟨hsame, -⟩ | ⟨m, hw, -, -, heq⟩
    · rw [hsame]
      exact h
    · rw [heq]
      exact h.rplRdv hw rfl msg _
  | timeout t =>
    obtain ⟨⟨hw, -⟩, hs⟩ := Option.ite_none_right_eq_some.1 hs
    cases hs
    exact h.breaks_release (htcb t) hw
  | tkRelWai t =>
    obtain ⟨hw, hs⟩ := Option.ite_none_right_eq_some.1 hs
    cases hs
    unfold RdvTalks RdvSys.release RdvSys.setErcd RdvSys.setFrame RdvSys.knlWaitRelease
      RdvSys.queRemove
    dsimp only
    rw [RdvSys.breaks_wait, RdvSys.breaks_call, RdvSys.breaks_frame]
    exact h.breaks (htcb t) hw (f := { s.frame t with ercd := .E_RLWAI }) ER.noConfusion
  | tkTerTsk t =>
    cases hs
    refine terminate ?_ ?_
    · split
      · exact h.breaks_release (htcb t) ‹_›
      · exact h
    · split
      · exact Function.update_self _ _ _
      · exact Option.not_isSome_iff_eq_none.1 ‹_›
  | chgPri t priority =>
    cases hs
    unfold RdvSys.calChgPri
    split
    · exact h
    · exact h
  | ret t =>
    simp only [RdvSys.step] at hs
    split at hs
    · obtain ⟨hw, hs⟩ := Option.ite_none_right_eq_some.1 hs
      cases hs
      exact h.returns ‹_› hw
    · cases hs

theorem boot (k : RdvCfg) (priority : Tid → Nat) : RdvTalks (.boot k priority) :=
  fun _ => ⟨.idle, .idle, rfl, rfl, .out _⟩

theorem of_reachable (hr : (rdvMachine k).Reachable s) : RdvTalks s := by
  have hall : RdvPlaces k s ∧ RdvNumbersIn k s ∧ RdvTalks s := by
    apply Lts.ReachableIf.invariant (fun s => RdvPlaces k s ∧ RdvNumbersIn k s ∧ RdvTalks s)
      ?_ ?_ hr
    · rintro s ⟨priority, rfl⟩
      exact ⟨.boot k priority, .boot k priority, boot k priority⟩
    · rintro s e s' ⟨hp, hn, h⟩ - hs
      exact ⟨hp.step hs, hn.step hp hs, h.step hp hn hs⟩
  exact hall.2.2

end RdvTalks

end Mtk3Smp
