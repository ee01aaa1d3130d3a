import Mtk3Smp.Ipc.MessageFlow

/-!
# Message buffers keep their messages

Each call and each event preserves `MbfInv`; what it says of every reachable state is `MbfOk`.
-/

namespace Mtk3Smp

open MbfSys

section

variable {s : MbfSys} {stored : List Msg} {t : Tid}

/-- A state whose queues and ring are those of `s`. -/
theorem MbfInv.keep {s' : MbfSys} (inv : MbfInv s) (hcb : s'.cb = s.cb)
    (hsq : s'.sendQueue = s.sendQueue) (hrq : s'.recvQueue = s.recvQueue)
    (flow : ∃ stored, Flow s' (s.sendQueue.map Sender.pair) (s.recvQueue.map (·.call)) stored) :
    MbfInv s' := by
  refine ⟨?_, ?_, ?_, ?_, ?_⟩
  · rw [hsq, hrq]
    exact flow
  · rw [hsq]
    exact inv.small
  · rw [hcb]
    exact inv.maxmsz
  · rw [hcb, hsq, hrq]
    exact inv.recv
  · unfold Blocked
    rw [hcb, hsq]
    exact inv.blocked

theorem recvQueue_nil (inv : MbfInv s) (h : s.sendQueue ≠ []) : s.recvQueue = [] := by
  by_contra hne
  exact h (inv.recv hne).2

theorem knlQueueInsertTpri_perm (priority : Tid → Nat) (x : Sender) (q : List Sender) :
    (knlQueueInsertTpri priority x q).Perm (x :: q) := by
  induction q with
  | nil => exact List.Perm.refl _
  | cons y rest ih =>
    unfold knlQueueInsertTpri
    split
    · exact List.Perm.refl _
    · exact (ih.cons y).trans (List.Perm.swap x y rest)

/-- The task that waits is at the head only if its message was refused as the top one. -/
theorem makeSendWait_blocked {x : Sender} (hb : s.Blocked)
    (hx : s.isTop x.tsk = true → knlMbfFree s.cb x.msg.length = false) :
    (s.makeSendWait x).Blocked := by
  intro y rest hq
  show knlMbfFree s.cb y.msg.length = false
  unfold makeSendWait at hq
  unfold isTop at hx
  cases hsq : s.sendQueue with
  | nil =>
    simp only [hsq, knlQueueInsertTpri, List.nil_append, ite_self] at hq
    obtain ⟨rfl, -⟩ := List.cons.inj hq
    exact hx (by rw [hsq])
  | cons z zs =>
    simp only [hsq] at hq hx
    have hz : knlMbfFree s.cb z.msg.length = false := hb z zs hsq
    by_cases tpri : s.cb.tpri = true
    · rw [if_pos tpri, knlQueueInsertTpri] at hq
      by_cases before : s.priority x.tsk < s.priority z.tsk
      · rw [if_pos before] at hq
        obtain ⟨rfl, -⟩ := List.cons.inj hq
        exact hx (by simp [tpri, before])
      · rw [if_neg before] at hq
        obtain ⟨rfl, -⟩ := List.cons.inj hq
        exact hz
    · rw [if_neg tpri, List.cons_append] at hq
      obtain ⟨rfl, -⟩ := List.cons.inj hq
      exact hz

theorem makeSendWait_perm (x : Sender) :
    (s.makeSendWait x).sendQueue.Perm (x :: s.sendQueue) := by
  show (if s.cb.tpri then _ else _ : List Sender).Perm _
  split
  · exact knlQueueInsertTpri_perm ..
  · exact List.perm_append_comm

/-- The caller of tk_snd_mbf is put in the wait queue. -/
theorem makeSendWait_inv {x : Sender}
    (h : Flow s (x.pair :: s.sendQueue.map Sender.pair) [] stored) (hrecv : s.recvQueue = [])
    (small : ∀ y ∈ s.sendQueue, y.msg.length < 2 ^ 31) (hlen : x.msg.length < 2 ^ 31)
    (hmax : s.cb.maxmsz < 2 ^ 31) (hb : s.Blocked)
    (hx : s.isTop x.tsk = true → knlMbfFree s.cb x.msg.length = false) :
    MbfInv (s.makeSendWait x) := by
  have hperm := makeSendWait_perm (s := s) x
  refine ⟨⟨stored, ?_⟩, fun y hy => ?_, hmax, fun hne => absurd hrecv hne,
    makeSendWait_blocked hb hx⟩
  · have hflow := h.perm (hperm.map Sender.pair).symm
    have := hflow.requeue (s.makeSendWait x).sendQueue s.recvQueue s.priority s.exists_
    have hr : (s.makeSendWait x).recvQueue.map (·.call) = [] := by
      show s.recvQueue.map (·.call) = []
      rw [hrecv]
      rfl
    rw [hr]
    exact this
  · rcases List.mem_cons.1 (hperm.mem_iff.1 hy) with rfl | hy
    · exact hlen
    · exact small y hy

theorem tkSndMbf_inv (inv : MbfInv s) (self : Option Tid) (ddsp : Bool) (msg : Msg) (tmout : Tmo) :
    MbfInv (s.tkSndMbf self ddsp msg tmout) := by
  obtain ⟨stored, flow⟩ := inv.flow
  have start := flow.startSnd msg
  have refuse : ∀ e, e ≠ ER.E_OK → MbfInv
      (MbfSys.sndNg { s with calls := s.calls + 1, sent := s.sent ++ [(s.calls, msg)] } s.calls e) :=
    fun e he => inv.keep rfl rfl rfl ⟨stored, start.sndNg he⟩
  unfold tkSndMbf
  dsimp only
  split
  · exact refuse _ (by simp)
  split
  · exact refuse _ (by simp)
  split
  · exact refuse _ (by simp)
  split
  · exact refuse _ (by simp)
  rename_i hlong
  have hmax := inv.maxmsz
  have hlen : msg.length < 2 ^ 31 := by omega
  split
  · -- to the first receiver
    rename_i tcb rest hrq
    obtain ⟨hempty, hsq⟩ := inv.recv (by rw [hrq]; simp)
    obtain rfl := flow.ring.empty_iff.1 hempty
    rw [hrq] at start
    have hand := (start.hand).requeue s.sendQueue rest s.priority s.exists_
    refine ⟨⟨[], hand⟩, inv.small, hmax, fun _ => ⟨hempty, hsq⟩, inv.blocked⟩
  · rename_i hrq
    split
    · -- into the ring
      rename_i hfree
      rw [Bool.and_eq_true] at hfree
      have hroom := (flow.ring.free_iff hlen).1 hfree.2
      refine ⟨⟨_, start.store hlen hfree.2⟩, inv.small, ?_, fun hne => absurd hrq hne, ?_⟩
      · exact (knlMsgToMbf_maxmsz s.cb msg).trans_lt hmax
      · intro x rest hq
        have hx := inv.small x (by rw [show s.sendQueue = x :: rest from hq]; simp)
        exact blocked_store flow.ring hroom hx (inv.blocked x rest hq)
    · rename_i hfull
      have wait : ∀ u, self = some u → MbfInv (makeSendWait
          { s with calls := s.calls + 1, sent := s.sent ++ [(s.calls, msg)] }
          ⟨u, msg, tmout, s.calls⟩) := by
        rintro u rfl
        rw [show s.recvQueue = [] from hrq] at flow
        refine makeSendWait_inv (flow.startSnd msg) hrq inv.small hlen hmax inv.blocked fun htop => ?_
        rw [Option.all_some, Bool.and_eq_true, not_and, Bool.not_eq_true] at hfull
        exact hfull htop
      split
      · exact wait _ rfl
      · exact wait _ rfl
      · exact refuse _ (by simp)

theorem tkRcvMbf_inv (inv : MbfInv s) (self : Tid) (ddsp : Bool) (tmout : Tmo) :
    MbfInv (s.tkRcvMbf self ddsp tmout) := by
  obtain ⟨stored, flow⟩ := inv.flow
  have start := flow.startRcv
  have refuse : ∀ e, e ≠ ER.E_OK → MbfInv
      (MbfSys.rcvNg { s with calls := s.calls + 1 } s.calls e) :=
    fun e he => inv.keep rfl rfl rfl ⟨stored, start.rcvNg he⟩
  unfold tkRcvMbf
  dsimp only
  split
  · exact refuse _ (by simp)
  split
  · exact refuse _ (by simp)
  split
  · -- from the ring
    rename_i hne
    have hempty : knlMbfEmpty s.cb ≠ true := by simpa using hne
    have hrq : s.recvQueue = [] := by
      by_contra hr
      exact hempty (inv.recv hr).1
    rw [hrq] at flow
    cases stored with
    | nil => exact absurd (flow.ring.empty_iff.2 rfl) hempty
    | cons msg rest =>
      refine knlMbfWakeup_inv flow.startRcv.take hrq inv.small ?_
      exact (knlMbfToMsg_maxmsz s.cb).trans_lt inv.maxmsz
  · rename_i he
    have hempty : knlMbfEmpty s.cb = true := by simpa using he
    obtain rfl := flow.ring.empty_iff.1 hempty
    split
    · -- from the first sender
      rename_i tcb rest hsq
      have hrq := recvQueue_nil inv (by rw [show s.sendQueue = tcb :: rest from hsq]; simp)
      rw [hrq, show s.sendQueue = tcb :: rest from hsq] at flow
      have hand := flow.startRcv.hand.requeue rest s.recvQueue s.priority s.exists_
      refine knlMbfWakeup_inv hand hrq (fun x hx => ?_) inv.maxmsz
      exact inv.small x (by rw [show s.sendQueue = tcb :: rest from hsq]; exact List.mem_cons_of_mem _ hx)
    · rename_i hsq
      have wait : MbfInv { s with
          calls := s.calls + 1, recvQueue := s.recvQueue ++ [⟨self, tmout, s.calls⟩] } := by
        refine ⟨⟨[], ?_⟩, inv.small, inv.maxmsz, fun _ => ⟨hempty, hsq⟩, inv.blocked⟩
        have hperm : (s.calls :: s.recvQueue.map (·.call)).Perm
            ((s.recvQueue ++ [Receiver.mk self tmout s.calls]).map Receiver.call) := by
          rw [List.map_append]
          exact (List.perm_append_singleton _ _).symm
        exact { start with rcv := start.rcv.perm hperm }
      split
      · exact refuse _ (by simp)
      · exact wait

theorem perm_eraseP {α : Type} {p : α → Bool} {l : List α} {x : α} (h : l.find? p = some x) :
    l.Perm (x :: l.eraseP p) := by
  obtain ⟨hx, before, after, rfl, hbefore⟩ := List.find?_eq_some_iff_append.1 h
  rw [List.eraseP_append_right _ (by simpa using hbefore), List.eraseP_cons_of_pos hx]
  exact List.perm_middle

/-- A wait that ends without a message. -/
theorem endWait_inv (inv : MbfInv s) (t : Tid) {e : Option ER} (he : e ≠ some .E_OK) :
    MbfInv (s.endWait t e) := by
  obtain ⟨stored, flow⟩ := inv.flow
  unfold endWait
  split
  · -- a sender: the next one may fit
    rename_i x hx
    have hperm := perm_eraseP hx
    have hmem : s.sendQueue ≠ [] := by
      intro hq
      simp [hq] at hx
    have hrq := recvQueue_nil inv hmem
    have small : ∀ y ∈ s.sendQueue.eraseP (·.tsk == t), y.msg.length < 2 ^ 31 := fun y hy =>
      inv.small y (List.eraseP_subset hy)
    have hflow := flow.perm (hperm.map Sender.pair)
    rw [hrq] at hflow
    have hq := hflow.requeue (s.sendQueue.eraseP (·.tsk == t)) s.recvQueue s.priority s.exists_
    cases e with
    | none => exact knlMbfWakeup_inv (hq.dropSnd (List.sublist_cons_self _ _)) hrq small inv.maxmsz
    | some e =>
      have he' : e ≠ .E_OK := fun h => he (by rw [h])
      exact knlMbfWakeup_inv (hq.sndNg he') hrq small inv.maxmsz
  · split
    · -- a receiver
      rename_i x hx
      have hperm := perm_eraseP hx
      have hne : s.recvQueue ≠ [] := by
        intro hq
        simp [hq] at hx
      have hflow : Flow s (s.sendQueue.map Sender.pair)
          (x.call :: (s.recvQueue.eraseP (·.tsk == t)).map (·.call)) stored :=
        { flow with rcv := flow.rcv.perm (hperm.map _) }
      have hq := hflow.requeue s.sendQueue (s.recvQueue.eraseP (·.tsk == t)) s.priority s.exists_
      have hrecv := inv.recv hne
      cases e with
      | none =>
        exact ⟨⟨stored, hq.dropRcv (List.sublist_cons_self _ _)⟩, inv.small, inv.maxmsz,
          fun _ => hrecv, inv.blocked⟩
      | some e =>
        have he' : e ≠ .E_OK := fun h => he (by rw [h])
        exact ⟨⟨stored, hq.rcvNg he'⟩, inv.small, inv.maxmsz, fun _ => hrecv, inv.blocked⟩
    · exact inv

theorem chgPri_inv (inv : MbfInv s) (t : Tid) (priority : Nat) : MbfInv (s.chgPri t priority) := by
  obtain ⟨stored, flow⟩ := inv.flow
  have hpri := flow.requeue s.sendQueue s.recvQueue (Function.update s.priority t priority) s.exists_
  unfold chgPri
  dsimp only
  split
  · rename_i x htpri hx
    have hperm := (perm_eraseP hx).trans
      (knlQueueInsertTpri_perm (Function.update s.priority t priority) x
        (s.sendQueue.eraseP (·.tsk == t))).symm
    have hne : s.sendQueue ≠ [] := by
      intro hq
      simp [hq] at hx
    have hrq := recvQueue_nil inv hne
    rw [hrq] at flow
    have hflow := (flow.perm (hperm.map Sender.pair)).requeue
      (knlQueueInsertTpri (Function.update s.priority t priority) x
        (s.sendQueue.eraseP (·.tsk == t))) s.recvQueue
      (Function.update s.priority t priority) s.exists_
    refine knlMbfWakeup_inv hflow hrq (fun y hy => ?_) inv.maxmsz
    exact inv.small y (hperm.mem_iff.2 hy)
  · exact inv.keep rfl rfl rfl ⟨stored, hpri⟩

theorem filter_closeAll {calls : List Nat} {e : ER} (he : e ≠ .E_OK) (ret : List (Nat × ER)) :
    (ret ++ calls.map fun i => (i, e)).filter (·.2 == .E_OK) = ret.filter (·.2 == .E_OK) := by
  have hnil : (calls.map fun i => (i, e)).filter (·.2 == .E_OK) = [] := by
    rw [List.filter_eq_nil_iff]
    intro p hp
    obtain ⟨i, -, rfl⟩ := List.mem_map.1 hp
    simpa using he
  rw [List.filter_append, hnil, List.append_nil]

theorem tkDelMbf_inv (inv : MbfInv s) : MbfInv s.tkDelMbf := by
  obtain ⟨stored, flow⟩ := inv.flow
  unfold tkDelMbf
  split
  · exact inv
  · refine ⟨⟨stored, ?_⟩, by simp, inv.maxmsz, by simp, fun x rest hq => by simp at hq⟩
    have hs : s.sendQueue.map (fun x => (x.call, ER.E_DLT)) =
        ((s.sendQueue.map Sender.pair).map Prod.fst).map fun i => (i, ER.E_DLT) := by
      simp [Sender.pair]
    have hr : s.recvQueue.map (fun x => (x.call, ER.E_DLT)) =
        (s.recvQueue.map (·.call)).map fun i => (i, ER.E_DLT) := by
      simp
    refine { flow with snd := ?_, rcv := ?_, accepted := ?_, delivered := ?_, sent := ?_ }
    · rw [hs]
      exact flow.snd.closeAll _
    · rw [hr]
      exact flow.rcv.closeAll _
    · rw [hs, filter_closeAll (by simp)]
      exact flow.accepted
    · rw [hr, filter_closeAll (by simp)]
      exact flow.delivered
    · rintro p (hp | hp)
      · exact flow.sent p (.inl hp)
      · cases hp

end

theorem mbfInv_created {tpri : Bool} {bufsz maxmsz : Nat} (hdvd : HEADERSZ ∣ bufsz)
    (hlt : bufsz < 2 ^ 31) (hmax : maxmsz < 2 ^ 31) (buffer : Nat → UInt8) (priority : Tid → Nat) :
    MbfInv (.created tpri bufsz maxmsz buffer priority) := by
  refine ⟨⟨[], ?_⟩, by simp [created], hmax, by simp [created], fun x rest hq => by cases hq⟩
  refine ⟨⟨hdvd, hlt, ?_, Nat.zero_le _, Nat.dvd_zero 4, id, ?_, trivial⟩, rfl, .nil 0, .nil 0, rfl, rfl,
    ?_, List.nodup_nil, ?_⟩
  · exact (sub_zero _).symm
  · exact (Nat.zero_mod _).symm
  · rintro p (hp | hp) <;> cases hp
  · intro p hp
    cases hp

theorem mbfInv_step {s s' : MbfSys} {e : MbfEvent} (inv : MbfInv s) (h : s.step e = some s') :
    MbfInv s' := by
  cases e with
  | tkSndMbf self ddsp msg tmout =>
    simp only [MbfSys.step] at h
    split at h
    · cases h
    · obtain rfl := Option.some.inj h
      exact tkSndMbf_inv inv ..
  | tkRcvMbf self ddsp tmout =>
    simp only [MbfSys.step] at h
    split at h
    · cases h
    · obtain rfl := Option.some.inj h
      exact tkRcvMbf_inv inv ..
  | timeout t =>
    simp only [MbfSys.step] at h
    split at h
    · obtain rfl := Option.some.inj h
      exact endWait_inv inv t (by simp)
    · cases h
  | tkRelWai t =>
    simp only [MbfSys.step] at h
    split at h
    · obtain rfl := Option.some.inj h
      exact endWait_inv inv t (by simp)
    · cases h
  | tkTerTsk t =>
    simp only [MbfSys.step] at h
    split at h
    · obtain rfl := Option.some.inj h
      exact endWait_inv inv t (by simp)
    · cases h
  | chgPri t priority =>
    obtain rfl := Option.some.inj h
    exact chgPri_inv inv t priority
  | tkDelMbf =>
    obtain rfl := Option.some.inj h
    exact tkDelMbf_inv inv

theorem mbfInv_reachable {s : MbfSys} (h : mbfMachine.Reachable s) : MbfInv s := by
  refine h.invariant MbfInv ?_ fun s e t inv _ ht => mbfInv_step inv ht
  rintro s ⟨tpri, bufsz, maxmsz, buffer, priority, rfl, hdvd, hlt, -, hmax⟩
  exact mbfInv_created hdvd hlt hmax buffer priority

theorem mem_map_filter_ok {ret : List (Nat × ER)} (n : Nat) :
    n ∈ (ret.filter (·.2 == .E_OK)).map Prod.fst ↔ (n, ER.E_OK) ∈ ret := by
  simp only [List.mem_map, List.mem_filter, beq_iff_eq, Prod.exists]
  constructor
  · rintro ⟨m, e, ⟨hm, rfl⟩, rfl⟩
    exact hm
  · exact fun h => ⟨n, .E_OK, ⟨h, rfl⟩, rfl⟩

/-- In every reachable state nothing is lost, duplicated or changed, and the first waiting
sender waits for room. -/
theorem mbfOk_of_reachable {s : MbfSys} (h : mbfMachine.Reachable s) : MbfOk s := by
  have inv := mbfInv_reachable h
  obtain ⟨stored, flow⟩ := inv.flow
  have hcontents := flow.ring.contents_eq
  have hsub : ∀ ret : List (Nat × ER), (ret.map Prod.fst).Nodup →
      ((ret.filter (·.2 == .E_OK)).map Prod.fst).Nodup := fun ret hn =>
    hn.sublist (List.filter_sublist.map Prod.fst)
  refine ⟨?_, flow.sent_once, fun p hp => flow.sent p (.inl hp), ?_, flow.snd.nodup_closed, ?_, ?_,
    flow.rcv.nodup_closed, ?_, ?_, ?_, ?_, ?_, inv.blocked⟩
  · rw [hcontents]
    exact flow.stream
  · rw [flow.accepted]
    exact hsub _ flow.snd.nodup_closed
  · intro n
    rw [flow.accepted, mem_map_filter_ok]
  · rw [flow.delivered]
    exact hsub _ flow.rcv.nodup_closed
  · intro n
    rw [flow.delivered, mem_map_filter_ok]
  · intro x hx
    have hpair : x.pair ∈ s.sendQueue.map Sender.pair := List.mem_map_of_mem hx
    exact ⟨flow.sent _ (.inr hpair), flow.snd.not_closed (List.mem_map_of_mem hpair)⟩
  · intro x hx
    exact flow.rcv.not_closed (List.mem_map_of_mem hx)
  · rw [hcontents]
    exact flow.ring.free
  · intro hne
    obtain ⟨hempty, hsq⟩ := inv.recv hne
    rw [hcontents]
    exact ⟨flow.ring.empty_iff.1 hempty, hsq⟩

/-- A buffer of 12 bytes: the message of task 1 waits for room and is then stored round the
end, and that of task 3 waits behind it. -/
theorem mbfOk_of_reachable_wrapped :
    ∃ s, MbfOk s ∧ s.cb.contents = [[9, 8, 7, 6, 5]] ∧ s.delivered.map Prod.snd = [[1, 2, 3]] ∧
      s.sendQueue.map (·.msg) = [[7]] := by
  obtain ⟨s, reach, hs⟩ := mbfMachine.reachable_of_trace
    (s := .created false 12 8 (fun _ => 0) (fun t => t))
    (p := fun s => s.cb.contents == [[9, 8, 7, 6, 5]] && s.delivered.map Prod.snd == [[1, 2, 3]] &&
      s.sendQueue.map (·.msg) == [[7]])
    [.tkSndMbf (some 0) false [1, 2, 3] .TMO_POL, .tkSndMbf (some 1) false [9, 8, 7, 6, 5] .TMO_FEVR,
      .tkSndMbf (some 3) false [7] (.after 10), .tkRcvMbf 2 false .TMO_FEVR]
    ⟨_, _, _, _, _, rfl, by decide, by decide, by decide, by decide⟩ (by decide +kernel)
  simp only [Bool.and_eq_true, beq_iff_eq] at hs
  exact ⟨s, mbfOk_of_reachable reach, hs.1.1, hs.1.2, hs.2⟩

end Mtk3Smp
