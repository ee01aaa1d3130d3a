import Mtk3Smp.Time.HandlerQueue

/-!
# Events run once

What the queues keep holds in every reachable state. An event leaves its queue when it is
executed or when its handler is stopped, and in a run in which the cores keep going it does.
-/

namespace Mtk3Smp

section

variable {k : TimeCfg} {s t : TimeSys} {e : TimeEvent} {h : Hdr} {c d self : Core}

theorem que_head (hd : (s.rings.que (.handler c)).head? = some h) :
    s.queues.que c = s.number h :: (s.queues.que c).tail := by
  cases hq : s.rings.que (.handler c) with
  | nil => simp [hq] at hd
  | cons y rest =>
    rw [hq] at hd
    cases hd
    simp [TimeSys.queues, hq]

theorem queueOps_ledger {v w : Queues} (ops : QueueOps v w) (ok : QueueLedger v c) :
    QueueLedger w c := by
  induction ops with
  | refl => exact ok
  | tail _ hop ih => exact hop.ledger ih

theorem queueOps_served {v w : Queues} (ops : QueueOps v w) (ok : QueueServed v c) :
    QueueServed w c := by
  induction ops with
  | refl => exact ok
  | tail _ hop ih => exact hop.served ih

theorem queueOps_later {v w : Queues} (ops : QueueOps v w) : QueueLater v w c := by
  induction ops with
  | refl => exact .refl
  | tail _ hop ih => exact ih.trans hop.later

theorem queueOps_executed {v w : Queues} (ops : QueueOps v w) : w.executed = v.executed := by
  induction ops with
  | refl => rfl
  | tail _ hop ih => exact hop.executed.trans ih

theorem queueLedger_step (inv : LinkInv none s) (ok : QueueLedger s.queues c)
    (hs : s.step k e = some t) : QueueLedger t.queues c := by
  rcases queues_step inv hs with ⟨d, h, hex⟩ | ⟨ops, -⟩
  · rw [hex.queues]
    exact (ok.execute (que_head hex.head)).congr rfl (Nat.le_refl _) rfl rfl rfl
  · exact queueOps_ledger ops ok

theorem queueServed_step (inv : LinkInv none s) (ok : QueueServed s.queues c)
    (hs : s.step k e = some t) : QueueServed t.queues c := by
  rcases queues_step inv hs with ⟨d, h, hex⟩ | ⟨ops, -⟩
  · rw [hex.queues]
    refine ⟨fun hne => ok.active ?_, fun ha => (ok.serving ha).mono rfl fun f hf _ => ?_⟩
    · by_cases same : c = d
      · subst same
        rw [que_head hex.head]
        simp
      · simpa [Queues.push, Queues.execute, same] using hne
    · exact mem_push (v := s.queues.execute d _ _) hf
  · exact queueOps_served ops ok

theorem queues_reachable (hr : (timeMachine k).Reachable s) (c : Core) :
    QueueLedger s.queues c ∧ QueueServed s.queues c := by
  have inv : LinkInv none s ∧ QueueLedger s.queues c ∧ QueueServed s.queues c := by
    refine hr.invariant (fun s => LinkInv none s ∧ QueueLedger s.queues c ∧ QueueServed s.queues c)
      ?_ ?_
    · rintro s ⟨cb, rfl⟩
      refine ⟨linkInv_boot k cb, ⟨?_, ?_, ?_, ?_⟩, ?_, ?_⟩
      all_goals simp [TimeSys.boot, TimeSys.queues, Rings.empty]
    · rintro s e t ⟨link, ledger, served⟩ - hs
      exact ⟨linkInv_step link hs, queueLedger_step link ledger hs, queueServed_step link served hs⟩
  exact inv.2

theorem executes_of_executed (inv : LinkInv none s) (hs : s.step k e = some t)
    (hne : t.executed c ≠ s.executed c) : ∃ h, s.Executes t e c h := by
  rcases queues_step inv hs with ⟨d, h, hex⟩ | ⟨ops, -⟩
  · have hq : t.executed = s.executed.set d (s.executed d ++ [s.number h]) :=
      congrArg Queues.executed hex.queues
    by_cases same : c = d
    · subst same
      exact ⟨h, hex⟩
    · rw [hq] at hne
      simp [same] at hne
  · have hq : t.executed = s.executed := queueOps_executed ops
    rw [hq] at hne
    exact absurd rfl hne

/-! ## Events that are taken off the queue -/

/-- A call on handler `h` that stops it; a start stops it once. -/
def TimeCall.Stops (h : Hdr) : TimeCall → Prop
  | .tkDelCyc cycid | .tkStaCyc cycid | .tkStpCyc cycid => h = ⟨.cyc, cycid - 1⟩
  | .tkDelAlm almid | .tkStaAlm almid _ | .tkStpAlm almid => h = ⟨.alm, almid - 1⟩
  | .tkCreCyc _ | .tkCreAlm _ => False

/-- The event of `h` is taken off the queue of core `c`. -/
structure TimeSys.Cancels (s t : TimeSys) (c : Core) (h : Hdr) : Prop where
  queued : h ∈ s.rings.que (.handler c)
  cancelled : t.cancelled c = s.cancelled c ++ [s.number h]

@[simp] theorem cancelled_knlEnqueueTimehandler {callback : Cback} :
    (s.knlEnqueueTimehandler self c h callback).cancelled = s.cancelled := by
  unfold TimeSys.knlEnqueueTimehandler
  dsimp only
  split
  · rfl
  · split <;> rfl

@[simp] theorem cancelled_knlImmediateCallCychdr :
    (s.knlImmediateCallCychdr self h).cancelled = s.cancelled := by
  unfold TimeSys.knlImmediateCallCychdr
  dsimp only
  split
  · exact cancelled_knlEnqueueTimehandler
  · rfl

@[simp] theorem cancelled_knlImmediateCallAlmhdr :
    (s.knlImmediateCallAlmhdr self h).cancelled = s.cancelled := by
  unfold TimeSys.knlImmediateCallAlmhdr
  dsimp only
  split
  · exact cancelled_knlEnqueueTimehandler
  · rfl

@[simp] theorem cancelled_runCallback : (s.runCallback self h).cancelled = s.cancelled := by
  unfold TimeSys.runCallback
  split
  · exact cancelled_knlEnqueueTimehandler
  · rfl
  · rfl

@[simp] theorem cancelled_knlTimehandlerExecute :
    (s.knlTimehandlerExecute self).cancelled = s.cancelled := by
  unfold TimeSys.knlTimehandlerExecute
  split
  · rfl
  · exact cancelled_runCallback

@[simp] theorem cancelled_knlTimerHandler {cur : ABSTIM} :
    (s.knlTimerHandler cur).cancelled = s.cancelled := by
  unfold TimeSys.knlTimerHandler
  split
  · rfl
  · split
    · rfl
    · exact cancelled_runCallback

theorem cancelled_create {kind : HdrKind} {g : HdrCb → HdrCb} {f : TimeSys → Hdr → TimeSys}
    (hf : ∀ t h, (f t h).cancelled = t.cancelled) :
    (s.create kind g f).2.cancelled = s.cancelled := by
  unfold TimeSys.create
  split
  · rfl
  · exact hf _ _

/-- A cancelled event is the one of the handler in hand. -/
theorem cancels_cancel (wf : s.rings.WF) (hc : t.cancelled = (s.cancel h).cancelled) :
    t.cancelled c = s.cancelled c ∨ s.Cancels t c h := by
  unfold TimeSys.cancel TimeSys.knlTimerDelete at hc
  split at hc
  · dsimp only at hc
    cases hl : s.rings.link h with
    | loose | selfRing =>
      simp only [hl] at hc
      exact .inl (by rw [hc])
    | member q =>
      cases q with
      | timer =>
        simp only [hl] at hc
        exact .inl (by rw [hc])
      | handler d =>
        simp only [hl] at hc
        by_cases same : c = d
        · subst same
          exact .inr ⟨(wf.mem_iff h _).2 hl, by rw [hc]; simp⟩
        · exact .inl (by rw [hc]; simp [same])
  · exact .inl (by rw [hc])

theorem cancels_withHdr {num id : Nat} {kind : HdrKind} {f : Hdr → TimeSys} (wf : s.rings.WF)
    (hf : ∀ h, (f h).cancelled = (s.cancel h).cancelled ∨ (f h).cancelled = s.cancelled) :
    (s.withHdr num kind id f).2.cancelled c = s.cancelled c ∨
      s.Cancels (s.withHdr num kind id f).2 c ⟨kind, id - 1⟩ := by
  unfold TimeSys.withHdr
  split
  · exact .inl rfl
  · split
    · exact .inl rfl
    · rcases hf ⟨kind, id - 1⟩ with hc | hc
      · exact cancels_cancel wf hc
      · exact .inl (by rw [hc])

theorem cancels_call (wf : s.rings.WF) (a : TimeCall) :
    (s.call k self a).cancelled c = s.cancelled c ∨
      ∃ h, a.Stops h ∧ s.Cancels (s.call k self a) c h := by
  have stop : ∀ {h : Hdr} {t : TimeSys}, a.Stops h →
      (t.cancelled c = s.cancelled c ∨ s.Cancels t c h) →
      t.cancelled c = s.cancelled c ∨ ∃ h, a.Stops h ∧ s.Cancels t c h :=
    fun hs hc => hc.imp_right fun hc => ⟨_, hs, hc⟩
  cases a with
  | tkCreCyc pk =>
    refine .inl ?_
    dsimp only [TimeSys.call]
    unfold TimeSys.tkCreCyc
    split
    · rfl
    · rw [cancelled_create]
      intro t h
      split
      · split
        · exact cancelled_knlImmediateCallCychdr
        · rfl
      · rfl
  | tkCreAlm pk =>
    refine .inl ?_
    dsimp only [TimeSys.call]
    unfold TimeSys.tkCreAlm
    split
    · rfl
    · rw [cancelled_create]
      exact fun t h => rfl
  | tkDelCyc cycid => exact stop rfl (cancels_withHdr wf fun h => .inl rfl)
  | tkStpCyc cycid => exact stop rfl (cancels_withHdr wf fun h => .inl rfl)
  | tkDelAlm almid => exact stop rfl (cancels_withHdr wf fun h => .inl rfl)
  | tkStpAlm almid => exact stop rfl (cancels_withHdr wf fun h => .inl rfl)
  | tkStaCyc cycid =>
    refine stop rfl (cancels_withHdr wf fun h => ?_)
    dsimp only
    split
    · split
      · exact .inr rfl
      · exact .inr rfl
    · exact .inl rfl
  | tkStaAlm almid almtim =>
    refine stop rfl ?_
    dsimp only [TimeSys.call]
    unfold TimeSys.tkStaAlm
    split
    · exact .inl rfl
    · split
      · exact .inl rfl
      · refine cancels_withHdr wf fun h => .inl ?_
        dsimp only
        split
        · rfl
        · exact cancelled_knlImmediateCallAlmhdr

theorem cancels_step (wf : s.rings.WF) (hs : s.step k e = some t)
    (hne : t.cancelled c ≠ s.cancelled c) :
    ∃ d a h, e = .call d a ∧ a.Stops h ∧ s.Cancels t c h := by
  rcases timeStep_cases hs with ⟨-, -, rfl⟩ | ⟨cur, rest, -, -, rfl⟩ | ⟨d, -, -, -, rfl⟩ |
    ⟨d, rest, -, -, -, rfl⟩ | ⟨d, rest, -, -, rfl⟩ | ⟨d, h, rest, -, -, -, rfl⟩ |
    ⟨d, a, rfl, -, -, rfl⟩
  · exact absurd rfl hne
  · exact absurd (by rw [cancelled_knlTimerHandler]) hne
  · exact absurd rfl hne
  · exact absurd rfl hne
  · exact absurd (by rw [cancelled_knlTimehandlerExecute]) hne
  · exact absurd rfl hne
  · rcases cancels_call wf a with hc | ⟨h, hs, hc⟩
    · exact absurd hc hne
    · exact ⟨d, a, h, rfl, hs, hc⟩

end

/-! ## Progress -/

/-- A step of the innermost frame of core `c`. -/
def TimeEvent.Runs (c : Core) : TimeEvent → Prop
  | .tickRound => c = .core0
  | .ipiEnter d | .executeRound d | .bodyRet d => d = c
  | .tick | .ipiTake _ | .call _ _ => False

/-- The cores keep going: an IPI is taken, and what runs on a core goes on when what has
interrupted it is over, user functions included. -/
structure FairTime {k : TimeCfg} (p : (timeMachine k).Path) : Prop where
  taken : ∀ c n, (p.state n).pending c = true → ∃ m, n ≤ m ∧ p.event m = .ipiTake c
  resumed : ∀ c n f rest, (f :: rest) <:+ (p.state n).stack c →
    ∃ m, n ≤ m ∧ (p.state m).stack c = f :: rest ∧ (p.event m).Runs c

section

variable {k : TimeCfg} {p : (timeMachine k).Path} {s t : TimeSys} {e : TimeEvent} {c : Core}
  {n x : Nat}

theorem queueLater_step (inv : LinkInv none s) (hs : s.step k e = some t) :
    QueueLater s.queues t.queues c := by
  rcases queues_step inv hs with ⟨d, h, hex⟩ | ⟨ops, -⟩
  · rw [hex.queues]
    refine .of_sublist ?_ rfl rfl
    simp only [Queues.push, Queues.execute, PerCore.get_set]
    split
    · rename_i same
      rw [same]
      exact List.tail_sublist _
    · exact List.Sublist.refl _
  · exact queueOps_later ops

/-- No event gets ahead of a queued one. -/
theorem ahead_step (inv : LinkInv none s) (ok : QueueLedger s.queues c)
    (hs : s.step k e = some t) (hx : x ∈ s.queues.que c) :
    ((t.queues.que c).filter (· < x)).length ≤ ((s.queues.que c).filter (· < x)).length := by
  obtain ⟨-, -, new, hnew, hsub⟩ := queueLater_step (c := c) inv hs
  have hbound : x < s.queues.count :=
    ok.bound x (ok.order.subset (List.mem_append_right _ hx))
  have hnone : new.filter (· < x) = [] := by
    refine List.filter_eq_nil_iff.2 fun m hm => ?_
    have hle := hnew m hm
    simp only [decide_eq_true_eq]
    omega
  have hle := (hsub.filter (· < x)).length_le
  rwa [List.filter_append, hnone, List.append_nil] at hle

/-- A round that leaves an event in the queue brings it forward. -/
theorem ahead_round (inv : LinkInv none s) (ok : QueueLedger s.queues c)
    (hs : s.step k (.executeRound c) = some t) (hx : x ∈ s.queues.que c)
    (hx' : x ∈ t.queues.que c) :
    ((t.queues.que c).filter (· < x)).length < ((s.queues.que c).filter (· < x)).length := by
  rcases queues_step inv hs with ⟨d, h, hex⟩ | ⟨-, hempty⟩
  · obtain rfl : c = d := by simpa using hex.round
    have hque : t.queues.que c = (s.queues.que c).tail := by
      rw [hex.queues]
      simp [Queues.push, Queues.execute]
    have hhead := que_head hex.head
    have hsorted : (s.queues.que c).Pairwise (· < ·) :=
      ok.increasing.sublist ((List.sublist_append_right _ _).trans ok.order)
    rw [hhead] at hsorted
    rw [hque] at hx' ⊢
    have hlt := (List.pairwise_cons.1 hsorted).1 x hx'
    rw [hhead, List.filter_cons_of_pos (by simpa using hlt)]
    exact Nat.lt_succ_self _
  · have hnil : s.queues.que c = [] := by simp [TimeSys.queues, hempty c rfl]
    simp [hnil] at hx

theorem round_of_frame (fair : FairTime p) (hf : .execute ∈ (p.state n).stack c) :
    ∃ m, n ≤ m ∧ p.event m = .executeRound c := by
  obtain ⟨above, below, hst⟩ := List.append_of_mem hf
  obtain ⟨m, hm, htop, hrun⟩ := fair.resumed c n .execute below ⟨above, hst.symm⟩
  refine ⟨m, hm, ?_⟩
  have hstep := p.next m
  cases he : p.event m with
  | executeRound d =>
    rw [he] at hrun
    rw [show d = c from hrun]
  | tick | ipiTake d | call d a =>
    rw [he] at hrun
    cases hrun
  | tickRound =>
    rw [he] at hrun hstep
    cases hrun
    simp [timeMachine, TimeSys.step, htop] at hstep
  | ipiEnter d | bodyRet d =>
    rw [he] at hrun hstep
    cases hrun
    simp [timeMachine, TimeSys.step, htop] at hstep

theorem round_of_ipi (fair : FairTime p) (hf : .ipi ∈ (p.state n).stack c) :
    ∃ m, n ≤ m ∧ p.event m = .executeRound c := by
  obtain ⟨above, below, hst⟩ := List.append_of_mem hf
  obtain ⟨m, hm, htop, hrun⟩ := fair.resumed c n .ipi below ⟨above, hst.symm⟩
  have hstep := p.next m
  cases he : p.event m with
  | ipiEnter d =>
    rw [he] at hrun hstep
    obtain rfl : d = c := hrun
    have hexec : .execute ∈ (p.state (m + 1)).stack d := by
      simp only [timeMachine, TimeSys.step, htop] at hstep
      split at hstep
      · rw [← Option.some.inj hstep]
        simp [TimeSys.push]
      · cases hstep
    obtain ⟨j, hj, hround⟩ := round_of_frame fair hexec
    exact ⟨j, by omega, hround⟩
  | tick | ipiTake d | call d a =>
    rw [he] at hrun
    cases hrun
  | tickRound =>
    rw [he] at hrun hstep
    cases hrun
    simp [timeMachine, TimeSys.step, htop] at hstep
  | executeRound d | bodyRet d =>
    rw [he] at hrun hstep
    cases hrun
    simp [timeMachine, TimeSys.step, htop] at hstep

/-- A core that is to serve its queue gets to a round of its loop. -/
theorem round_of_serving (fair : FairTime p) (hs : (p.state n).queues.Serving c) :
    ∃ m, n ≤ m ∧ p.event m = .executeRound c := by
  rcases hs with hexec | hpend | hipi
  · exact round_of_frame fair hexec
  · obtain ⟨m, hm, he⟩ := fair.taken c n hpend
    have hstep := p.next m
    have hipi : .ipi ∈ (p.state (m + 1)).stack c := by
      rw [he] at hstep
      simp only [timeMachine, TimeSys.step] at hstep
      split at hstep
      · rw [← Option.some.inj hstep]
        simp [TimeSys.push]
      · cases hstep
    obtain ⟨j, hj, hround⟩ := round_of_ipi fair hipi
    exact ⟨j, by omega, hround⟩
  · exact round_of_ipi fair hipi

theorem leaves_queue (fair : FairTime p) (c : Core) (x n : Nat) :
    ∃ m, n ≤ m ∧ x ∉ (p.state m).queues.que c := by
  refine p.leaves (fun s => x ∈ s.queues.que c)
    (fun s => ((s.queues.que c).filter (· < x)).length) ?_ ?_ n
  · intro n hx _
    have hr := p.reachable n
    exact ahead_step (linkInv_reachable hr) (queues_reachable hr c).1 (p.next n) hx
  · intro n hx
    have served := (queues_reachable (p.reachable n) c).2
    obtain ⟨m, hm, he⟩ := round_of_serving fair (served.serving (served.active (by
      rintro hnil
      rw [hnil] at hx
      cases hx)))
    refine ⟨m, hm, fun hx hx' => ?_⟩
    have hr := p.reachable m
    have hstep := p.next m
    rw [he] at hstep
    exact ahead_round (k := k) (linkInv_reachable hr) (queues_reachable hr c).1 hstep hx hx'

theorem placed_run (hx : x ∈ (p.state n).placed c) {m : Nat} (hm : n ≤ m) :
    x ∈ (p.state m).placed c := by
  induction m, hm using Nat.le_induction with
  | base => exact hx
  | succ m hm ih =>
    have later := queueLater_step (c := c) (linkInv_reachable (p.reachable m)) (p.next m)
    exact later.placed ih

end

/-- Events wait in order until they are executed, once, or taken off by a call that stops their
handler; a nonempty queue is active, and drained or requested; and in a run in which the cores
keep going, every event that is placed leaves the queue in one of the two ways. -/
theorem handlers_run_once (k : TimeCfg) :
    (∀ s, (timeMachine k).Reachable s → ∀ c, QueueLedger s.queues c ∧ QueueServed s.queues c) ∧
      (∀ s e t, (timeMachine k).Reachable s → s.step k e = some t → ∀ c,
        (t.executed c ≠ s.executed c → ∃ h, s.Executes t e c h) ∧
        (t.cancelled c ≠ s.cancelled c → ∃ d a h, e = .call d a ∧ a.Stops h ∧ s.Cancels t c h)) ∧
      ∀ p : (timeMachine k).Path, FairTime p → ∀ c n x, x ∈ (p.state n).placed c →
        ∃ m, n ≤ m ∧ (x ∈ (p.state m).executed c ∨ x ∈ (p.state m).cancelled c) := by
  refine ⟨fun s hr c => queues_reachable hr c, fun s e t hr hs c => ⟨?_, ?_⟩, ?_⟩
  · exact executes_of_executed (linkInv_reachable hr) hs
  · exact cancels_step (linkInv_reachable hr).wf hs
  · intro p fair c n x hx
    obtain ⟨m, hm, hout⟩ := leaves_queue fair c x n
    have ledger := (queues_reachable (p.reachable m) c).1
    have hmem := ledger.once.mem_iff.1 (placed_run hx hm)
    refine ⟨m, hm, ?_⟩
    rcases List.mem_append.1 hmem with hmem | hmem
    · exact List.mem_append.1 hmem
    · exact absurd hmem hout

/-- An alarm of core 1 expires at once. -/
def alarmEvents : List TimeEvent :=
  [.call .core0 (.tkCreAlm ⟨some 2, 5, some 7⟩), .call .core0 (.tkStaAlm 1 0), .ipiTake .core1,
    .ipiEnter .core1, .executeRound .core1, .bodyRet .core1, .executeRound .core1]

def alarmBoot : TimeSys :=
  .boot ⟨0, 1⟩ fun _ =>
    { hdr := none, exinf := 0, phs := false, sta := false, cyctim := 0, assprc := 0, time := 0
      callback := .call }

/-- Calls with a wrong ID follow. -/
def alarmPath : (timeMachine ⟨0, 1⟩).Path :=
  .ofTrace (s := alarmBoot) ⟨_, rfl⟩ alarmEvents (.call .core0 (.tkStpAlm 0)) (by
    have hsome : ((timeMachine ⟨0, 1⟩).exec (fun _ _ => true) alarmBoot alarmEvents).any
        (fun t => t.lockFree && (t.stack .core0).head? != some .ipi) = true := by decide +kernel
    cases hx : (timeMachine ⟨0, 1⟩).exec (fun _ _ => true) alarmBoot alarmEvents with
    | none => simp [hx] at hsome
    | some t =>
      refine ⟨t, rfl, ?_⟩
      simp only [hx, Option.any_some] at hsome
      simp only [timeMachine, TimeSys.step, hsome, if_true]
      rfl)

/-- The frames of core 1 in the states of the path. -/
def alarmStack : Nat → List TimeFrame
  | 3 => [.ipi]
  | 4 => [.execute]
  | 5 => [.body ⟨.alm, 0⟩, .execute]
  | 6 => [.execute]
  | _ => []

theorem alarmPath_state (n : Nat) (c : Core) :
    ((alarmPath.state n).pending c = true → c = .core1 ∧ n = 2) ∧
      (alarmPath.state n).stack c = if c = .core1 then alarmStack n else [] := by
  have table : ∀ n < 8, ∀ c ∈ [Core.core0, .core1],
      ((alarmPath.state n).pending c = true → c = .core1 ∧ n = 2) ∧
        (alarmPath.state n).stack c = if c = .core1 then alarmStack n else [] := by
    decide +kernel
  have hmin := table (min n 7) (by omega) c (by cases c <;> simp)
  have hstate : alarmPath.state n = alarmPath.state (min n 7) := Lts.Path.ofTrace_state n
  rw [hstate]
  by_cases hn : n ≤ 7
  · rwa [Nat.min_eq_left hn] at hmin ⊢
  · rw [Nat.min_eq_right (by omega)] at hmin ⊢
    have hlate : alarmStack n = alarmStack 7 := by
      unfold alarmStack
      split <;> first | omega | rfl
    rw [hlate]
    exact ⟨fun hp => absurd (hmin.1 hp).2 (by decide), hmin.2⟩

theorem fairTime_alarmPath : FairTime alarmPath where
  taken c n hp := by
    obtain ⟨rfl, rfl⟩ := (alarmPath_state n c).1 hp
    exact ⟨2, Nat.le_refl _, rfl⟩
  resumed c n f rest hsuf := by
    rw [(alarmPath_state n c).2] at hsuf
    split at hsuf
    · rename_i hc
      subst hc
      have hst := fun m => (alarmPath_state m .core1).2
      simp only [if_true] at hst
      unfold alarmStack at hsuf
      split at hsuf
      · obtain ⟨rfl, rfl⟩ : f = .ipi ∧ rest = [] := by simpa [List.suffix_cons_iff] using hsuf
        exact ⟨3, Nat.le_refl _, hst 3, rfl⟩
      · obtain ⟨rfl, rfl⟩ : f = .execute ∧ rest = [] := by simpa [List.suffix_cons_iff] using hsuf
        exact ⟨4, Nat.le_refl _, hst 4, rfl⟩
      · rcases List.suffix_cons_iff.1 hsuf with he | hsuf
        · cases he
          exact ⟨5, Nat.le_refl _, hst 5, rfl⟩
        · obtain ⟨rfl, rfl⟩ : f = .execute ∧ rest = [] := by
            simpa [List.suffix_cons_iff] using hsuf
          exact ⟨6, by omega, hst 6, rfl⟩
      · obtain ⟨rfl, rfl⟩ : f = .execute ∧ rest = [] := by simpa [List.suffix_cons_iff] using hsuf
        exact ⟨6, Nat.le_refl _, hst 6, rfl⟩
      · simp at hsuf
    · simp at hsuf

/-- The event of the alarm is executed or taken off. -/
theorem handlers_run_once_alarm :
    ∃ m, 2 ≤ m ∧ (0 ∈ (alarmPath.state m).executed .core1 ∨
      0 ∈ (alarmPath.state m).cancelled .core1) :=
  (handlers_run_once ⟨0, 1⟩).2.2 alarmPath fairTime_alarmPath .core1 2 0 (by decide +kernel)

end Mtk3Smp
