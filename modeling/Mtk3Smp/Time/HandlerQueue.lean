import Mtk3Smp.Time.HandlerLinks
import Mathlib.Logic.Relation
import Mathlib.Data.List.Perm.Basic

/-!
# The queues that the cores drain

`Queues` is what the handler queues are for: numbered events wait for a core, are taken off in
order by the loop of that core or are cancelled, and whoever puts an event on an idle queue
sees to it that the core comes. A step of the handlers is a few of its operations (`QueueOp`),
or the execution of the first event of a queue.
-/

namespace Mtk3Smp

/-- The numbers of the queued events, and the rest of `TimeSys` that concerns them. -/
structure Queues where
  que : PerCore (List Nat)
  count : Nat
  placed : PerCore (List Nat)
  executed : PerCore (List Nat)
  cancelled : PerCore (List Nat)
  active : PerCore Bool
  pending : PerCore Bool
  stack : PerCore (List TimeFrame)

namespace Queues

variable (v : Queues)

def push (c : Core) (f : TimeFrame) : Queues := { v with stack := v.stack.set c (f :: v.stack c) }

def append (c : Core) : Queues :=
  { v with
    que := v.que.set c (v.que c ++ [v.count])
    count := v.count + 1
    placed := v.placed.set c (v.placed c ++ [v.count]) }

/-- Core `self` sees to it that core `c` drains its queue. -/
def request (self c : Core) : Queues :=
  if v.active c then v
  else
    let v := { v with active := v.active.set c true }
    if c = self then v.push self .execute else { v with pending := v.pending.set c true }

def place (self c : Core) : Queues := (v.append c).request self c

def cancel (c : Core) (n : Nat) (rest : List Nat) : Queues :=
  { v with que := v.que.set c rest, cancelled := v.cancelled.set c (v.cancelled c ++ [n]) }

def execute (c : Core) (n : Nat) (rest : List Nat) : Queues :=
  { v with que := v.que.set c rest, executed := v.executed.set c (v.executed c ++ [n]) }

end Queues

/-- What happens to the queues but for the execution of an event. -/
inductive QueueOp (v : Queues) : Queues → Prop
  | push (c f) : QueueOp v (v.push c f)
  /-- a frame that has no duty ends -/
  | pop (c f rest) (hst : v.stack c = f :: rest) (hf : f ≠ .ipi ∧ f ≠ .execute) :
    QueueOp v { v with stack := v.stack.set c rest }
  | place (self c) : QueueOp v (v.place self c)
  | cancel (c n before after) (hq : v.que c = before ++ n :: after) :
    QueueOp v (v.cancel c n (before ++ after))
  | take (c) : QueueOp v ({ v with pending := v.pending.set c false }.push c .ipi)
  | enter (c rest) (hst : v.stack c = .ipi :: rest) :
    QueueOp v { v with stack := v.stack.set c (.execute :: rest) }
  /-- the loop of a core finds its queue empty -/
  | finish (c f rest) (hst : v.stack c = f :: rest) (hq : v.que c = []) :
    QueueOp v { v with active := v.active.set c false, stack := v.stack.set c rest }

/-- Every event of a core is queued, executed or cancelled, the executed and the queued ones in
the order in which they were placed. -/
structure QueueLedger (v : Queues) (c : Core) : Prop where
  once : (v.placed c).Perm (v.executed c ++ v.cancelled c ++ v.que c)
  order : (v.executed c ++ v.que c).Sublist (v.placed c)
  increasing : (v.placed c).Pairwise (· < ·)
  bound : ∀ n ∈ v.placed c, n < v.count

/-- Core `c` is in the loop, possibly in a user function called from it, or will be. -/
def Queues.Serving (v : Queues) (c : Core) : Prop :=
  .execute ∈ v.stack c ∨ v.pending c = true ∨ .ipi ∈ v.stack c

structure QueueServed (v : Queues) (c : Core) : Prop where
  active : v.que c ≠ [] → v.active c = true
  serving : v.active c = true → v.Serving c

/-- Queues change by new events at the end and by events that leave. -/
structure QueueLater (v w : Queues) (c : Core) : Prop where
  count : v.count ≤ w.count
  placed : v.placed c ⊆ w.placed c
  que : ∃ new, (∀ n ∈ new, v.count ≤ n) ∧ (w.que c).Sublist (v.que c ++ new)

section

variable {v w : Queues} {c d : Core}

theorem QueueLater.refl : QueueLater v v c where
  count := Nat.le_refl _
  placed := List.Subset.refl _
  que := ⟨[], by simp, by simp⟩

theorem QueueLater.trans {u : Queues} (h₁ : QueueLater v w c) (h₂ : QueueLater w u c) :
    QueueLater v u c := by
  obtain ⟨hc₁, hp₁, n₁, hn₁, hs₁⟩ := h₁
  obtain ⟨hc₂, hp₂, n₂, hn₂, hs₂⟩ := h₂
  refine ⟨hc₁.trans hc₂, List.Subset.trans hp₁ hp₂, n₁ ++ n₂, fun n hn => ?_, ?_⟩
  · rcases List.mem_append.1 hn with hn | hn
    · exact hn₁ n hn
    · exact hc₁.trans (hn₂ n hn)
  · rw [← List.append_assoc]
    exact hs₂.trans (hs₁.append_right n₂)

theorem QueueLater.of_sublist (hq : (w.que c).Sublist (v.que c)) (hc : w.count = v.count)
    (hp : w.placed = v.placed) : QueueLater v w c where
  count := by rw [hc]
  placed := by
    rw [hp]
    exact List.Subset.refl _
  que := ⟨[], by simp, by simpa using hq⟩

theorem QueueLedger.congr (ok : QueueLedger v c) (hq : w.que c = v.que c)
    (hc : v.count ≤ w.count) (hp : w.placed c = v.placed c) (he : w.executed c = v.executed c)
    (hd : w.cancelled c = v.cancelled c) : QueueLedger w c where
  once := by
    rw [hp, he, hd, hq]
    exact ok.once
  order := by
    rw [he, hq, hp]
    exact ok.order
  increasing := by
    rw [hp]
    exact ok.increasing
  bound n hn := by
    rw [hp] at hn
    exact Nat.lt_of_lt_of_le (ok.bound n hn) hc

theorem QueueLedger.append (ok : QueueLedger v c) : QueueLedger (v.append d) c := by
  by_cases same : c = d
  · subst same
    refine ⟨?_, ?_, ?_, ?_⟩
    · simp only [Queues.append, PerCore.get_set_self]
      rw [← List.append_assoc]
      exact ok.once.append_right _
    · simp only [Queues.append, PerCore.get_set_self]
      rw [← List.append_assoc]
      exact ok.order.append_right _
    · simp only [Queues.append, PerCore.get_set_self]
      refine List.pairwise_append.2 ⟨ok.increasing, List.pairwise_singleton _ _, ?_⟩
      intro n hn m hm
      rw [List.mem_singleton.1 hm]
      exact ok.bound n hn
    · intro n hn
      simp only [Queues.append, PerCore.get_set_self, List.mem_append, List.mem_singleton] at hn ⊢
      rcases hn with hn | rfl
      · exact Nat.lt_succ_of_lt (ok.bound n hn)
      · exact Nat.lt_succ_self _
  · refine ok.congr ?_ (Nat.le_succ _) ?_ rfl rfl
    · simp [Queues.append, same]
    · simp [Queues.append, same]

/-- An event leaves the queue for the cancelled ones. -/
theorem QueueLedger.cancel {n : Nat} {before after : List Nat} (ok : QueueLedger v c)
    (hq : v.que d = before ++ n :: after) : QueueLedger (v.cancel d n (before ++ after)) c := by
  by_cases same : c = d
  · subst same
    refine ⟨?_, ?_, ok.increasing, ok.bound⟩
    · simp only [Queues.cancel, PerCore.get_set_self]
      refine ok.once.trans ?_
      rw [hq, List.append_assoc, List.append_assoc, List.append_assoc, List.singleton_append]
      exact (List.perm_middle.append_left _).append_left _
    · simp only [Queues.cancel, PerCore.get_set_self]
      refine List.Sublist.trans ?_ ok.order
      rw [hq]
      exact ((List.sublist_cons_self n after).append_left before).append_left _
  · refine ok.congr ?_ (Nat.le_refl _) rfl rfl ?_
    · simp [Queues.cancel, same]
    · simp [Queues.cancel, same]

/-- The first event of the queue is executed. -/
theorem QueueLedger.execute {n : Nat} {rest : List Nat} (ok : QueueLedger v c)
    (hq : v.que d = n :: rest) : QueueLedger (v.execute d n rest) c := by
  by_cases same : c = d
  · subst same
    refine ⟨?_, ?_, ok.increasing, ok.bound⟩
    · simp only [Queues.execute, PerCore.get_set_self]
      refine ok.once.trans ?_
      rw [hq, List.append_assoc, List.append_assoc, List.append_assoc, List.singleton_append]
      exact List.perm_middle.append_left _
    · simp only [Queues.execute, PerCore.get_set_self]
      have horder := ok.order
      rwa [hq, List.append_cons] at horder
  · refine ok.congr ?_ (Nat.le_refl _) rfl ?_ rfl
    · simp [Queues.execute, same]
    · simp [Queues.execute, same]

/-- A core goes on serving its queue while the frames of its stack stay. -/
theorem Queues.Serving.mono (h : v.Serving c) (hp : w.pending c = v.pending c)
    (hst : ∀ f, f ∈ v.stack c → f = .execute ∨ f = .ipi → f ∈ w.stack c) : w.Serving c := by
  rcases h with h | h | h
  · exact .inl (hst _ h (.inl rfl))
  · exact .inr (.inl (hp ▸ h))
  · exact .inr (.inr (hst _ h (.inr rfl)))

theorem mem_push {f g : TimeFrame} (h : g ∈ v.stack c) : g ∈ (v.push d f).stack c := by
  simp only [Queues.push, PerCore.get_set]
  split
  · rename_i same
    exact List.mem_cons_of_mem _ (same ▸ h)
  · exact h

theorem QueueServed.place {self : Core} (ok : QueueServed v c) :
    QueueServed (v.place self d) c := by
  unfold Queues.place Queues.request
  by_cases hact : v.active d = true
  · rw [if_pos (by exact hact)]
    refine ⟨fun hq => ?_, fun ha => ok.serving ha⟩
    by_cases same : c = d
    · rw [same]
      exact hact
    · refine ok.active ?_
      simpa [Queues.append, same] using hq
  · rw [if_neg (by exact hact)]
    by_cases same : c = d
    · subst same
      split
      · rename_i heq
        subst heq
        exact ⟨fun _ => by simp [Queues.push], fun _ => .inl (by simp [Queues.push])⟩
      · exact ⟨fun _ => by simp, fun _ => .inr (.inl (by simp))⟩
    · split
      · rename_i heq
        refine ⟨fun hq => ?_, fun ha => ?_⟩
        · simpa [Queues.push, Queues.append, same] using ok.active
            (by simpa [Queues.push, Queues.append, same] using hq)
        · have hs := ok.serving (by simpa [Queues.push, Queues.append, same] using ha)
          exact hs.mono rfl fun f hf _ => mem_push hf
      · refine ⟨fun hq => ?_, fun ha => ?_⟩
        · simpa [Queues.append, same] using ok.active (by simpa [Queues.append, same] using hq)
        · have hs := ok.serving (by simpa [Queues.append, same] using ha)
          exact hs.mono (by simp [Queues.append, same]) fun f hf _ => hf

theorem QueueOp.ledger (h : QueueOp v w) (ok : QueueLedger v c) : QueueLedger w c := by
  cases h with
  | push d f => exact ok.congr rfl (Nat.le_refl _) rfl rfl rfl
  | pop d f rest hst hf => exact ok.congr rfl (Nat.le_refl _) rfl rfl rfl
  | place self d =>
    have happ := ok.append (d := d)
    unfold Queues.place Queues.request
    split
    · exact happ
    · split
      · exact happ.congr rfl (Nat.le_refl _) rfl rfl rfl
      · exact happ.congr rfl (Nat.le_refl _) rfl rfl rfl
  | cancel d n before after hq => exact ok.cancel hq
  | take d => exact ok.congr rfl (Nat.le_refl _) rfl rfl rfl
  | enter d rest hst => exact ok.congr rfl (Nat.le_refl _) rfl rfl rfl
  | finish d f rest hst hq => exact ok.congr rfl (Nat.le_refl _) rfl rfl rfl

theorem QueueOp.served (h : QueueOp v w) (ok : QueueServed v c) : QueueServed w c := by
  cases h with
  | push d f => exact ⟨ok.active, fun ha => (ok.serving ha).mono rfl fun g hg _ => mem_push hg⟩
  | pop d f rest hst hf =>
    refine ⟨ok.active, fun ha => (ok.serving ha).mono rfl fun g hg hduty => ?_⟩
    simp only [PerCore.get_set]
    split
    · rename_i same
      subst same
      rw [hst, List.mem_cons] at hg
      refine hg.resolve_left ?_
      rintro rfl
      exact hduty.elim hf.2 hf.1
    · exact hg
  | place self d => exact ok.place
  | cancel d n before after hq =>
    refine ⟨fun hne => ok.active ?_, ok.serving⟩
    by_cases same : c = d
    · subst same
      simp [hq]
    · simpa [Queues.cancel, same] using hne
  | take d =>
    refine ⟨ok.active, fun ha => ?_⟩
    by_cases same : c = d
    · subst same
      exact .inr (.inr (by simp [Queues.push]))
    · exact (ok.serving ha).mono (by simp [Queues.push, same]) fun g hg _ => mem_push hg
  | enter d rest hst =>
    refine ⟨ok.active, fun ha => ?_⟩
    by_cases same : c = d
    · subst same
      exact .inl (by simp)
    · exact (ok.serving ha).mono rfl fun g hg _ => by simpa [same] using hg
  | finish d f rest hst hq =>
    by_cases same : c = d
    · subst same
      exact ⟨fun hne => absurd hq hne, fun ha => by simp at ha⟩
    · refine ⟨fun hne => ?_, fun ha => ?_⟩
      · simpa [same] using ok.active hne
      · have hs := ok.serving (by simpa [same] using ha)
        exact hs.mono rfl fun g hg _ => by simpa [same] using hg

theorem QueueOp.later (h : QueueOp v w) : QueueLater v w c := by
  cases h with
  | push d f => exact .of_sublist (List.Sublist.refl _) rfl rfl
  | pop d f rest hst hf => exact .of_sublist (List.Sublist.refl _) rfl rfl
  | place self d =>
    have happ : QueueLater v (v.append d) c := by
      refine ⟨Nat.le_succ _, fun n hn => ?_, [v.count], by simp, ?_⟩
      · simp only [Queues.append, PerCore.get_set]
        split
        · rename_i same
          exact List.mem_append_left _ (same ▸ hn)
        · exact hn
      simp only [Queues.append, PerCore.get_set]
      split
      · rename_i same
        rw [same]
      · exact List.sublist_append_left _ _
    refine happ.trans ?_
    unfold Queues.place Queues.request
    split
    · exact .refl
    · split
      · exact .of_sublist (List.Sublist.refl _) rfl rfl
      · exact .of_sublist (List.Sublist.refl _) rfl rfl
  | cancel d n before after hq =>
    refine .of_sublist ?_ rfl rfl
    simp only [Queues.cancel, PerCore.get_set]
    split
    · rename_i same
      rw [same, hq]
      exact (List.sublist_cons_self n after).append_left before
    · exact List.Sublist.refl _
  | take d => exact .of_sublist (List.Sublist.refl _) rfl rfl
  | enter d rest hst => exact .of_sublist (List.Sublist.refl _) rfl rfl
  | finish d f rest hst hq => exact .of_sublist (List.Sublist.refl _) rfl rfl

theorem QueueOp.executed (h : QueueOp v w) : w.executed = v.executed := by
  cases h with
  | place self d =>
    unfold Queues.place Queues.request
    split
    · rfl
    · split <;> rfl
  | _ => rfl

end

/-! ## The handlers -/

/-- The queues of the two cores in a state of the handlers. -/
def TimeSys.queues (s : TimeSys) : Queues where
  que := .ofFn fun c => (s.rings.que (.handler c)).map s.number
  count := s.count
  placed := s.placed
  executed := s.executed
  cancelled := s.cancelled
  active := s.active
  pending := s.pending
  stack := s.stack

/-- A few operations. -/
abbrev QueueOps : Queues → Queues → Prop := Relation.ReflTransGen QueueOp

section

variable {s t : TimeSys} {h : Hdr} {c self : Core}

@[simp] theorem queues_setCb {cb : HdrCb} : (s.setCb h cb).queues = s.queues := rfl
@[simp] theorem queues_setSta {sta : Bool} : (s.setSta h sta).queues = s.queues := rfl
@[simp] theorem queues_setTime {time : ABSTIM} : (s.setTime h time).queues = s.queues := rfl
@[simp] theorem queues_note {e : TimeLog} : (s.note e).queues = s.queues := rfl
@[simp] theorem queues_release : (s.release h).queues = s.queues := rfl

/-- The timer queue is none of them. -/
theorem queues_congr (hq : ∀ c, t.rings.que (.handler c) = s.rings.que (.handler c))
    (hrest : { t with rings := s.rings }.queues = s.queues) : t.queues = s.queues := by
  rw [← hrest]
  simp only [TimeSys.queues, hq]

theorem queueOps_of_eq (heq : t.queues = s.queues) : QueueOps s.queues t.queues := by
  rw [heq]

theorem queues_knlEnqueueTmeb (hfree : s.rings.Free h) :
    (s.knlEnqueueTmeb h).queues = s.queues := by
  refine queues_congr (fun c => ?_) rfl
  simp only [TimeSys.knlEnqueueTmeb, Rings.insertBefore]
  rw [Rings.que_insertAt hfree]
  exact Function.update_of_ne (by simp) _ _

theorem queues_knlTimerInsertAbs {time : ABSTIM} {callback : Cback} (hfree : s.rings.Free h) :
    (s.knlTimerInsertAbs h time callback).queues = s.queues :=
  queues_knlEnqueueTmeb (s := s.setCb h { s.cb h with time, callback }) hfree

theorem queueOps_knlTimerDelete {q : TimeQue} (wf : s.rings.WF) (hl : s.rings.link h = .member q) :
    QueueOps s.queues (s.knlTimerDelete h).queues := by
  have hque := Rings.que_remove_of_member hl
  unfold TimeSys.knlTimerDelete
  rw [hl]
  cases q with
  | timer =>
    refine queueOps_of_eq (queues_congr (fun c => ?_) rfl)
    simp only [hque]
    exact Function.update_of_ne (by simp) _ _
  | handler c =>
    obtain ⟨before, after, -, hmem, herase⟩ :=
      List.exists_erase_eq ((wf.mem_iff h (.handler c)).2 hl)
    have hop := QueueOp.cancel (v := s.queues) c (s.number h) (before.map s.number)
      (after.map s.number) (by simp [TimeSys.queues, hmem])
    refine .single ?_
    convert hop using 1
    simp only [TimeSys.queues, Queues.cancel, hque, Queues.mk.injEq, and_true]
    refine PerCore.ext_get fun d => ?_
    by_cases same : d = c
    · subst same
      simp [herase]
    · simp [same]

theorem queueOps_cancel (inv : LinkInv none s) (hreg : (s.cb h).hdr ≠ none) :
    QueueOps s.queues (s.cancel h).queues := by
  unfold TimeSys.cancel
  split
  · rename_i hsta
    obtain ⟨q, hl⟩ := (inv.linked h (by simp) hreg).1 hsta
    exact queueOps_knlTimerDelete inv.wf hl
  · exact .refl

theorem queues_knlCallCychdr (hfree : s.rings.Free h) :
    (s.knlCallCychdr self h).queues = s.queues.push self (.body h) := by
  have hins : (s.knlCycTimerInsert h (s.knlCycNextTime h)).queues = s.queues :=
    queues_knlTimerInsertAbs hfree
  rw [← hins]
  rfl

theorem queues_knlCallAlmhdr :
    (s.knlCallAlmhdr self h).queues = s.queues.push self (.body h) := rfl

theorem queues_request (s : TimeSys) :
    (if s.active c then s
      else if c = self then ({ s with active := s.active.set c true } : TimeSys).push self .execute
      else { s with active := s.active.set c true, pending := s.pending.set c true }).queues =
      s.queues.request self c := by
  unfold Queues.request
  by_cases hact : s.active c = true
  · have hq : s.queues.active c = true := hact
    rw [if_pos hact, if_pos hq]
  · have hq : ¬ s.queues.active c = true := hact
    rw [if_neg hact, if_neg hq]
    split <;> rfl

/-- An event that is in no queue is placed. -/
theorem queues_knlEnqueueTimehandler {callback : Cback} (wf : s.rings.WF)
    (hfree : s.rings.Free h) :
    (s.knlEnqueueTimehandler self c h callback).queues = s.queues.place self c := by
  have hque : PerCore.ofFn (fun d => ((s.rings.insertLast (.handler c) h).que (.handler d)).map
      (Function.update s.number h s.count)) = s.queues.que.set c (s.queues.que c ++ [s.count]) := by
    have hout : ∀ d, (s.rings.que (.handler d)).map (Function.update s.number h s.count) =
        (s.rings.que (.handler d)).map s.number := by
      intro d
      refine List.map_congr_left fun y hy => Function.update_of_ne ?_ _ _
      rintro rfl
      exact hfree _ ((wf.mem_iff y _).1 hy)
    refine PerCore.ext_get fun d => ?_
    unfold Rings.insertLast
    rw [PerCore.get_ofFn, Rings.que_insertAt hfree]
    by_cases same : d = c
    · subst same
      simp [TimeSys.queues, hout]
    · simp [TimeSys.queues, hout, same]
  have happ : ({ s with
      rings := s.rings.insertLast (.handler c) h
      count := s.count + 1
      number := Function.update s.number h s.count
      placed := s.placed.set c (s.placed c ++ [s.count]) } : TimeSys).queues =
      s.queues.append c := by
    simp only [TimeSys.queues, Queues.append] at hque ⊢
    rw [hque]
  unfold Queues.place
  rw [← happ]
  exact queues_request _

theorem queueOps_knlImmediateCallCychdr (wf : s.rings.WF) (hfree : s.rings.Free h) :
    QueueOps s.queues (s.knlImmediateCallCychdr self h).queues := by
  unfold TimeSys.knlImmediateCallCychdr
  dsimp only
  split
  · rw [queues_knlEnqueueTimehandler wf hfree]
    exact .single (.place ..)
  · rw [queues_knlCallCychdr hfree]
    exact .single (.push ..)

theorem queueOps_knlImmediateCallAlmhdr (wf : s.rings.WF) (hfree : s.rings.Free h) :
    QueueOps s.queues (s.knlImmediateCallAlmhdr self h).queues := by
  unfold TimeSys.knlImmediateCallAlmhdr
  dsimp only
  split
  · rw [queues_knlEnqueueTimehandler (s := (s.setSta h false).setSta h true) wf hfree]
    exact .single (.place ..)
  · rw [queues_knlCallAlmhdr]
    exact .single (.push ..)

/-! ## Calls -/

theorem queueOps_withHdr {num id : Nat} {kind : HdrKind} {f : Hdr → TimeSys}
    (hf : ∀ h, (s.cb h).hdr ≠ none → QueueOps s.queues (f h).queues) :
    QueueOps s.queues (s.withHdr num kind id f).2.queues :=
  withHdr_ind (P := fun t => QueueOps s.queues t.queues) .refl hf

theorem queueOps_create {kind : HdrKind} {g : HdrCb → HdrCb} {f : TimeSys → Hdr → TimeSys}
    (inv : LinkInv none s)
    (hf : ∀ t h, t.rings = s.rings → t.rings.Free h → QueueOps t.queues (f t h).queues) :
    QueueOps s.queues (s.create kind g f).2.queues := by
  unfold TimeSys.create
  cases hpool : s.free kind with
  | nil => exact .refl
  | cons i rest =>
    have hnone := inv.pool kind i (by simp [hpool])
    have hfree := inv.unregistered ⟨kind, i⟩ (by simp) hnone
    dsimp only
    exact hf { s.setCb ⟨kind, i⟩ (g (s.cb ⟨kind, i⟩)) with
      free := Function.update s.free kind rest
      life := Function.update s.life ⟨kind, i⟩ (s.life ⟨kind, i⟩ + 1) } ⟨kind, i⟩ rfl hfree

theorem queueOps_tkCreCyc {pk : Ccyc} (inv : LinkInv none s) :
    QueueOps s.queues (s.tkCreCyc self pk).2.queues := by
  unfold TimeSys.tkCreCyc
  split
  · exact .refl
  · refine queueOps_create inv fun t h hr hfree => ?_
    have wf := inv.wf
    rw [← hr] at wf
    dsimp only
    split
    · split
      · exact queueOps_knlImmediateCallCychdr (s := (t.note _).setTime h _) wf hfree
      · exact queueOps_of_eq (queues_knlTimerInsertAbs (s := t.note _) hfree)
    · exact .refl

theorem queueOps_tkStaCyc {k : TimeCfg} {cycid : Nat} (inv : LinkInv none s) :
    QueueOps s.queues (s.tkStaCyc k cycid).2.queues := by
  refine queueOps_withHdr fun h hreg => ?_
  dsimp only
  rw [queues_note, queues_setSta]
  split
  · split
    · rename_i hsta
      have hfree : s.rings.Free h := fun q hl => by
        have hs := (inv.linked h (by simp) hreg).2 ⟨q, hl⟩
        simp [hs] at hsta
      exact queueOps_of_eq (queues_knlTimerInsertAbs hfree)
    · exact .refl
  · have hfree := (inv.cancel hreg).transit h rfl
    exact (queueOps_cancel inv hreg).trans (queueOps_of_eq (queues_knlTimerInsertAbs hfree))

theorem queueOps_tkStaAlm {k : TimeCfg} {almid : Nat} {almtim : ABSTIM} (inv : LinkInv none s) :
    QueueOps s.queues (s.tkStaAlm k self almid almtim).2.queues := by
  unfold TimeSys.tkStaAlm
  split
  · exact .refl
  split
  · exact .refl
  refine queueOps_withHdr fun h hreg => ?_
  have hopen := inv.cancel hreg
  have hfree := hopen.transit h rfl
  refine (queueOps_cancel inv hreg).trans ?_
  dsimp only
  split
  · exact queueOps_of_eq (queues_knlTimerInsertAbs (s := (s.cancel h).note _) hfree)
  · exact queueOps_knlImmediateCallAlmhdr (s := (s.cancel h).note _) hopen.wf hfree

theorem queueOps_tkCreAlm {pk : Calm} (inv : LinkInv none s) :
    QueueOps s.queues (s.tkCreAlm pk).2.queues := by
  unfold TimeSys.tkCreAlm
  split
  · exact .refl
  · exact queueOps_create inv fun t h _ _ => .refl

theorem queueOps_call {k : TimeCfg} (inv : LinkInv none s) (a : TimeCall) :
    QueueOps s.queues (s.call k self a).queues := by
  cases a with
  | tkCreCyc pk => exact queueOps_tkCreCyc inv
  | tkDelCyc cycid => exact queueOps_withHdr fun h hreg => queueOps_cancel inv hreg
  | tkStaCyc cycid => exact queueOps_tkStaCyc inv
  | tkStpCyc cycid => exact queueOps_withHdr fun h hreg => queueOps_cancel inv hreg
  | tkCreAlm pk => exact queueOps_tkCreAlm inv
  | tkDelAlm almid => exact queueOps_withHdr fun h hreg => queueOps_cancel inv hreg
  | tkStaAlm almid almtim => exact queueOps_tkStaAlm inv
  | tkStpAlm almid => exact queueOps_withHdr fun h hreg => queueOps_cancel inv hreg

/-! ## Steps -/

/-- Event `e` executes the first event of the queue of core `c`: its callback is begun there. -/
structure TimeSys.Executes (s t : TimeSys) (e : TimeEvent) (c : Core) (h : Hdr) : Prop where
  round : e = .executeRound c
  head : (s.rings.que (.handler c)).head? = some h
  queues : t.queues =
    (s.queues.execute c (s.number h) (s.queues.que c).tail).push c (.body h)

theorem executes_knlTimehandlerExecute {rest : List Hdr} (inv : LinkInv none s)
    (hq : s.rings.que (.handler c) = h :: rest) :
    s.Executes (s.knlTimehandlerExecute c) (.executeRound c) c h := by
  obtain ⟨hl, hreg, hsta⟩ := inv.head hq
  refine ⟨rfl, by rw [hq]; rfl, ?_⟩
  have hcb : (s.cb h).callback = .call := inv.callback h _ hl
  have hque := Rings.que_remove_of_member hl
  have hexec : ({ s with
      rings := s.rings.remove h
      executed := s.executed.set c (s.executed c ++ [s.number h]) } : TimeSys).queues =
      s.queues.execute c (s.number h) (s.queues.que c).tail := by
    simp only [TimeSys.queues, Queues.execute, Queues.mk.injEq, and_true]
    refine PerCore.ext_get fun d => ?_
    by_cases same : d = c
    · subst same
      simp [hque, hq]
    · simp [hque, same]
  unfold TimeSys.knlTimehandlerExecute
  rw [hq]
  dsimp only
  unfold TimeSys.runCallback
  rw [← hexec]
  dsimp only
  rw [hcb]
  cases h.kind with
  | cyc => exact queues_knlCallCychdr Rings.free_remove
  | alm => exact queues_knlCallAlmhdr

theorem queueOps_knlTimerHandler {cur : ABSTIM} {rest : List TimeFrame} (inv : LinkInv none s)
    (hst : s.stack .core0 = .tick cur :: rest) :
    QueueOps s.queues (s.knlTimerHandler cur).queues := by
  have hpop : QueueOps s.queues (s.pop .core0).queues := by
    have hop := QueueOp.pop (v := s.queues) .core0 (.tick cur) rest hst ⟨by simp, by simp⟩
    refine .single ?_
    convert hop using 1
    simp [TimeSys.pop, TimeSys.queues, hst]
  unfold TimeSys.knlTimerHandler
  split
  · exact hpop
  · rename_i event after hq
    split
    · exact hpop
    · obtain ⟨hl, hreg, hsta⟩ := inv.head hq
      have hcb : (s.cb event).callback = .distribute := inv.callback event _ hl
      have hout := inv.unlink hl
      have hsame : ({ s with rings := s.rings.remove event } : TimeSys).queues = s.queues := by
        refine queues_congr (fun c => ?_) rfl
        simp only [Rings.que_remove_of_member hl]
        exact Function.update_of_ne (by simp) _ _
      unfold TimeSys.runCallback
      dsimp only
      rw [hcb]
      dsimp only
      unfold TimeSys.knlDistribute
      rw [queues_knlEnqueueTimehandler hout.wf (hout.transit _ rfl), hsame]
      exact .single (.place ..)

/-- What a step does to the queues: it executes an event, or works on them, and a round of the
loop of a core that does the latter finds its queue empty. -/
theorem queues_step {k : TimeCfg} {e : TimeEvent} (inv : LinkInv none s)
    (hs : s.step k e = some t) :
    (∃ c h, s.Executes t e c h) ∨
      (QueueOps s.queues t.queues ∧ ∀ c, e = .executeRound c → s.rings.que (.handler c) = []) := by
  rcases timeStep_cases hs with ⟨rfl, -, rfl⟩ | ⟨cur, rest, rfl, hst, rfl⟩ | ⟨c, rfl, hp, -, rfl⟩ |
    ⟨c, rest, rfl, hst, -, rfl⟩ | ⟨c, rest, rfl, hst, rfl⟩ | ⟨c, h, rest, rfl, hst, -, rfl⟩ |
    ⟨c, a, rfl, -, -, rfl⟩
  · exact .inr ⟨.single (QueueOp.push (v := s.queues) .core0 (.tick _)), by simp⟩
  · exact .inr ⟨queueOps_knlTimerHandler inv hst, by simp⟩
  · exact .inr ⟨.single (.take ..), by simp⟩
  · refine .inr ⟨.single ?_, by simp⟩
    have hop := QueueOp.enter (v := s.queues) c rest hst
    convert hop using 1
    simp [TimeSys.pop, TimeSys.push, TimeSys.queues, hst]
  · cases hq : s.rings.que (.handler c) with
    | nil =>
      refine .inr ⟨.single ?_, fun d hd => ?_⟩
      · have hop := QueueOp.finish (v := s.queues) c .execute rest hst
          (by simp [TimeSys.queues, hq])
        convert hop using 1
        simp [TimeSys.knlTimehandlerExecute, TimeSys.pop, TimeSys.queues, hq, hst]
      · cases hd
        exact hq
    | cons h rest => exact .inl ⟨c, h, executes_knlTimehandlerExecute inv hq⟩
  · refine .inr ⟨.single ?_, by simp⟩
    have hop := QueueOp.pop (v := s.queues) c (.body h) rest hst ⟨by simp, by simp⟩
    convert hop using 1
    simp [TimeSys.pop, TimeSys.queues, hst]
  · exact .inr ⟨queueOps_call inv a, by simp⟩

end

end Mtk3Smp
