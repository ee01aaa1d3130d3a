import Mtk3Smp.Time.TimerQueue

/-!
# Order of the timer queue

The wrapped offsets of `knl_enqueue_tmeb` order two events as their expiries do when both lie
at most 2 ^ 31 ms ahead, or both lie further ahead, and `knl_abstim_reached` is right about an
event of the first kind. A timeout of 0x7FFFFFF7 or more lies further ahead, by the tick that is
added to it.
-/

namespace Mtk3Smp

open WrapClock

namespace TimerQue

variable {E : Type} {s t : TimerQue E} {event : E}

/-- An event due at `due` lies on the same side of 2 ^ 31 ms ahead as those on the queue. -/
def Comparable (s : TimerQue E) (due : Nat) : Prop :=
  ∀ q ∈ s.queue, due ≤ s.now + 2 ^ 31 ↔ s.due q ≤ s.now + 2 ^ 31

/-- No event is compared across 2 ^ 31 ms ahead, or tested from beyond it. -/
def InWindow (s : TimerQue E) : TimerEvent E → Prop
  | .insert _ tmout =>
    tmout ≠ TMO_FEVR → s.Comparable (s.now + tmout.toNatClampNeg + TIMER_PERIOD.toNat)
  | .insertReltim _ tmout => s.Comparable (s.now + tmout.toNat + TIMER_PERIOD.toNat)
  | .insertAbs _ time => s.Comparable (s.now + (time - s.curTime).toNat)
  | .round => ∀ q ∈ s.queue.head?, s.due q ≤ s.now + 2 ^ 31
  | .delete _ | .tick _ => True

instance (due : Nat) : Decidable (s.Comparable due) :=
  inferInstanceAs (Decidable (∀ q ∈ s.queue, due ≤ s.now + 2 ^ 31 ↔ s.due q ≤ s.now + 2 ^ 31))

instance : DecidablePred s.InWindow
  | .insert _ tmout =>
    inferInstanceAs (Decidable (tmout ≠ TMO_FEVR →
      s.Comparable (s.now + tmout.toNatClampNeg + TIMER_PERIOD.toNat)))
  | .insertReltim _ tmout =>
    inferInstanceAs (Decidable (s.Comparable (s.now + tmout.toNat + TIMER_PERIOD.toNat)))
  | .insertAbs _ time =>
    inferInstanceAs (Decidable (s.Comparable (s.now + (time - s.curTime).toNat)))
  | .round => inferInstanceAs (Decidable (∀ q ∈ s.queue.head?, s.due q ≤ s.now + 2 ^ 31))
  | .delete _ | .tick _ => inferInstanceAs (Decidable True)

/-- The queue is in the order of the expiries, and every callback was called at the expiry or
within the tick after it. -/
structure InTime (s : TimerQue E) : Prop where
  sorted : KeyOrder.Sorted s.due s.queue
  onTime : ∀ f ∈ s.fired, f.due ≤ f.called ∧ f.called ≤ f.due + TIMER_PERIOD.toNat

/-- What the times of the queued events are between the steps. -/
structure TimerOk (s : TimerQue E) : Prop extends InTime s where
  current : s.currentTime = UInt64.ofNat s.now
  time : ∀ q ∈ s.queue, s.time q = clock (s.due q)
  ahead : ∀ q ∈ s.queue, s.due q < s.now + 2 ^ 32
  late : ∀ q ∈ s.queue, s.now ≤ s.due q + TIMER_PERIOD.toNat
  /-- outside the loop no expiry has passed -/
  idle : s.cur = none → ∀ q ∈ s.queue, s.now ≤ s.due q
  cur : ∀ c, s.cur = some c → c = clock s.now

theorem toNat_TIMER_PERIOD : TIMER_PERIOD.toNat = 10 := rfl

theorem clock_TIMER_PERIOD : clock TIMER_PERIOD.toNat = TIMER_PERIOD := rfl

theorem curTime_eq (h : s.currentTime = UInt64.ofNat s.now) : s.curTime = clock s.now := by
  unfold curTime clock
  rw [h]
  exact UInt64.toUInt32_ofNat' ..

/-! ## The wrapped offsets -/

/-- The offset of `knl_enqueue_tmeb`: it wraps beyond 2 ^ 31 ms ahead. -/
theorem offset_eq {now due : Nat} (hlate : now ≤ due + 10) (hahead : due < now + 2 ^ 32) :
    (clock due - (clock now - ABSTIM_DIFF_MIN)).toNat =
      if due ≤ now + 2 ^ 31 then due + 0x7FFFFFFF - now else due - now - 2 ^ 31 - 1 := by
  rw [UInt32.toNat_sub, UInt32.toNat_sub, toNat_clock, toNat_clock]
  have hmin : ABSTIM_DIFF_MIN.toNat = 0x7FFFFFFF := rfl
  rw [hmin]
  split <;> omega

/-- `knl_abstim_reached` -/
theorem knlAbstimReached_iff {now due : Nat} (hlate : now ≤ due + 10)
    (hahead : due < now + 2 ^ 32) :
    knlAbstimReached (clock now) (clock due) = true ↔ due ≤ now ∨ now + 2 ^ 31 < due := by
  have hmin : ABSTIM_DIFF_MIN.toNat = 0x7FFFFFFF := rfl
  rw [knlAbstimReached, decide_eq_true_iff, UInt32.le_iff_toNat_le, toNat_clock_sub, hmin]
  omega

/-- The code puts a comparable event where its expiry belongs. -/
theorem queue_knlEnqueueTmeb (hc : s.curTime = clock s.now)
    (ht : s.time event = clock (s.due event)) (hq : ∀ q ∈ s.queue, s.time q = clock (s.due q))
    (hlate : ∀ q ∈ event :: s.queue, s.now ≤ s.due q + 10)
    (hahead : ∀ q ∈ event :: s.queue, s.due q < s.now + 2 ^ 32)
    (hcmp : s.Comparable (s.due event)) :
    (s.knlEnqueueTmeb event).queue = KeyOrder.insert s.due event s.queue := by
  apply KeyOrder.insert_congr_lt
  intro q hmem
  have hx := offset_eq (hlate event List.mem_cons_self) (hahead event List.mem_cons_self)
  have hy := offset_eq (hlate q (List.mem_cons_of_mem _ hmem))
    (hahead q (List.mem_cons_of_mem _ hmem))
  have hside := hcmp q hmem
  have hle := hlate event List.mem_cons_self
  have hle' := hlate q (List.mem_cons_of_mem _ hmem)
  show (s.time event - (s.curTime - ABSTIM_DIFF_MIN)).toNat <
    (s.time q - (s.curTime - ABSTIM_DIFF_MIN)).toNat ↔ _
  rw [hc, ht, hq q hmem, hx, hy]
  by_cases hnear : s.due event ≤ s.now + 2 ^ 31
  · have hnear' := hside.1 hnear
    rw [if_pos hnear, if_pos hnear']
    omega
  · have hfar' : ¬ s.due q ≤ s.now + 2 ^ 31 := fun h => hnear (hside.2 h)
    rw [if_neg hnear, if_neg hfar']
    omega

/-! ## Steps -/

theorem timerOk_of_started (h : s.Started) : TimerOk s := by
  obtain ⟨hnow, hq, hc, hf⟩ := h
  constructor
  case toInTime => exact ⟨by rw [hq]; exact List.Pairwise.nil, by simp [hf]⟩
  case current => exact hnow
  all_goals simp [hq, hc]

/-- Some events leave the queue; `fired` may grow by one that was called on time. -/
theorem TimerOk.shrink (h : TimerOk s) {queue : List E} {fired : List (Firing E)}
    (hq : queue.Sublist s.queue)
    (hf : ∀ f ∈ fired, f.due ≤ f.called ∧ f.called ≤ f.due + TIMER_PERIOD.toNat) :
    TimerOk { s with queue, fired } where
  sorted := h.sorted.sublist hq
  onTime := hf
  current := h.current
  time := fun q hmem => h.time q (hq.subset hmem)
  ahead := fun q hmem => h.ahead q (hq.subset hmem)
  late := fun q hmem => h.late q (hq.subset hmem)
  idle := fun hc q hmem => h.idle hc q (hq.subset hmem)
  cur := h.cur

theorem TimerOk.tick (h : TimerOk s) (hcur : s.cur = none) (core : Core) :
    TimerOk (s.knlTimerHandler core) := by
  unfold knlTimerHandler
  split
  · exact h
  · have hnow : s.currentTime + TIMER_PERIOD.toUInt64 =
        UInt64.ofNat (s.now + TIMER_PERIOD.toNat) := by
      rw [h.current, UInt64.ofNat_add]
      rfl
    constructor
    case toInTime => exact ⟨h.sorted, h.onTime⟩
    case current => exact hnow
    case time => exact h.time
    case ahead =>
      intro q hq
      have := h.ahead q hq
      show s.due q < s.now + TIMER_PERIOD.toNat + 2 ^ 32
      omega
    case late =>
      intro q hq
      have := h.idle hcur q hq
      show s.now + TIMER_PERIOD.toNat ≤ s.due q + TIMER_PERIOD.toNat
      omega
    case idle => exact fun hc => by cases hc
    case cur =>
      intro c hc
      obtain rfl := Option.some.inj hc
      exact curTime_eq hnow

/-- What a round does to an event at the head: it is due and called, or none is due and the
loop ends. -/
theorem TimerOk.round_cases (h : TimerOk s) {c : ABSTIM} (hc : s.cur = some c)
    (hwin : ∀ q ∈ s.queue.head?, s.due q ≤ s.now + 2 ^ 31) :
    (s.round c = { s with cur := none } ∧ ∀ q ∈ s.queue, s.now < s.due q) ∨
    ∃ e rest, s.queue = e :: rest ∧ s.due e ≤ s.now ∧
      s.round c = { s with queue := rest, fired := ⟨e, s.due e, s.now⟩ :: s.fired } := by
  obtain rfl := h.cur c hc
  unfold round
  cases hq : s.queue with
  | nil => exact .inl ⟨rfl, by simp⟩
  | cons e rest =>
    have hmem : e ∈ s.queue := hq ▸ List.mem_cons_self
    have hnear := hwin e (by rw [hq]; rfl)
    have hiff := knlAbstimReached_iff (h.late e hmem) (h.ahead e hmem)
    rw [← h.time e hmem] at hiff
    by_cases hdue : s.due e ≤ s.now
    · refine .inr ⟨e, rest, rfl, hdue, ?_⟩
      have hr := hiff.2 (.inl hdue)
      simp only [hr, Bool.not_true, Bool.false_eq_true, if_false]
    · have hr : knlAbstimReached (clock s.now) (s.time e) = false := by
        apply Bool.eq_false_iff.2
        intro hr
        rcases hiff.1 hr with hle | hfar
        · exact hdue hle
        · omega
      refine .inl ⟨by simp only [hr, Bool.not_false, if_true], ?_⟩
      -- the others expire no sooner than the head
      intro q hqm
      have hsorted := h.sorted
      rw [hq] at hsorted
      rcases List.mem_cons.1 hqm with rfl | hqm
      · omega
      · have := (List.pairwise_cons.1 hsorted).1 q hqm
        omega

theorem TimerOk.round (h : TimerOk s) {c : ABSTIM} (hc : s.cur = some c)
    (hwin : ∀ q ∈ s.queue.head?, s.due q ≤ s.now + 2 ^ 31) : TimerOk (s.round c) := by
  rcases h.round_cases hc hwin with ⟨heq, hall⟩ | ⟨e, rest, hq, hdue, heq⟩
  · rw [heq]
    refine { h with idle := fun _ q hmem => (hall q hmem).le, cur := fun c hc => by cases hc }
  · rw [heq]
    refine h.shrink (by rw [hq]; exact List.sublist_cons_self e rest) ?_
    intro f hf
    rcases List.mem_cons.1 hf with rfl | hf
    · exact ⟨hdue, h.late e (hq ▸ List.mem_cons_self)⟩
    · exact h.onTime f hf

/-- The time of a relative timeout. -/
theorem clock_timeout (h : TimerOk s) (d : Nat) :
    s.curTime + clock d + TIMER_PERIOD = clock (s.now + d + TIMER_PERIOD.toNat) := by
  rw [curTime_eq h.current, clock_add, clock_add, clock_TIMER_PERIOD]

variable [DecidableEq E]

/-- An event off the queue is given its time and put on the queue. -/
theorem TimerOk.enqueue (h : TimerOk s) (hnew : event ∉ s.queue) {time : ABSTIM} {due : Nat}
    (ht : time = clock due) (hnow : s.now ≤ due) (hahead : due < s.now + 2 ^ 32)
    (hcmp : s.Comparable due) : TimerOk ((s.setTime event time due).knlEnqueueTmeb event) := by
  have hself : (s.setTime event time due).due event = due := Function.update_self ..
  have htime : (s.setTime event time due).time event = time := Function.update_self ..
  have hdue : ∀ q ∈ s.queue, (s.setTime event time due).due q = s.due q := fun q hq =>
    Function.update_of_ne (by rintro rfl; exact hnew hq) _ _
  have htimes : ∀ q ∈ s.queue, (s.setTime event time due).time q = s.time q := fun q hq =>
    Function.update_of_ne (by rintro rfl; exact hnew hq) _ _
  have hclock : (s.setTime event time due).time event =
      clock ((s.setTime event time due).due event) := by rw [hself, htime, ht]
  have hclocks : ∀ q ∈ s.queue, (s.setTime event time due).time q =
      clock ((s.setTime event time due).due q) := fun q hq => by
    rw [hdue q hq, htimes q hq, h.time q hq]
  have hall : ∀ q ∈ event :: s.queue, s.now ≤ (s.setTime event time due).due q + 10 ∧
      (s.setTime event time due).due q < s.now + 2 ^ 32 := by
    intro q hq
    rcases List.mem_cons.1 hq with rfl | hq
    · rw [hself]
      exact ⟨by omega, hahead⟩
    · rw [hdue q hq]
      exact ⟨h.late q hq, h.ahead q hq⟩
  have hcmp' : (s.setTime event time due).Comparable
      ((s.setTime event time due).due event) := by
    intro q hq
    rw [hself, hdue q hq]
    exact hcmp q hq
  have hqueue := queue_knlEnqueueTmeb (s := s.setTime event time due) (curTime_eq h.current)
    hclock hclocks (fun q hq => (hall q hq).1) (fun q hq => (hall q hq).2) hcmp'
  have hmem : ∀ q ∈ ((s.setTime event time due).knlEnqueueTmeb event).queue,
      q = event ∨ q ∈ s.queue := fun q hq => KeyOrder.mem_insert.1 hq
  constructor
  case toInTime =>
    refine ⟨?_, h.onTime⟩
    rw [hqueue]
    exact KeyOrder.Sorted.insert (h.sorted.congr hdue) event
  case current => exact h.current
  case time =>
    intro q hq
    rcases hmem q hq with rfl | hq
    · exact hclock
    · exact hclocks q hq
  case ahead =>
    intro q hq
    exact (hall q (List.mem_cons.2 (hmem q hq))).2
  case late =>
    intro q hq
    exact (hall q (List.mem_cons.2 (hmem q hq))).1
  case idle =>
    intro hc q hq
    show s.now ≤ (s.setTime event time due).due q
    rcases hmem q hq with rfl | hq
    · rw [hself]
      exact hnow
    · rw [hdue q hq]
      exact h.idle hc q hq
  case cur => exact h.cur

theorem TimerOk.step (h : TimerOk s) {e : TimerEvent E} (hwin : s.InWindow e)
    (hs : s.step e = some t) : TimerOk t := by
  have hten := toNat_TIMER_PERIOD
  cases e with
  | insert event tmout =>
    simp only [TimerQue.step] at hs
    split at hs
    next hok =>
      obtain rfl := Option.some.inj hs
      unfold knlTimerInsert
      split
      next => exact h
      next hne =>
        have hpos : 0 ≤ tmout := by
          have hge : -1 ≤ tmout.toInt := Int32.le_iff_toInt_le.1 hok.2
          have hne' : tmout.toInt ≠ -1 := fun he => hne (Int32.toInt_inj.1 he)
          apply Int32.le_iff_toInt_le.2
          show 0 ≤ tmout.toInt
          omega
        have hnat := Int32.toNat_toUInt32_of_le hpos
        have hlt : tmout.toNatClampNeg < 2 ^ 31 := tmout.toNatClampNeg_lt
        have hclock : tmout.toUInt32 = clock tmout.toNatClampNeg := by
          rw [← hnat, clock_toNat]
        refine h.enqueue hok.1 ?_ (by omega) (by omega) (hwin hne)
        rw [hclock]
        exact clock_timeout h _
    next => cases hs
  | insertReltim event tmout =>
    simp only [TimerQue.step] at hs
    split at hs
    next hok =>
      obtain rfl := Option.some.inj hs
      have hlt : tmout.toNat < 2 ^ 31 :=
        UInt32.lt_iff_toNat_lt.1 (of_decide_eq_true hok.2)
      refine h.enqueue hok.1 ?_ (by omega) (by omega) hwin
      rw [← clock_timeout h, clock_toNat]
    next => cases hs
  | insertAbs event time =>
    simp only [TimerQue.step] at hs
    split at hs
    next hok =>
      obtain rfl := Option.some.inj hs
      have hlt := (time - s.curTime).toNat_lt
      refine h.enqueue hok ?_ (by omega) (by omega) hwin
      rw [curTime_eq h.current, clock_ahead]
    next => cases hs
  | delete event =>
    obtain rfl := Option.some.inj hs
    exact h.shrink List.erase_sublist h.onTime
  | tick core =>
    simp only [TimerQue.step] at hs
    split at hs
    next hc =>
      obtain rfl := Option.some.inj hs
      exact h.tick hc core
    next => cases hs
  | round =>
    obtain ⟨c, hc, rfl⟩ := Option.map_eq_some_iff.1 hs
    exact h.round hc hwin

theorem timerOk_of_reachable (reach : (timerMachine E).ReachableIf InWindow s) : TimerOk s :=
  reach.invariant TimerOk (fun _ h => timerOk_of_started h) fun _ _ _ h hwin hs => h.step hwin hs

/-! ## The order of the queue -/

/-- While no event is compared across 2 ^ 31 ms ahead, the queue is in the order of the
expiries, nothing is called early or a tick late, and a round calls the head exactly when it is
due and otherwise leaves none that is due. -/
theorem timer_queue_in_time (reach : (timerMachine E).ReachableIf InWindow s) :
    InTime s ∧ ∀ t, s.InWindow .round → s.step .round = some t →
      (t = { s with cur := none } ∧ ∀ q ∈ s.queue, s.now < s.due q) ∨
      ∃ e rest, s.queue = e :: rest ∧ s.due e ≤ s.now ∧
        t = { s with queue := rest, fired := ⟨e, s.due e, s.now⟩ :: s.fired } := by
  have h := timerOk_of_reachable reach
  refine ⟨h.toInTime, fun t hwin hs => ?_⟩
  obtain ⟨c, hc, rfl⟩ := Option.map_eq_some_iff.1 hs
  exact h.round_cases hc hwin

/-- An event with the longest timeout goes in front of one with the shortest, which is due with
the second tick and then waits behind it. -/
theorem timer_queue_out_of_order :
    ∃ t : TimerQue Nat, (timerMachine Nat).Reachable t ∧ ¬ KeyOrder.Sorted t.due t.queue ∧
      t.cur = some 20 ∧ t.queue = [1, 0] ∧ t.due 0 = 11 ∧ t.now = 20 ∧ t.due 1 = 0x80000009 ∧
      ∃ u, t.step .round = some u ∧ u.queue = [1, 0] ∧ u.cur = none := by
  let s₀ : TimerQue Nat := ⟨0, [], fun _ => 0, none, 0, fun _ => 0, []⟩
  let p : TimerQue Nat → Bool := fun t =>
    t.cur = some 20 ∧ t.queue = [1, 0] ∧ t.due 0 = 11 ∧ t.now = 20 ∧ t.due 1 = 0x80000009 ∧
      (t.step .round).any fun u => u.queue = [1, 0] ∧ u.cur = none
  obtain ⟨t, reach, hp⟩ := Lts.reachable_of_trace (L := timerMachine Nat) (p := p) (s := s₀)
    [.insert 0 1, .insert 1 0x7FFFFFFF, .tick .core0, .round, .tick .core0] ⟨rfl, rfl, rfl, rfl⟩
    (by decide)
  obtain ⟨hcur, hq, h0, hnow, h1, hu⟩ := of_decide_eq_true hp
  obtain ⟨u, hs, hu⟩ := (Option.any_eq_true ..).1 hu
  refine ⟨t, reach, ?_, hcur, hq, h0, hnow, h1, u, hs, of_decide_eq_true hu⟩
  intro hsorted
  have hle := (List.pairwise_cons.1 (hq ▸ hsorted)).1 0 List.mem_cons_self
  omega

/-- Two events in their window, and the tick at which the second one is called. -/
theorem timer_queue_in_time_run :
    ∃ t : TimerQue Nat, (t.fired = [⟨1, 11, 20⟩] ∧ t.queue = [0]) ∧ InTime t ∧ ∀ u,
      t.InWindow .round → t.step .round = some u →
        (u = { t with cur := none } ∧ ∀ q ∈ t.queue, t.now < t.due q) ∨
        ∃ e rest, t.queue = e :: rest ∧ t.due e ≤ t.now ∧
          u = { t with queue := rest, fired := ⟨e, t.due e, t.now⟩ :: t.fired } := by
  let s₀ : TimerQue Nat := ⟨0, [], fun _ => 0, none, 0, fun _ => 0, []⟩
  let p : TimerQue Nat → Bool := fun t => t.fired = [⟨1, 11, 20⟩] ∧ t.queue = [0]
  obtain ⟨t, reach, hp⟩ := Lts.reachable_of_exec (L := timerMachine Nat) (p := p) (s := s₀)
    (fun s e (h : decide (s.InWindow e) = true) => of_decide_eq_true h)
    [.insert 0 0x7FFFFFF6, .insert 1 1, .tick .core0, .round, .tick .core0, .round]
    ⟨rfl, rfl, rfl, rfl⟩ (by decide)
  exact ⟨t, of_decide_eq_true hp, timer_queue_in_time reach⟩

end TimerQue

end Mtk3Smp
