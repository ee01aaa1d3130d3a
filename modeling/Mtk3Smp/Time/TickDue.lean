import Mtk3Smp.Time.HandlerLinks
import Mtk3Smp.Time.CyclicTimes

/-!
# Events that are due

What the loop of `knl_timer_handler` would take off the timer queue. `NoneDue` is what the
functions of the handlers do to these events while the loop runs: as long as the times that
calls compute lie ahead of the clock, an event leaves them, but none joins them.
-/

namespace Mtk3Smp

open WrapClock

def TimeFrame.isTick : TimeFrame → Bool
  | .tick _ => true
  | _ => false

/-- A time `tm` from now, to which the tick is added, lies ahead of the clock. -/
def InReach (tm : ABSTIM) : Prop :=
  tm.toNat + TIMER_PERIOD.toNat ≤ 2 ^ 31 ∨ 2 ^ 32 < tm.toNat + TIMER_PERIOD.toNat

namespace TimeSys

variable (s : TimeSys)

def isDue (h : Hdr) : Bool := knlAbstimReached s.cur (s.cb h).time

/-- The number of events that the loop would take. -/
def due : Nat := (s.rings.que .timer).countP s.isDue

/-- The timer interrupts that are being handled. -/
def tickFrames : List TimeFrame := (s.stack .core0).filter TimeFrame.isTick

/-- What tk_cre_cyc checks of the period. -/
def PeriodsOk : Prop :=
  ∀ h, h.kind = .cyc → (s.cb h).hdr ≠ none → 0 < (s.cb h).cyctim.toNat ∧
    (s.cb h).cyctim.toNat < 2 ^ 31

end TimeSys

/-- No event comes to be due. -/
structure NoneDue (s t : TimeSys) : Prop where
  currentTime : t.currentTime = s.currentTime
  frames : t.tickFrames = s.tickFrames
  due : t.due ≤ s.due
  periods : s.PeriodsOk → t.PeriodsOk

section

variable {s t u : TimeSys} {h : Hdr} {cb : HdrCb} {q : TimeQue} {i : Nat} {c self : Core}

/-! ## Times ahead -/

theorem inReach_iff (cur tm : ABSTIM) :
    InReach tm ↔ knlAbstimReached cur (cur + tm + TIMER_PERIOD) = false := by
  have hten : TIMER_PERIOD.toNat = 10 := rfl
  have hmin : ABSTIM_DIFF_MIN.toNat = 0x7FFFFFFF := rfl
  have htm := tm.toNat_lt
  have hcur := cur.toNat_lt
  unfold InReach knlAbstimReached
  rw [decide_eq_false_iff_not, UInt32.le_iff_toNat_le, hmin, UInt32.toNat_sub, UInt32.toNat_add,
    UInt32.toNat_add, hten]
  omega

/-- The next time of a cyclic handler is not reached. -/
theorem knlCycNextTime_ahead (hpos : 0 < (s.cb h).cyctim.toNat)
    (hmax : (s.cb h).cyctim.toNat < 2 ^ 31) :
    knlAbstimReached s.cur (s.knlCycNextTime h) = false := by
  have htime : (s.cb h).time = clock (s.cb h).time.toNat := (clock_toNat _).symm
  have hnow : s.cur =
      clock ((s.cb h).time.toNat + (s.cur - clock (s.cb h).time.toNat).toNat) :=
    (clock_ahead _ _).symm
  have hr := (s.cur - clock (s.cb h).time.toNat).toNat_lt
  generalize (s.cur - clock (s.cb h).time.toNat).toNat = r at hnow hr
  generalize (s.cb h).time.toNat = last at htime hnow
  have hnext := TimeSys.knlCycNextTime_of_le hnow htime rfl hpos hmax (m := 0) hr (by omega)
  rw [hnext, hnow]
  generalize (s.cb h).cyctim.toNat = p at hpos hmax
  obtain ⟨hlow, hhigh⟩ := TimeSys.skip_bounds (e := r) hpos
  apply Bool.eq_false_iff.2
  intro hreached
  have hnear := (TimeSys.reached_iff _ _).1 hreached
  generalize (r / p + 1) * p = x at hlow hhigh hnear
  split at hnear
  · omega
  · split at hnear
    · omega
    · omega

/-! ## Steps of the data -/

theorem NoneDue.refl (s : TimeSys) : NoneDue s s := ⟨rfl, rfl, Nat.le_refl _, fun h => h⟩

theorem NoneDue.trans (first : NoneDue s t) (second : NoneDue t u) : NoneDue s u where
  currentTime := by rw [second.currentTime, first.currentTime]
  frames := by rw [second.frames, first.frames]
  due := Nat.le_trans second.due first.due
  periods h := second.periods (first.periods h)

theorem due_congr (hcur : t.currentTime = s.currentTime) (hr : t.rings = s.rings)
    (hcb : t.cb = s.cb) : t.due = s.due := by
  unfold TimeSys.due TimeSys.isDue TimeSys.cur
  rw [hcur, hr, hcb]

theorem periodsOk_congr (hcb : t.cb = s.cb) (ok : s.PeriodsOk) : t.PeriodsOk := by
  intro h
  rw [hcb]
  exact ok h

theorem noneDue_of_eq (hcur : t.currentTime = s.currentTime) (hr : t.rings = s.rings)
    (hcb : t.cb = s.cb) (hst : t.tickFrames = s.tickFrames) : NoneDue s t where
  currentTime := hcur
  frames := hst
  due := Nat.le_of_eq (due_congr hcur hr hcb)
  periods := periodsOk_congr hcb

/-- A frame other than a tick is pushed. -/
theorem noneDue_push {f : TimeFrame} (hf : f.isTick = false) : NoneDue s (s.push c f) := by
  refine noneDue_of_eq rfl rfl rfl ?_
  unfold TimeSys.tickFrames TimeSys.push
  cases c with
  | core0 => simp [hf]
  | core1 => simp

theorem noneDue_pop {f : TimeFrame} {rest : List TimeFrame} (hst : s.stack c = f :: rest)
    (hf : f.isTick = false) : NoneDue s (s.pop c) := by
  refine noneDue_of_eq rfl rfl rfl ?_
  unfold TimeSys.tickFrames TimeSys.pop
  cases c with
  | core0 => simp [hst, hf]
  | core1 => simp

/-- The control block of a handler that is in no queue. -/
theorem noneDue_setCb (wf : s.rings.WF) (hfree : s.rings.Free h)
    (hp : s.PeriodsOk → h.kind = .cyc → cb.hdr ≠ none →
      0 < cb.cyctim.toNat ∧ cb.cyctim.toNat < 2 ^ 31) : NoneDue s (s.setCb h cb) where
  currentTime := rfl
  frames := rfl
  due := by
    apply Nat.le_of_eq
    apply List.countP_congr
    intro y hy
    have hne : y ≠ h := by
      rintro rfl
      exact hfree .timer ((wf.mem_iff y .timer).1 hy)
    simp only [TimeSys.isDue, TimeSys.cur, TimeSys.setCb, Function.update_of_ne hne]
  periods ok y hy hreg := by
    by_cases same : y = h
    · subst same
      simp only [TimeSys.setCb, Function.update_self] at hreg ⊢
      exact hp ok hy hreg
    · simp only [TimeSys.setCb, Function.update_of_ne same] at hreg ⊢
      exact ok y hy hreg

/-- Changes that keep the registration and the period. -/
theorem noneDue_setCb_same (wf : s.rings.WF) (hfree : s.rings.Free h)
    (hhdr : cb.hdr = (s.cb h).hdr) (hcyc : cb.cyctim = (s.cb h).cyctim) :
    NoneDue s (s.setCb h cb) := by
  refine noneDue_setCb wf hfree fun ok hk hreg => ?_
  rw [hhdr] at hreg
  rw [hcyc]
  exact ok h hk hreg

/-- The status says nothing about the time. -/
theorem noneDue_setSta {sta : Bool} : NoneDue s (s.setSta h sta) := by
  have hfields : ∀ y, ((s.setSta h sta).cb y).time = (s.cb y).time ∧
      ((s.setSta h sta).cb y).hdr = (s.cb y).hdr ∧
      ((s.setSta h sta).cb y).cyctim = (s.cb y).cyctim := by
    intro y
    by_cases same : y = h
    · subst same
      simp [TimeSys.setSta, TimeSys.setCb]
    · simp [TimeSys.setSta, TimeSys.setCb, same]
  refine ⟨rfl, rfl, Nat.le_of_eq (List.countP_congr fun y _ => ?_), fun ok y hk hreg => ?_⟩
  · simp only [TimeSys.isDue, (hfields y).1]
    rfl
  · rw [(hfields y).2.1] at hreg
    rw [(hfields y).2.2]
    exact ok y hk hreg

/-- An event that is not due goes into the timer queue. -/
theorem due_insertAt (hfree : s.rings.Free h) (hi : i ≤ (s.rings.que .timer).length)
    (hlate : s.isDue h = false) :
    ({ s with rings := s.rings.insertAt .timer i h } : TimeSys).due = s.due := by
  show ((s.rings.insertAt .timer i h).que .timer).countP s.isDue = _
  rw [Rings.que_insertAt hfree, Function.update_self, (List.perm_insertIdx h _ hi).countP_eq,
    List.countP_cons, hlate]
  rfl

theorem que_timer_insertAt (hfree : s.rings.Free h) :
    (s.rings.insertAt (.handler c) i h).que .timer = s.rings.que .timer := by
  rw [Rings.que_insertAt hfree, Function.update_of_ne (by simp)]

theorem due_remove_le : ({ s with rings := s.rings.remove h } : TimeSys).due ≤ s.due := by
  show ((s.rings.remove h).que .timer).countP s.isDue ≤ (s.rings.que .timer).countP s.isDue
  apply List.Sublist.countP_le
  cases hl : s.rings.link h with
  | loose => simp [Rings.remove, hl]
  | selfRing => simp [Rings.remove, hl]
  | member q =>
    rw [Rings.que_remove_of_member hl]
    by_cases same : q = .timer
    · subst same
      rw [Function.update_self]
      exact List.erase_sublist
    · rw [Function.update_of_ne (Ne.symm same)]

/-- An event that is due leaves the timer queue. -/
theorem due_remove_head {rest : List Hdr} (wf : s.rings.WF)
    (hq : s.rings.que .timer = h :: rest) (hdue : s.isDue h = true) :
    ({ s with rings := s.rings.remove h } : TimeSys).due + 1 = s.due := by
  show ((s.rings.remove h).que .timer).countP s.isDue + 1 = (s.rings.que .timer).countP s.isDue
  rw [Rings.que_remove_of_member (wf.link_head hq), Function.update_self, hq,
    List.erase_cons_head, List.countP_cons, hdue]
  rfl

theorem noneDue_remove : NoneDue s { s with rings := s.rings.remove h } where
  currentTime := rfl
  frames := rfl
  due := due_remove_le
  periods ok := ok

/-! ## The functions of the source -/

theorem noneDue_knlTimerInsertAbs {time : ABSTIM} {callback : Cback} (wf : s.rings.WF)
    (hfree : s.rings.Free h) (hlate : knlAbstimReached s.cur time = false) :
    NoneDue s (s.knlTimerInsertAbs h time callback) := by
  have hset : NoneDue s (s.setCb h { s.cb h with time, callback }) :=
    noneDue_setCb_same wf hfree rfl rfl
  have hdue : (s.setCb h { s.cb h with time, callback }).isDue h = false := by
    simpa [TimeSys.isDue, TimeSys.setCb, TimeSys.cur] using hlate
  refine hset.trans ⟨rfl, rfl, ?_, fun ok => ok⟩
  exact Nat.le_of_eq (due_insertAt hfree List.findIdx_le_length hdue)

theorem noneDue_cancel : NoneDue s (s.cancel h) := by
  unfold TimeSys.cancel
  split
  · exact noneDue_remove.trans (noneDue_of_eq rfl rfl rfl rfl)
  · exact NoneDue.refl s

theorem noneDue_callUserHandler : NoneDue s (s.callUserHandler self h) := by
  have hnote : NoneDue s (s.note (.begun h (s.life h) (s.cb h).hdr (s.cb h).exinf)) :=
    noneDue_of_eq rfl rfl rfl rfl
  exact hnote.trans (noneDue_push rfl)

theorem noneDue_knlCallCychdr (ok : s.PeriodsOk) (wf : s.rings.WF) (hfree : s.rings.Free h)
    (hk : h.kind = .cyc) (hreg : (s.cb h).hdr ≠ none) : NoneDue s (s.knlCallCychdr self h) := by
  obtain ⟨hpos, hmax⟩ := ok h hk hreg
  have hins : NoneDue s (s.knlCycTimerInsert h (s.knlCycNextTime h)) :=
    noneDue_knlTimerInsertAbs wf hfree (knlCycNextTime_ahead hpos hmax)
  exact hins.trans noneDue_callUserHandler

theorem noneDue_knlCallAlmhdr : NoneDue s (s.knlCallAlmhdr self h) :=
  noneDue_setSta.trans noneDue_callUserHandler

theorem noneDue_knlEnqueueTimehandler {callback : Cback} (wf : s.rings.WF)
    (hfree : s.rings.Free h) : NoneDue s (s.knlEnqueueTimehandler self c h callback) := by
  have hset : NoneDue s (s.setCb h { s.cb h with callback }) :=
    noneDue_setCb_same wf hfree rfl rfl
  -- the event waits for the core, whose flag and frames follow
  have hque : ∀ {t : TimeSys}, t.currentTime = s.currentTime →
      t.cb = (s.setCb h { s.cb h with callback }).cb →
      t.rings = s.rings.insertLast (.handler c) h → t.tickFrames = s.tickFrames → NoneDue s t := by
    intro t hcur hcb hr hst
    refine hset.trans ⟨hcur, hst, ?_, periodsOk_congr hcb⟩
    unfold TimeSys.due TimeSys.isDue TimeSys.cur
    rw [hr, hcb, hcur]
    unfold Rings.insertLast
    rw [que_timer_insertAt hfree]
    rfl
  unfold TimeSys.knlEnqueueTimehandler
  dsimp only
  split
  · exact hque rfl rfl rfl rfl
  · split
    · refine NoneDue.trans ?_ (noneDue_push rfl)
      exact hque rfl rfl rfl rfl
    · exact hque rfl rfl rfl rfl

theorem noneDue_runCallback (ok : s.PeriodsOk) (wf : s.rings.WF) (hfree : s.rings.Free h)
    (hreg : (s.cb h).hdr ≠ none) : NoneDue s (s.runCallback self h) := by
  unfold TimeSys.runCallback
  split
  · exact noneDue_knlEnqueueTimehandler wf hfree
  · rename_i hk
    exact noneDue_knlCallCychdr ok wf hfree hk hreg
  · exact noneDue_knlCallAlmhdr

theorem noneDue_knlTimehandlerExecute {rest : List TimeFrame} (inv : LinkInv none s)
    (ok : s.PeriodsOk) (hst : s.stack self = .execute :: rest) :
    NoneDue s (s.knlTimehandlerExecute self) := by
  unfold TimeSys.knlTimehandlerExecute
  split
  · have hidle : NoneDue s { s with active := s.active.set self false } :=
      noneDue_of_eq rfl rfl rfl rfl
    have hpop : NoneDue { s with active := s.active.set self false }
        (({ s with active := s.active.set self false } : TimeSys).pop self) := noneDue_pop hst rfl
    exact hidle.trans hpop
  · rename_i event tail hq
    obtain ⟨-, hreg, -⟩ := inv.head hq
    have hl := inv.wf.link_head hq
    have hout : NoneDue s { s with
        rings := s.rings.remove event
        executed := s.executed.set self (s.executed self ++ [s.number event]) } :=
      noneDue_remove.trans (noneDue_of_eq rfl rfl rfl rfl)
    refine hout.trans (noneDue_runCallback (hout.periods ok) ?_ Rings.free_remove hreg)
    exact inv.wf.remove (by rw [hl]; simp)

theorem noneDue_knlImmediateCallCychdr (ok : s.PeriodsOk) (wf : s.rings.WF)
    (hfree : s.rings.Free h) (hk : h.kind = .cyc) (hreg : (s.cb h).hdr ≠ none) :
    NoneDue s (s.knlImmediateCallCychdr self h) := by
  unfold TimeSys.knlImmediateCallCychdr
  dsimp only
  split
  · exact noneDue_knlEnqueueTimehandler wf hfree
  · exact noneDue_knlCallCychdr ok wf hfree hk hreg

theorem noneDue_knlImmediateCallAlmhdr (wf : s.rings.WF) (hfree : s.rings.Free h) :
    NoneDue s (s.knlImmediateCallAlmhdr self h) := by
  have hclear : NoneDue s (s.setSta h false) := noneDue_setSta
  unfold TimeSys.knlImmediateCallAlmhdr
  dsimp only
  split
  · have hset : NoneDue s ((s.setSta h false).setSta h true) := hclear.trans noneDue_setSta
    refine hset.trans (noneDue_knlEnqueueTimehandler ?_ ?_)
    · exact wf
    · exact hfree
  · exact hclear.trans noneDue_knlCallAlmhdr

/-! ## Calls -/

/-- A call on a control block, which may not exist. -/
theorem withHdr_cases {num id : Nat} {kind : HdrKind} {f : Hdr → TimeSys} {P : TimeSys → Prop}
    (hs : P s) (hf : (s.cb ⟨kind, id - 1⟩).hdr ≠ none → P (f ⟨kind, id - 1⟩)) :
    P (s.withHdr num kind id f).2 := by
  unfold TimeSys.withHdr
  split
  · exact hs
  · split
    · exact hs
    · rename_i hreg
      exact hf hreg

theorem noneDue_create {kind : HdrKind} {g : HdrCb → HdrCb} {f : TimeSys → Hdr → TimeSys}
    (inv : LinkInv none s)
    (hg : kind = .cyc → ∀ cb, 0 < (g cb).cyctim.toNat ∧ (g cb).cyctim.toNat < 2 ^ 31)
    (hf : ∀ t h, NoneDue s t → t.rings = s.rings → s.rings.Free h → h.kind = kind →
      (∃ cb, t.cb h = g cb) → NoneDue t (f t h)) : NoneDue s (s.create kind g f).2 := by
  unfold TimeSys.create
  cases hpool : s.free kind with
  | nil => exact NoneDue.refl s
  | cons i rest =>
    have hnone := inv.pool kind i (by simp [hpool])
    have hfree := inv.unregistered ⟨kind, i⟩ (by simp) hnone
    have hset : NoneDue s (s.setCb ⟨kind, i⟩ (g (s.cb ⟨kind, i⟩))) :=
      noneDue_setCb inv.wf hfree fun _ hk _ => hg hk _
    dsimp only
    refine NoneDue.trans ?_ (hf _ _ ?_ rfl hfree rfl ⟨s.cb ⟨kind, i⟩, ?_⟩)
    · exact hset.trans (noneDue_of_eq rfl rfl rfl rfl)
    · exact hset.trans (noneDue_of_eq rfl rfl rfl rfl)
    · simp [TimeSys.setCb]

theorem noneDue_tkCreCyc {pk : Ccyc} (inv : LinkInv none s) (ok : s.PeriodsOk)
    (hon : pk.sta = true → InReach pk.cycphs) : NoneDue s (s.tkCreCyc self pk).2 := by
  unfold TimeSys.tkCreCyc
  split
  · exact NoneDue.refl s
  rename_i hpar
  simp only [not_or, Bool.not_eq_false] at hpar
  obtain ⟨hhdr, hne, hmax, -⟩ := hpar
  refine noneDue_create inv (fun _ cb => ⟨?_, ?_⟩) ?_
  · exact Nat.pos_of_ne_zero fun hz => hne (UInt32.toNat_inj.1 hz)
  · exact UInt32.lt_iff_toNat_lt.1 (of_decide_eq_true hmax)
  · rintro t h hst hr hfree hk ⟨cb, hcb⟩
    have hcur : t.cur = s.cur := by
      unfold TimeSys.cur
      rw [hst.currentTime]
    rw [← hr] at hfree
    have wf : t.rings.WF := hr ▸ inv.wf
    dsimp only
    split
    · rename_i hsta
      have hnote : NoneDue t (t.note (.started h (t.life h))) := noneDue_of_eq rfl rfl rfl rfl
      split
      · have hset : NoneDue t ((t.note (.started h (t.life h))).setTime h
            (s.cur + pk.cycphs + TIMER_PERIOD)) :=
          hnote.trans (noneDue_setCb_same wf hfree rfl rfl)
        refine hset.trans (noneDue_knlImmediateCallCychdr (hset.periods (hst.periods ok)) wf
          hfree hk ?_)
        simpa [TimeSys.setTime, TimeSys.setCb, TimeSys.note, hcb] using hhdr
      · refine hnote.trans (noneDue_knlTimerInsertAbs wf hfree ?_)
        rw [← hcur]
        exact (inReach_iff _ _).1 (hon hsta)
    · exact noneDue_setCb_same wf hfree rfl rfl

theorem noneDue_tkCreAlm {pk : Calm} (inv : LinkInv none s) : NoneDue s (s.tkCreAlm pk).2 := by
  unfold TimeSys.tkCreAlm
  split
  · exact NoneDue.refl s
  · refine noneDue_create inv (fun hk => by cases hk) ?_
    intro t h _ _ _ _ _
    exact NoneDue.refl t

theorem noneDue_tkDel : NoneDue s ((s.cancel h).release h) := by
  refine noneDue_cancel.trans ⟨rfl, rfl, ?_, fun ok y hk hreg => ?_⟩
  · apply Nat.le_of_eq
    apply List.countP_congr
    intro y _
    by_cases same : y = h
    · subst same
      simp [TimeSys.isDue, TimeSys.release, TimeSys.setCb, TimeSys.note, TimeSys.cur]
    · simp [TimeSys.isDue, TimeSys.release, TimeSys.setCb, TimeSys.note, TimeSys.cur, same]
  · by_cases same : y = h
    · subst same
      simp [TimeSys.release, TimeSys.setCb, TimeSys.note] at hreg
    · simp only [TimeSys.release, TimeSys.setCb, TimeSys.note, Function.update_of_ne same]
        at hreg ⊢
      exact ok y hk hreg

theorem noneDue_tkStp : NoneDue s (((s.cancel h).setSta h false).note (.stopped h)) :=
  (noneDue_cancel.trans noneDue_setSta).trans (noneDue_of_eq rfl rfl rfl rfl)

theorem noneDue_tkStaCyc {k : TimeCfg} {cycid : Nat} (inv : LinkInv none s) (ok : s.PeriodsOk)
    (hon : (s.cb ⟨.cyc, cycid - 1⟩).phs = false → InReach (s.cb ⟨.cyc, cycid - 1⟩).cyctim) :
    NoneDue s (s.tkStaCyc k cycid).2 := by
  refine withHdr_cases (NoneDue.refl s) fun hreg => ?_
  generalize hh : (⟨.cyc, cycid - 1⟩ : Hdr) = h at hon hreg
  have hk : h.kind = .cyc := by rw [← hh]
  obtain ⟨hpos, hmax⟩ := ok h hk hreg
  dsimp only
  have hmark : ∀ {t : TimeSys}, NoneDue s t →
      NoneDue s ((t.setSta h true).note (.started h (s.life h))) := by
    intro t ht
    exact (ht.trans noneDue_setSta).trans (noneDue_of_eq rfl rfl rfl rfl)
  apply hmark
  split
  · split
    · rename_i hsta
      have hfree : s.rings.Free h := fun q hl => by
        have hs := (inv.linked h (by simp) hreg).2 ⟨q, hl⟩
        simp [hs] at hsta
      refine noneDue_knlTimerInsertAbs inv.wf hfree ?_
      split
      · exact knlCycNextTime_ahead hpos hmax
      · rename_i hlate
        exact Bool.eq_false_iff.2 hlate
    · exact NoneDue.refl s
  · rename_i hphs
    have hopen := inv.cancel hreg
    have hout : NoneDue s (s.cancel h) := noneDue_cancel
    refine hout.trans (noneDue_knlTimerInsertAbs hopen.wf (hopen.transit h rfl) ?_)
    have hcur : (s.cancel h).cur = s.cur := by
      unfold TimeSys.cur
      rw [hout.currentTime]
    rw [hcur]
    exact (inReach_iff _ _).1 (hon (Bool.eq_false_iff.2 hphs))

theorem noneDue_tkStaAlm {k : TimeCfg} {almid : Nat} {almtim : ABSTIM} (inv : LinkInv none s)
    (hon : InReach almtim) : NoneDue s (s.tkStaAlm k self almid almtim).2 := by
  unfold TimeSys.tkStaAlm
  split
  · exact NoneDue.refl s
  split
  · exact NoneDue.refl s
  refine withHdr_ind (NoneDue.refl s) fun h hreg => ?_
  have hopen := inv.cancel hreg
  have hnote : NoneDue s ((s.cancel h).note (.started h (s.life h))) :=
    noneDue_cancel.trans (noneDue_of_eq rfl rfl rfl rfl)
  dsimp only
  split
  · refine hnote.trans (NoneDue.trans ?_ noneDue_setSta)
    exact noneDue_knlTimerInsertAbs hopen.wf (hopen.transit h rfl) ((inReach_iff _ _).1 hon)
  · exact hnote.trans (noneDue_knlImmediateCallAlmhdr hopen.wf (hopen.transit h rfl))

end

end Mtk3Smp
