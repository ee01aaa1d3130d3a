import Mtk3Smp.Time.Handlers

/-!
# The queues of the handlers

`LinkInv x s`: a registered handler is started if and only if its TMEB is in a queue, with the
callback that belongs to the queue, but for the handler `x`, which a call has in its hands. Each
call takes such a handler out of its queue, if it is in one, and puts it into another one or
leaves it stopped.
-/

namespace Mtk3Smp

/-- The callback of the events in a queue. -/
def TimeQue.callback : TimeQue → Cback
  | .timer => .distribute
  | .handler _ => .call

structure LinkInv (x : Option Hdr) (s : TimeSys) : Prop where
  wf : s.rings.WF
  linked : ∀ h, x ≠ some h → (s.cb h).hdr ≠ none →
    ((s.cb h).sta = true ↔ ∃ q, s.rings.link h = .member q)
  unregistered : ∀ h, x ≠ some h → (s.cb h).hdr = none → s.rings.Free h
  transit : ∀ h, x = some h → s.rings.Free h
  callback : ∀ h q, s.rings.link h = .member q → (s.cb h).callback = q.callback
  pool_nodup : ∀ kind, (s.free kind).Nodup
  pool : ∀ kind, ∀ i ∈ s.free kind, (s.cb ⟨kind, i⟩).hdr = none

section

variable {s t : TimeSys} {h y : Hdr} {x : Option Hdr} {q : TimeQue} {i : Nat} {cb : HdrCb}
  {c self : Core}

theorem LinkInv.congr (inv : LinkInv x s) (hr : t.rings = s.rings) (hcb : t.cb = s.cb)
    (hf : t.free = s.free) : LinkInv x t := by
  refine ⟨?_, ?_, ?_, ?_, ?_, ?_, ?_⟩
  · rw [hr]
    exact inv.wf
  · rw [hr, hcb]
    exact inv.linked
  · rw [hr, hcb]
    exact inv.unregistered
  · rw [hr]
    exact inv.transit
  · rw [hr, hcb]
    exact inv.callback
  · rw [hf]
    exact inv.pool_nodup
  · rw [hf, hcb]
    exact inv.pool

/-- A call takes a handler whose TMEB is in no queue into its hands. -/
theorem LinkInv.opened (inv : LinkInv none s) (hfree : s.rings.Free h) : LinkInv (some h) s where
  wf := inv.wf
  linked y _ hreg := inv.linked y (by simp) hreg
  unregistered y _ hreg := inv.unregistered y (by simp) hreg
  transit y hy := by
    cases hy
    exact hfree
  callback := inv.callback
  pool_nodup := inv.pool_nodup
  pool := inv.pool

/-- It leaves the handler stopped, or unregistered. -/
theorem LinkInv.closed (inv : LinkInv (some h) s)
    (hsta : (s.cb h).hdr ≠ none → (s.cb h).sta = false) : LinkInv none s where
  wf := inv.wf
  linked y _ hreg := by
    by_cases same : y = h
    · subst same
      have hfree := inv.transit y rfl
      simp only [hsta hreg, Bool.false_eq_true, false_iff, not_exists]
      exact hfree
    · exact inv.linked y (fun he => same (Option.some.inj he).symm) hreg
  unregistered y _ hreg := by
    by_cases same : y = h
    · exact inv.transit y (by rw [same])
    · exact inv.unregistered y (fun he => same (Option.some.inj he).symm) hreg
  transit y hy := by cases hy
  callback := inv.callback
  pool_nodup := inv.pool_nodup
  pool := inv.pool

/-- The fields of the handler in hand change. -/
theorem LinkInv.setCb (inv : LinkInv (some h) s)
    (hpool : cb.hdr = none ∨ h.idx ∉ s.free h.kind) : LinkInv (some h) (s.setCb h cb) where
  wf := inv.wf
  linked y hy hreg := by
    have hne : y ≠ h := fun he => hy (by rw [he])
    simp only [TimeSys.setCb, Function.update_of_ne hne] at hreg ⊢
    exact inv.linked y hy hreg
  unregistered y hy hreg := by
    have hne : y ≠ h := fun he => hy (by rw [he])
    simp only [TimeSys.setCb, Function.update_of_ne hne] at hreg ⊢
    exact inv.unregistered y hy hreg
  transit := inv.transit
  callback y q hl := by
    have hne : y ≠ h := by
      rintro rfl
      exact inv.transit y rfl q hl
    simp only [TimeSys.setCb, Function.update_of_ne hne]
    exact inv.callback y q hl
  pool_nodup := inv.pool_nodup
  pool kind i hi := by
    by_cases same : (⟨kind, i⟩ : Hdr) = h
    · subst same
      simp only [TimeSys.setCb, Function.update_self]
      exact hpool.resolve_right fun hn => hn hi
    · simp only [TimeSys.setCb, Function.update_of_ne same]
      exact inv.pool kind i hi

/-- A registered handler is not in the free queue. -/
theorem LinkInv.not_pooled (inv : LinkInv x s) (hreg : (s.cb h).hdr ≠ none) :
    h.idx ∉ s.free h.kind := fun hi => hreg (inv.pool h.kind h.idx hi)

/-- The fields of a registered handler in hand change, and it stays registered. -/
theorem LinkInv.setReg (inv : LinkInv (some h) s) (hreg : (s.cb h).hdr ≠ none) :
    LinkInv (some h) (s.setCb h cb) :=
  inv.setCb (.inr (inv.not_pooled hreg))

/-- The handler in hand goes into a queue. -/
theorem LinkInv.link (inv : LinkInv (some h) s) (hi : i ≤ (s.rings.que q).length)
    (hreg : (s.cb h).hdr ≠ none) (hsta : (s.cb h).sta = true)
    (hcb : (s.cb h).callback = q.callback) :
    LinkInv none { s with rings := s.rings.insertAt q i h } := by
  have hfree := inv.transit h rfl
  have hlink := Rings.link_insertAt (q := q) (i := i) hfree
  refine ⟨inv.wf.insertAt hfree hi, ?_, ?_, ?_, ?_, inv.pool_nodup, inv.pool⟩
  · intro y _ hy
    by_cases same : y = h
    · subst same
      simp [hlink, hsta]
    · simp only [hlink, Function.update_of_ne same]
      exact inv.linked y (fun he => same (Option.some.inj he).symm) hy
  · intro y _ hy
    have same : y ≠ h := fun he => hreg (he ▸ hy)
    unfold Rings.Free
    simp only [hlink, Function.update_of_ne same]
    exact inv.unregistered y (fun he => same (Option.some.inj he).symm) hy
  · intro y hy
    cases hy
  · intro y p hl
    by_cases same : y = h
    · subst same
      simp only [hlink, Function.update_self, Link.member.injEq] at hl
      subst hl
      exact hcb
    · simp only [hlink, Function.update_of_ne same] at hl
      exact inv.callback y p hl

/-- A handler is taken out of its queue. -/
theorem LinkInv.unlink (inv : LinkInv none s) (hl : s.rings.link h = .member q) :
    LinkInv (some h) { s with rings := s.rings.remove h } := by
  have hne : ∀ y, some h ≠ some y → y ≠ h := by
    rintro y hy rfl
    exact hy rfl
  refine ⟨inv.wf.remove (by rw [hl]; simp), ?_, ?_, ?_, ?_, inv.pool_nodup, inv.pool⟩
  · intro y hy hreg
    simp only [Rings.link_remove_ne (hne y hy)]
    exact inv.linked y (by simp) hreg
  · intro y hy hreg
    unfold Rings.Free
    simp only [Rings.link_remove_ne (hne y hy)]
    exact inv.unregistered y (by simp) hreg
  · intro y hy
    cases hy
    exact Rings.free_remove
  · intro y p hl'
    have same : y ≠ h := by
      rintro rfl
      exact Rings.free_remove p hl'
    simp only [Rings.link_remove_ne same] at hl'
    exact inv.callback y p hl'

/-! ## The functions of the source -/

theorem LinkInv.knlTimerInsertAbs {time : ABSTIM} (inv : LinkInv (some h) s)
    (hreg : (s.cb h).hdr ≠ none) (hsta : (s.cb h).sta = true) :
    LinkInv none (s.knlTimerInsertAbs h time .distribute) := by
  have hset : LinkInv (some h)
      (s.setCb h { s.cb h with time := time, callback := .distribute }) := inv.setReg hreg
  refine hset.link List.findIdx_le_length ?_ ?_ ?_
  · simpa [TimeSys.setCb] using hreg
  · simpa [TimeSys.setCb] using hsta
  · simp [TimeSys.setCb, TimeQue.callback]

theorem LinkInv.knlTimerDelete (inv : LinkInv none s) (hl : s.rings.link h = .member q) :
    LinkInv (some h) (s.knlTimerDelete h) :=
  (inv.unlink hl).congr rfl rfl rfl

@[simp] theorem cancel_cb : (s.cancel h).cb = s.cb := by
  unfold TimeSys.cancel
  split <;> rfl

@[simp] theorem cancel_free : (s.cancel h).free = s.free := by
  unfold TimeSys.cancel
  split <;> rfl

theorem LinkInv.cancel (inv : LinkInv none s) (hreg : (s.cb h).hdr ≠ none) :
    LinkInv (some h) (s.cancel h) := by
  have hiff := inv.linked h (by simp) hreg
  unfold TimeSys.cancel
  cases hsta : (s.cb h).sta with
  | true =>
    obtain ⟨q, hl⟩ := hiff.1 hsta
    exact inv.knlTimerDelete hl
  | false =>
    refine inv.opened fun q hl => ?_
    rw [hiff.2 ⟨q, hl⟩] at hsta
    cases hsta

theorem LinkInv.knlCallCychdr (inv : LinkInv (some h) s) (hreg : (s.cb h).hdr ≠ none)
    (hsta : (s.cb h).sta = true) : LinkInv none (s.knlCallCychdr self h) :=
  (inv.knlTimerInsertAbs hreg hsta).congr rfl rfl rfl

theorem LinkInv.knlCallAlmhdr (inv : LinkInv (some h) s) (hreg : (s.cb h).hdr ≠ none) :
    LinkInv none (s.knlCallAlmhdr self h) := by
  have hset : LinkInv (some h) (s.setCb h { s.cb h with sta := false }) := inv.setReg hreg
  refine (hset.closed fun _ => ?_).congr rfl rfl rfl
  simp [TimeSys.setCb]

theorem LinkInv.knlEnqueueTimehandler (inv : LinkInv (some h) s) (hreg : (s.cb h).hdr ≠ none)
    (hsta : (s.cb h).sta = true) : LinkInv none (s.knlEnqueueTimehandler self c h .call) := by
  have hset : LinkInv (some h) (s.setCb h { s.cb h with callback := .call }) := inv.setReg hreg
  have hlink := hset.link (q := .handler c) (Nat.le_refl _) (by simpa [TimeSys.setCb] using hreg)
    (by simpa [TimeSys.setCb] using hsta) (by simp [TimeSys.setCb, TimeQue.callback])
  unfold TimeSys.knlEnqueueTimehandler
  dsimp only
  split
  · exact hlink.congr rfl rfl rfl
  · split
    · exact hlink.congr rfl rfl rfl
    · exact hlink.congr rfl rfl rfl

theorem LinkInv.runCallback (inv : LinkInv (some h) s) (hreg : (s.cb h).hdr ≠ none)
    (hsta : (s.cb h).sta = true) : LinkInv none (s.runCallback self h) := by
  unfold TimeSys.runCallback
  split
  · exact inv.knlEnqueueTimehandler hreg hsta
  · exact inv.knlCallCychdr hreg hsta
  · exact inv.knlCallAlmhdr hreg

/-- The first event of a queue belongs to a started handler. -/
theorem LinkInv.head (inv : LinkInv none s) {rest : List Hdr} (hq : s.rings.que q = h :: rest) :
    s.rings.link h = .member q ∧ (s.cb h).hdr ≠ none ∧ (s.cb h).sta = true := by
  have hl := inv.wf.link_head hq
  have hreg : (s.cb h).hdr ≠ none := fun hn => inv.unregistered h (by simp) hn q hl
  exact ⟨hl, hreg, (inv.linked h (by simp) hreg).2 ⟨q, hl⟩⟩

theorem LinkInv.knlTimehandlerExecute (inv : LinkInv none s) :
    LinkInv none (s.knlTimehandlerExecute self) := by
  unfold TimeSys.knlTimehandlerExecute
  split
  · exact inv.congr rfl rfl rfl
  · rename_i event rest hq
    obtain ⟨hl, hreg, hsta⟩ := inv.head hq
    have hout := (inv.unlink hl).congr (t := { s with
      rings := s.rings.remove event
      executed := s.executed.set self (s.executed self ++ [s.number event]) }) rfl rfl rfl
    exact hout.runCallback hreg hsta

theorem LinkInv.knlTimerHandler {cur : ABSTIM} (inv : LinkInv none s) :
    LinkInv none (s.knlTimerHandler cur) := by
  unfold TimeSys.knlTimerHandler
  split
  · exact inv.congr rfl rfl rfl
  · rename_i event rest hq
    split
    · exact inv.congr rfl rfl rfl
    · obtain ⟨hl, hreg, hsta⟩ := inv.head hq
      exact (inv.unlink hl).runCallback hreg hsta

theorem LinkInv.knlImmediateCallCychdr (inv : LinkInv (some h) s) (hreg : (s.cb h).hdr ≠ none)
    (hsta : (s.cb h).sta = true) : LinkInv none (s.knlImmediateCallCychdr self h) := by
  unfold TimeSys.knlImmediateCallCychdr
  dsimp only
  split
  · exact inv.knlEnqueueTimehandler hreg hsta
  · exact inv.knlCallCychdr hreg hsta

theorem LinkInv.knlImmediateCallAlmhdr (inv : LinkInv (some h) s) (hreg : (s.cb h).hdr ≠ none) :
    LinkInv none (s.knlImmediateCallAlmhdr self h) := by
  have hclear : LinkInv (some h) (s.setSta h false) := inv.setReg hreg
  have hreg' : ((s.setSta h false).cb h).hdr ≠ none := by
    simpa [TimeSys.setSta, TimeSys.setCb] using hreg
  unfold TimeSys.knlImmediateCallAlmhdr
  dsimp only
  split
  · have hset : LinkInv (some h) ((s.setSta h false).setSta h true) := hclear.setReg hreg'
    refine hset.knlEnqueueTimehandler ?_ ?_
    · simpa [TimeSys.setSta, TimeSys.setCb] using hreg
    · simp [TimeSys.setSta, TimeSys.setCb]
  · exact hclear.knlCallAlmhdr hreg'

/-! ## Calls -/

/-- The handler is marked as started after its event is in the queue. -/
theorem setSta_knlTimerInsertAbs {time : ABSTIM} {callback : Cback} :
    (s.knlTimerInsertAbs h time callback).setSta h true =
      (s.setSta h true).knlTimerInsertAbs h time callback := by
  have htime : ∀ cb cb' : HdrCb, cb.time = cb'.time → ∀ q,
      (Function.update s.cb h cb q).time = (Function.update s.cb h cb' q).time := by
    intro cb cb' he q
    by_cases same : q = h
    · subst same
      simpa using he
    · simp [Function.update_of_ne same]
  simp only [TimeSys.setSta, TimeSys.setCb, TimeSys.knlTimerInsertAbs, TimeSys.knlEnqueueTmeb,
    Function.update_idem, Function.update_self]
  congr 1
  congr 1
  funext q
  rw [htime { s.cb h with time := time, callback := callback }
    { s.cb h with sta := true, time := time, callback := callback } rfl q]
  rfl

theorem LinkInv.release (inv : LinkInv (some h) s) (hreg : (s.cb h).hdr ≠ none) :
    LinkInv none (s.release h) := by
  have hset : LinkInv (some h) (s.setCb h { s.cb h with hdr := none }) := inv.setCb (.inl rfl)
  have hcl : LinkInv none (s.setCb h { s.cb h with hdr := none }) :=
    hset.closed fun hn => absurd (by simp [TimeSys.setCb]) hn
  refine ⟨hcl.wf, hcl.linked, hcl.unregistered, hcl.transit, hcl.callback, fun kind => ?_,
    fun kind i hi => ?_⟩
  · by_cases same : kind = h.kind
    · subst same
      simp only [TimeSys.release, TimeSys.note, TimeSys.setCb, Function.update_self]
      have hout := inv.not_pooled hreg
      exact List.nodup_append.2 ⟨inv.pool_nodup h.kind, List.nodup_singleton _,
        fun a ha b hb hab => hout (by rw [← List.mem_singleton.1 hb, ← hab]; exact ha)⟩
    · simp only [TimeSys.release, TimeSys.note, TimeSys.setCb, Function.update_of_ne same]
      exact inv.pool_nodup kind
  · by_cases same : (⟨kind, i⟩ : Hdr) = h
    · simp [TimeSys.release, TimeSys.note, TimeSys.setCb, same]
    · simp only [TimeSys.release, TimeSys.note, TimeSys.setCb, Function.update_of_ne same] at hi ⊢
      refine inv.pool kind i ?_
      by_cases hk : kind = h.kind
      · subst hk
        rw [Function.update_self] at hi
        rcases List.mem_append.1 hi with hi | hi
        · exact hi
        · exact absurd (by rw [List.mem_singleton.1 hi]) same
      · rwa [Function.update_of_ne hk] at hi

/-- What a call on an existing handler does is what its body does. -/
theorem withHdr_ind {num id : Nat} {kind : HdrKind} {f : Hdr → TimeSys} {P : TimeSys → Prop}
    (hs : P s) (hf : ∀ h, (s.cb h).hdr ≠ none → P (f h)) : P (s.withHdr num kind id f).2 := by
  unfold TimeSys.withHdr
  split
  · exact hs
  · split
    · exact hs
    · rename_i hreg
      exact hf _ hreg

theorem LinkInv.create {kind : HdrKind} {g : HdrCb → HdrCb} {f : TimeSys → Hdr → TimeSys}
    (inv : LinkInv none s)
    (hf : ∀ t h, LinkInv (some h) t → (∃ cb, t.cb h = g cb) → LinkInv none (f t h)) :
    LinkInv none (s.create kind g f).2 := by
  unfold TimeSys.create
  cases hpool : s.free kind with
  | nil => exact inv
  | cons i rest =>
    have hi : i ∈ s.free kind := by simp [hpool]
    have hnone := inv.pool kind i hi
    have hnd := inv.pool_nodup kind
    rw [hpool] at hnd
    have hopen := inv.opened (inv.unregistered ⟨kind, i⟩ (by simp) hnone)
    -- the free queue without the control block
    have hrest : LinkInv (some ⟨kind, i⟩)
        { s with free := Function.update s.free kind rest } := by
      refine ⟨hopen.wf, hopen.linked, hopen.unregistered, hopen.transit, hopen.callback,
        fun kind' => ?_, fun kind' j hj => ?_⟩
      · by_cases same : kind' = kind
        · subst same
          simpa using (List.nodup_cons.1 hnd).2
        · simpa [same] using inv.pool_nodup kind'
      · by_cases same : kind' = kind
        · subst same
          simp only [Function.update_self] at hj
          exact inv.pool kind' j (by rw [hpool]; exact List.mem_cons_of_mem _ hj)
        · simp only [Function.update_of_ne same] at hj
          exact inv.pool kind' j hj
    have hset := @LinkInv.setCb _ _ (g (s.cb ⟨kind, i⟩)) hrest (.inr (by
      simpa using (List.nodup_cons.1 hnd).1))
    refine hf _ _ (hset.congr rfl rfl rfl) ⟨s.cb ⟨kind, i⟩, ?_⟩
    simp [TimeSys.setCb]

theorem LinkInv.tkCreCyc {pk : Ccyc} (inv : LinkInv none s) :
    LinkInv none (s.tkCreCyc self pk).2 := by
  unfold TimeSys.tkCreCyc
  split
  · exact inv
  · rename_i hpar
    rw [not_or] at hpar
    refine inv.create ?_
    rintro t h opened ⟨cb, hcb⟩
    have hreg : (t.cb h).hdr ≠ none := by simpa [hcb] using hpar.1
    have hsta : (t.cb h).sta = pk.sta := by simp [hcb]
    dsimp only
    split
    · rename_i started
      rw [started] at hsta
      split
      · have hset : LinkInv (some h) (((t.note (.started h (t.life h))).setTime h
            (s.cur + pk.cycphs + TIMER_PERIOD))) :=
          (opened.congr (t := t.note (.started h (t.life h))) rfl rfl rfl).setReg hreg
        refine hset.knlImmediateCallCychdr ?_ ?_
        · simpa [TimeSys.setTime, TimeSys.setCb, TimeSys.note] using hreg
        · simpa [TimeSys.setTime, TimeSys.setCb, TimeSys.note] using hsta
      · exact (opened.congr (t := t.note (.started h (t.life h))) rfl rfl rfl).knlTimerInsertAbs
          hreg hsta
    · rename_i stopped
      refine LinkInv.closed (opened.setReg hreg) fun _ => ?_
      simpa [TimeSys.setTime, TimeSys.setCb, hsta] using stopped

theorem LinkInv.tkCreAlm {pk : Calm} (inv : LinkInv none s) : LinkInv none (s.tkCreAlm pk).2 := by
  unfold TimeSys.tkCreAlm
  split
  · exact inv
  · refine inv.create ?_
    rintro t h opened ⟨cb, hcb⟩
    exact opened.closed fun _ => by simp [hcb]

theorem LinkInv.tkDel (inv : LinkInv none s) (hreg : (s.cb h).hdr ≠ none) :
    LinkInv none ((s.cancel h).release h) :=
  (inv.cancel hreg).release (by simpa using hreg)

theorem LinkInv.tkStp (inv : LinkInv none s) (hreg : (s.cb h).hdr ≠ none) :
    LinkInv none (((s.cancel h).setSta h false).note (.stopped h)) := by
  have hset : LinkInv (some h) ((s.cancel h).setCb h { (s.cancel h).cb h with sta := false }) :=
    (inv.cancel hreg).setReg (by simpa using hreg)
  exact (hset.closed fun _ => by simp [TimeSys.setCb]).congr rfl rfl rfl

theorem LinkInv.tkStaCyc {k : TimeCfg} {cycid : Nat} (inv : LinkInv none s) :
    LinkInv none (s.tkStaCyc k cycid).2 := by
  refine withHdr_ind inv fun h hreg => ?_
  dsimp only
  -- a handler in hand is marked and goes into the timer queue
  have hinsert : ∀ {t : TimeSys} {tm : ABSTIM}, LinkInv (some h) t → (t.cb h).hdr ≠ none →
      LinkInv none ((t.knlCycTimerInsert h tm).setSta h true) := by
    intro t tm hin hreg
    unfold TimeSys.knlCycTimerInsert
    rw [setSta_knlTimerInsertAbs]
    have hset : LinkInv (some h) (t.setSta h true) := hin.setReg hreg
    refine hset.knlTimerInsertAbs ?_ ?_
    · simpa [TimeSys.setSta, TimeSys.setCb] using hreg
    · simp [TimeSys.setSta, TimeSys.setCb]
  split
  · split
    · rename_i hsta
      have hfree : s.rings.Free h := fun q hl => by
        have hs := (inv.linked h (by simp) hreg).2 ⟨q, hl⟩
        simp [hs] at hsta
      exact (hinsert (inv.opened hfree) hreg).congr rfl rfl rfl
    · rename_i hsta
      have hsame : s.setSta h true = s := by
        have hs : (s.cb h).sta = true := by simpa using hsta
        unfold TimeSys.setSta TimeSys.setCb
        rw [← hs]
        simp
      rw [hsame]
      exact inv.congr rfl rfl rfl
  · exact (hinsert (inv.cancel hreg) (by simpa using hreg)).congr rfl rfl rfl

theorem LinkInv.tkStaAlm {k : TimeCfg} {almid : Nat} {almtim : ABSTIM} (inv : LinkInv none s) :
    LinkInv none (s.tkStaAlm k self almid almtim).2 := by
  unfold TimeSys.tkStaAlm
  split
  · exact inv
  split
  · exact inv
  refine withHdr_ind inv fun h hreg => ?_
  have hcan : LinkInv (some h) ((s.cancel h).note (.started h (s.life h))) :=
    (inv.cancel hreg).congr rfl rfl rfl
  have hreg' : (((s.cancel h).note (.started h (s.life h))).cb h).hdr ≠ none := by
    simpa [TimeSys.note] using hreg
  dsimp only
  split
  · unfold TimeSys.knlAlmTimerInsert
    rw [setSta_knlTimerInsertAbs]
    have hset : LinkInv (some h) (((s.cancel h).note (.started h (s.life h))).setSta h true) :=
      hcan.setReg hreg'
    refine hset.knlTimerInsertAbs ?_ ?_
    · simpa [TimeSys.setSta, TimeSys.setCb, TimeSys.note] using hreg
    · simp [TimeSys.setSta, TimeSys.setCb]
  · exact hcan.knlImmediateCallAlmhdr hreg'

theorem LinkInv.call {k : TimeCfg} (inv : LinkInv none s) (a : TimeCall) :
    LinkInv none (s.call k self a) := by
  cases a with
  | tkCreCyc pk => exact inv.tkCreCyc
  | tkDelCyc cycid => exact withHdr_ind inv fun h hreg => inv.tkDel hreg
  | tkStaCyc cycid => exact inv.tkStaCyc
  | tkStpCyc cycid => exact withHdr_ind inv fun h hreg => inv.tkStp hreg
  | tkCreAlm pk => exact inv.tkCreAlm
  | tkDelAlm almid => exact withHdr_ind inv fun h hreg => inv.tkDel hreg
  | tkStaAlm almid almtim => exact inv.tkStaAlm
  | tkStpAlm almid => exact withHdr_ind inv fun h hreg => inv.tkStp hreg

/-- What a step does, by the kind of its event. -/
theorem timeStep_cases {k : TimeCfg} {e : TimeEvent} (hs : s.step k e = some t) :
    (e = .tick ∧ s.lockFree = true ∧
        t = { s with currentTime := s.currentTime + TIMER_PERIOD.toUInt64 }.push .core0
          (.tick { s with currentTime := s.currentTime + TIMER_PERIOD.toUInt64 }.cur)) ∨
      (∃ cur rest, e = .tickRound ∧ s.stack .core0 = .tick cur :: rest ∧
        t = s.knlTimerHandler cur) ∨
      (∃ c, e = .ipiTake c ∧ s.pending c = true ∧ s.holds c = false ∧
        t = { s with pending := s.pending.set c false }.push c .ipi) ∨
      (∃ c rest, e = .ipiEnter c ∧ s.stack c = .ipi :: rest ∧ s.lockFree = true ∧
        t = (s.pop c).push c .execute) ∨
      (∃ c rest, e = .executeRound c ∧ s.stack c = .execute :: rest ∧
        t = s.knlTimehandlerExecute c) ∨
      (∃ c h rest, e = .bodyRet c ∧ s.stack c = .body h :: rest ∧ s.lockFree = true ∧
        t = s.pop c) ∨
      ∃ c a, e = .call c a ∧ s.lockFree = true ∧ (s.stack c).head? ≠ some .ipi ∧
        t = s.call k c a := by
  cases e with
  | tick =>
    dsimp only [TimeSys.step] at hs
    split at hs
    · rename_i hfree
      exact .inl ⟨rfl, hfree, (Option.some.inj hs).symm⟩
    · cases hs
  | tickRound =>
    dsimp only [TimeSys.step] at hs
    split at hs
    · rename_i cur rest hst
      exact .inr (.inl ⟨cur, rest, rfl, hst, (Option.some.inj hs).symm⟩)
    · cases hs
  | ipiTake c =>
    dsimp only [TimeSys.step] at hs
    split at hs
    · rename_i hg
      rw [Bool.and_eq_true, Bool.not_eq_true'] at hg
      exact .inr (.inr (.inl ⟨c, rfl, hg.1, hg.2, (Option.some.inj hs).symm⟩))
    · cases hs
  | ipiEnter c =>
    dsimp only [TimeSys.step] at hs
    split at hs
    · rename_i rest hst
      split at hs
      · rename_i hfree
        exact .inr (.inr (.inr (.inl ⟨c, rest, rfl, hst, hfree, (Option.some.inj hs).symm⟩)))
      · cases hs
    · cases hs
  | executeRound c =>
    dsimp only [TimeSys.step] at hs
    split at hs
    · rename_i rest hst
      exact .inr (.inr (.inr (.inr (.inl ⟨c, rest, rfl, hst, (Option.some.inj hs).symm⟩))))
    · cases hs
  | bodyRet c =>
    dsimp only [TimeSys.step] at hs
    split at hs
    · rename_i h rest hst
      split at hs
      · rename_i hfree
        exact .inr (.inr (.inr (.inr (.inr (.inl
          ⟨c, h, rest, rfl, hst, hfree, (Option.some.inj hs).symm⟩)))))
      · cases hs
    · cases hs
  | call c a =>
    dsimp only [TimeSys.step] at hs
    split at hs
    · rename_i hg
      rw [Bool.and_eq_true, bne_iff_ne] at hg
      exact .inr (.inr (.inr (.inr (.inr (.inr
        ⟨c, a, rfl, hg.1, hg.2, (Option.some.inj hs).symm⟩)))))
    · cases hs

theorem linkInv_step {k : TimeCfg} {e : TimeEvent} (inv : LinkInv none s)
    (hs : s.step k e = some t) : LinkInv none t := by
  rcases timeStep_cases hs with ⟨-, -, rfl⟩ | ⟨cur, rest, -, -, rfl⟩ | ⟨c, -, -, -, rfl⟩ |
    ⟨c, rest, -, -, -, rfl⟩ | ⟨c, rest, -, -, rfl⟩ | ⟨c, h, rest, -, -, -, rfl⟩ |
    ⟨c, a, -, -, -, rfl⟩
  · exact inv.congr rfl rfl rfl
  · exact inv.knlTimerHandler
  · exact inv.congr rfl rfl rfl
  · exact inv.congr rfl rfl rfl
  · exact inv.knlTimehandlerExecute
  · exact inv.congr rfl rfl rfl
  · exact inv.call a

theorem linkInv_boot (k : TimeCfg) (cb : Hdr → HdrCb) : LinkInv none (TimeSys.boot k cb) where
  wf := Rings.wf_empty
  linked h _ hreg := absurd rfl hreg
  unregistered h _ _ q hl := by cases hl
  transit h hn := by cases hn
  callback h q hl := by cases hl
  pool_nodup kind := List.nodup_range
  pool kind i _ := rfl

theorem linkInv_reachable {k : TimeCfg} (h : (timeMachine k).Reachable s) : LinkInv none s := by
  refine h.invariant (LinkInv none) ?_ fun s e t inv _ hs => linkInv_step inv hs
  rintro s ⟨cb, rfl⟩
  exact linkInv_boot k cb

end

end Mtk3Smp
