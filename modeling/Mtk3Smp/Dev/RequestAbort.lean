import Mtk3Smp.Dev.RequestCalls

/-!
# Waiting for the calls in progress

`nwaireq` and `waitone` are right about who waits on a descriptor. Of a descriptor that is being
closed, `abort_cnt` is the number of the calls that are still in progress, and `abort_semid` is
signalled only when there are none left.
-/

namespace Mtk3Smp

section

variable {p : ReqPc → Prop} {pc : Tid → ReqPc} {t u : Tid} {v : ReqPc}

theorem update_iff_of_not (ht : ¬ p (pc t)) (hv : ¬ p v) :
    p (Function.update pc t v u) ↔ p (pc u) := by
  by_cases hut : u = t
  · subst hut
    rw [Function.update_self]
    exact iff_of_false hv ht
  · rw [Function.update_of_ne hut]

theorem update_iff_or (hv : p v) : p (Function.update pc t v u) ↔ p (pc u) ∨ u = t := by
  by_cases hut : u = t
  · subst hut
    rw [Function.update_self]
    exact iff_of_true hv (.inr rfl)
  · rw [Function.update_of_ne hut]
    exact (or_iff_left hut).symm

theorem update_iff_and (hv : ¬ p v) : p (Function.update pc t v u) ↔ p (pc u) ∧ u ≠ t := by
  by_cases hut : u = t
  · subst hut
    rw [Function.update_self]
    exact iff_of_false hv fun h => h.2 rfl
  · rw [Function.update_of_ne hut]
    exact (and_iff_left hut).symm

end

/-- Who waits on a descriptor: one task for any of the requests, or some for one each. -/
structure WaitsOk (d : Nat) (o : OpnReq) (pc : Tid → ReqPc) : Prop where
  any : ∀ t, (pc t).waitsAny d → 0 < o.nwaireq
  alone : ∀ t, (pc t).waitsAny d → ∀ u, ((pc u).waitsAny d → u = t) ∧ ¬ (pc u).waitsOne d
  anySome : 0 < o.nwaireq → ∃ t, (pc t).waitsAny d
  ones : ∃ n : Nat, Tally n (fun t => (pc t).waitsOne d) ∧ o.waitone = n

namespace WaitsOk

variable {d : Nat} {o o' : OpnReq} {pc : Tid → ReqPc} {t : Tid} {v : ReqPc}

theorem start (h : ∀ t, pc t = .idle) (hn : o.nwaireq = 0) (hw : o.waitone = 0) :
    WaitsOk d o pc where
  any t ht := by
    rw [h t] at ht
    cases ht
  alone t ht := by
    rw [h t] at ht
    cases ht
  anySome hpos := by omega
  ones := by
    refine ⟨0, Tally.zero.2 ?_, hw⟩
    intro t ht
    rw [h t] at ht
    cases ht

theorem not_waitsAny (h : WaitsOk d o pc) (hn : ¬ 0 < o.nwaireq) (t : Tid) :
    ¬ (pc t).waitsAny d := fun ht => hn (h.any t ht)

theorem not_waitsOne (h : WaitsOk d o pc) (hw : ¬ 0 < o.waitone) (t : Tid) :
    ¬ (pc t).waitsOne d := by
  intro ht
  obtain ⟨n, htally, hn⟩ := h.ones
  have hpos := htally.pos ht
  omega

theorem frame (h : WaitsOk d o pc) (ht : ¬ (pc t).waitsAny d ∧ ¬ (pc t).waitsOne d)
    (hv : ¬ v.waitsAny d ∧ ¬ v.waitsOne d) (hn : o'.nwaireq = o.nwaireq)
    (hw : o'.waitone = o.waitone) : WaitsOk d o' (Function.update pc t v) := by
  have hany : ∀ u, (Function.update pc t v u).waitsAny d ↔ (pc u).waitsAny d :=
    fun u => update_iff_of_not ht.1 hv.1
  have hone : ∀ u, (Function.update pc t v u).waitsOne d ↔ (pc u).waitsOne d :=
    fun u => update_iff_of_not ht.2 hv.2
  constructor
  case any =>
    intro u hu
    rw [hn]
    exact h.any u ((hany u).1 hu)
  case alone =>
    intro u hu w
    rw [hany w, hone w]
    exact h.alone u ((hany u).1 hu) w
  case anySome =>
    intro hpos
    rw [hn] at hpos
    obtain ⟨u, hu⟩ := h.anySome hpos
    exact ⟨u, (hany u).2 hu⟩
  case ones =>
    obtain ⟨n, htally, hwn⟩ := h.ones
    exact ⟨n, htally.congr hone, hw.trans hwn⟩

/-- A wait for any request is let in when nobody waits. -/
theorem enterAny (h : WaitsOk d o pc) (hn : ¬ 0 < o.nwaireq) (hw : ¬ 0 < o.waitone)
    (hv : v.waitsAny d) (hone : ¬ v.waitsOne d) (hn' : 0 < o'.nwaireq)
    (hw' : o'.waitone = o.waitone) : WaitsOk d o' (Function.update pc t v) := by
  have hany : ∀ u, (Function.update pc t v u).waitsAny d ↔ u = t := by
    intro u
    rw [update_iff_or hv]
    exact or_iff_right (h.not_waitsAny hn u)
  have hones : ∀ u, ¬ (Function.update pc t v u).waitsOne d := by
    intro u
    rw [update_iff_of_not (h.not_waitsOne hw t) hone]
    exact h.not_waitsOne hw u
  constructor
  case any => exact fun _ _ => hn'
  case alone =>
    intro u hu w
    refine ⟨?_, hones w⟩
    intro hw
    rw [(hany u).1 hu, (hany w).1 hw]
  case anySome => exact fun _ => ⟨t, (hany t).2 rfl⟩
  case ones =>
    obtain ⟨n, htally, hwn⟩ := h.ones
    have hzero : n = 0 := htally.unique (Tally.zero.2 (h.not_waitsOne hw))
    subst hzero
    exact ⟨0, Tally.zero.2 hones, hw'.trans hwn⟩

/-- A wait for one request is let in when nobody waits for any. -/
theorem enterOne (h : WaitsOk d o pc) (hn : ¬ 0 < o.nwaireq) (ht : ¬ (pc t).waitsOne d)
    (hv : v.waitsOne d) (hany : ¬ v.waitsAny d) (hn' : o'.nwaireq = o.nwaireq)
    (hw' : o'.waitone = o.waitone + 1) : WaitsOk d o' (Function.update pc t v) := by
  have hanys : ∀ u, ¬ (Function.update pc t v u).waitsAny d := by
    intro u
    rw [update_iff_of_not (h.not_waitsAny hn t) hany]
    exact h.not_waitsAny hn u
  constructor
  case any => exact fun u hu => absurd hu (hanys u)
  case alone => exact fun u hu => absurd hu (hanys u)
  case anySome =>
    intro hpos
    rw [hn'] at hpos
    exact absurd hpos hn
  case ones =>
    obtain ⟨n, htally, hwn⟩ := h.ones
    refine ⟨n + 1, htally.enter ht fun u => update_iff_or hv, ?_⟩
    rw [hw', hwn]
    rfl

theorem leaveAny (h : WaitsOk d o pc) (ht : (pc t).waitsAny d)
    (hv : ¬ v.waitsAny d ∧ ¬ v.waitsOne d) (hn' : o'.nwaireq = 0)
    (hw' : o'.waitone = o.waitone) : WaitsOk d o' (Function.update pc t v) := by
  have hanys : ∀ u, ¬ (Function.update pc t v u).waitsAny d := by
    intro u
    rw [update_iff_and hv.1]
    rintro ⟨hu, hut⟩
    exact hut ((h.alone t ht u).1 hu)
  constructor
  case any => exact fun u hu => absurd hu (hanys u)
  case alone => exact fun u hu => absurd hu (hanys u)
  case anySome =>
    intro hpos
    omega
  case ones =>
    obtain ⟨n, htally, hwn⟩ := h.ones
    refine ⟨n, htally.congr fun u => ?_, hw'.trans hwn⟩
    exact update_iff_of_not (h.alone t ht t).2 hv.2

theorem leaveOne (h : WaitsOk d o pc) (ht : (pc t).waitsOne d)
    (hv : ¬ v.waitsAny d ∧ ¬ v.waitsOne d) (hn' : o'.nwaireq = o.nwaireq)
    (hw' : o'.waitone = o.waitone - 1) : WaitsOk d o' (Function.update pc t v) := by
  have hany : ∀ u, ¬ (pc u).waitsAny d := fun u hu => (h.alone u hu t).2 ht
  have hanys : ∀ u, ¬ (Function.update pc t v u).waitsAny d := by
    intro u
    rw [update_iff_of_not (hany t) hv.1]
    exact hany u
  constructor
  case any => exact fun u hu => absurd hu (hanys u)
  case alone => exact fun u hu => absurd hu (hanys u)
  case anySome =>
    intro hpos
    rw [hn'] at hpos
    obtain ⟨u, hu⟩ := h.anySome hpos
    exact absurd hu (hany u)
  case ones =>
    obtain ⟨n, htally, hwn⟩ := h.ones
    have hpos := htally.pos ht
    refine ⟨n - 1, htally.leave ht fun u => update_iff_and hv.2, ?_⟩
    omega

end WaitsOk

namespace ReqPc

/-- In `knl_close_device` of `d`. -/
def closes (d : Nat) : ReqPc → Prop
  | abort d' | check d' | waiSem d' | clear d' | rest d' | aborted d' _ | done d' => d' = d
  | _ => False

variable {d : Nat} {pc : ReqPc}

theorem closes.on (h : pc.closes d) : pc.on = some d := by
  cases pc <;> first | exact congrArg some h | cases h

theorem not_closes_of_on (h : pc.on ≠ some d) : ¬ pc.closes d := fun hc => h hc.on

theorem closes.not_inCall (h : pc.closes d) : ¬ pc.inCall d := by
  cases pc <;> first | exact id | cases h

theorem past.closes (h : pc.past d) : pc.closes d := by
  cases pc <;> first | exact h | cases h

/-- How far the task that closes `d` has come, where `calls` are the tasks in a call. -/
def Stage (d : Nat) (o : OpnReq) (calls : Tid → Prop) : ReqPc → Prop
  | abort d' => d' = d → o.abortTskid = none ∧ o.sem = some 0
  | check d' | waiSem d' => d' = d → o.abortTskid ≠ none ∧
      ∃ n m : Nat, Tally n calls ∧ o.abortCnt = n ∧ o.sem = some m ∧ (0 < m → n = 0)
  | clear d' | rest d' | done d' => d' = d → ∀ u, ¬ calls u
  | aborted d' i => d' = d → (∀ u, ¬ calls u) ∧ i ∈ o.requestq
  | _ => True

theorem Stage.of_not_closes {o : OpnReq} {calls : Tid → Prop} (h : ¬ pc.closes d) :
    Stage d o calls pc := by
  cases pc with
  | aborted d' i => exact fun hd => absurd hd h
  | idle => trivial
  | exec d' i => trivial
  | wait d' reqid h' n => trivial
  | _ => exact fun hd => absurd hd h

theorem Stage.none_of_past {o : OpnReq} {calls : Tid → Prop} (h : Stage d o calls pc)
    (hp : pc.past d) : ∀ u, ¬ calls u := by
  cases pc with
  | clear d' => exact h hp
  | rest d' => exact h hp
  | aborted d' i => exact (h hp).1
  | done d' => exact h hp
  | _ => cases hp

/-- The same calls, and the fields that count unchanged. -/
theorem Stage.congr {o o' : OpnReq} {calls calls' : Tid → Prop} (h : Stage d o calls pc)
    (hcalls : ∀ u, calls' u ↔ calls u) (htsk : o'.abortTskid = o.abortTskid)
    (hcnt : o'.abortCnt = o.abortCnt) (hsem : o'.sem = o.sem)
    (hq : ∀ i, pc = .aborted d i → i ∈ o'.requestq) : Stage d o' calls' pc := by
  have heq : calls' = calls := funext fun u => propext (hcalls u)
  subst heq
  cases pc with
  | abort d' =>
    intro hd
    rw [htsk, hsem]
    exact h hd
  | check d' =>
    intro hd
    rw [htsk, hsem, hcnt]
    exact h hd
  | waiSem d' =>
    intro hd
    rw [htsk, hsem, hcnt]
    exact h hd
  | aborted d' i =>
    intro hd
    refine ⟨(h hd).1, hq i ?_⟩
    rw [hd]
  | _ => exact h

/-- A call returns, and `abort_cnt` and `abort_semid` hear of it. -/
theorem Stage.leave {o : OpnReq} {calls calls' : Tid → Prop} {t : Tid} (h : Stage d o calls pc)
    (ht : calls t) (hcalls : ∀ u, calls' u ↔ calls u ∧ u ≠ t) :
    Stage d o.notifyAbort calls' pc := by
  have counting : (o.abortTskid ≠ none ∧
      ∃ n m : Nat, Tally n calls ∧ o.abortCnt = n ∧ o.sem = some m ∧ (0 < m → n = 0)) →
      (o.notifyAbort.abortTskid ≠ none ∧ ∃ n m : Nat, Tally n calls' ∧
        o.notifyAbort.abortCnt = n ∧ o.notifyAbort.sem = some m ∧ (0 < m → n = 0)) := by
    rintro ⟨htsk, n, m, htally, hcnt, hsem, hm⟩
    have hpos := htally.pos ht
    have hm0 : m = 0 := by omega
    subst hm0
    unfold OpnReq.notifyAbort
    rw [if_neg htsk]
    refine ⟨htsk, n - 1, ?_⟩
    have hcnt' : o.abortCnt - 1 = ((n - 1 : Nat) : Int) := by omega
    by_cases hz : o.abortCnt - 1 = 0
    · refine ⟨1, htally.leave ht hcalls, hcnt', ?_, fun _ => by omega⟩
      show (if o.abortCnt - 1 = 0 then o.sem.map fun n => min 1 (n + 1) else o.sem) = some 1
      rw [if_pos hz, hsem]
      rfl
    · refine ⟨0, htally.leave ht hcalls, hcnt', ?_, fun hlt => absurd hlt (Nat.lt_irrefl 0)⟩
      show (if o.abortCnt - 1 = 0 then o.sem.map fun n => min 1 (n + 1) else o.sem) = some 0
      rw [if_neg hz, hsem]
  cases pc with
  | abort d' =>
    intro hd
    obtain ⟨htsk, hsem⟩ := h hd
    unfold OpnReq.notifyAbort
    rw [if_pos htsk]
    exact ⟨htsk, hsem⟩
  | check d' => exact fun hd => counting (h hd)
  | waiSem d' => exact fun hd => counting (h hd)
  | clear d' => exact fun hd => absurd ht (h hd t)
  | rest d' => exact fun hd => absurd ht (h hd t)
  | done d' => exact fun hd => absurd ht (h hd t)
  | aborted d' i => exact fun hd => absurd ht ((h hd).1 t)
  | idle => trivial
  | exec d' i => trivial
  | wait d' reqid h' n => trivial

end ReqPc

/-- The task that closes a descriptor. -/
structure CloserOk (d : Nat) (o : OpnReq) (pc : Tid → ReqPc) : Prop where
  alone : ∀ t u, (pc t).closes d → (pc u).closes d → t = u
  closed : ∀ t, (pc t).closes d → o.resid = false
  opened : o.resid = true → o.abortTskid = none ∧ o.sem = some 0
  stage : ∀ t, (pc t).Stage d o fun u => (pc u).inCall d

namespace CloserOk

variable {d i : Nat} {o o' : OpnReq} {pc : Tid → ReqPc} {t : Tid} {v : ReqPc}

theorem not_closes (h : CloserOk d o pc) (hr : o.resid = true) (t : Tid) :
    ¬ (pc t).closes d := by
  intro ht
  rw [h.closed t ht] at hr
  cases hr

/-- Nobody closes the descriptor. -/
theorem of_not_closes (hnone : ∀ u, ¬ (pc u).closes d)
    (hopen : o.resid = true → o.abortTskid = none ∧ o.sem = some 0) : CloserOk d o pc where
  alone t _ ht := absurd ht (hnone t)
  closed t ht := absurd ht (hnone t)
  opened := hopen
  stage t := ReqPc.Stage.of_not_closes (hnone t)

/-- A call begins on a descriptor that is open. -/
theorem enter (h : CloserOk d o pc) (hr : o.resid = true) (hv : ¬ v.closes d)
    (htsk : o'.abortTskid = o.abortTskid) (hsem : o'.sem = o.sem) :
    CloserOk d o' (Function.update pc t v) := by
  apply of_not_closes
  · intro u
    rw [update_iff_of_not (h.not_closes hr t) hv]
    exact h.not_closes hr u
  · intro _
    rw [htsk, hsem]
    exact h.opened hr

/-- A task that neither closes the descriptor nor is in a call for it. -/
theorem frame (h : CloserOk d o pc) (ht : ¬ (pc t).closes d ∧ ¬ (pc t).inCall d)
    (hv : ¬ v.closes d ∧ ¬ v.inCall d) : CloserOk d o (Function.update pc t v) := by
  have hcl : ∀ u, (Function.update pc t v u).closes d ↔ (pc u).closes d :=
    fun u => update_iff_of_not ht.1 hv.1
  constructor
  case alone => exact fun u w hu hw => h.alone u w ((hcl u).1 hu) ((hcl w).1 hw)
  case closed => exact fun u hu => h.closed u ((hcl u).1 hu)
  case opened => exact h.opened
  case stage =>
    intro u
    by_cases hut : u = t
    · subst hut
      rw [Function.update_self]
      exact .of_not_closes hv.1
    · rw [Function.update_of_ne hut]
      refine (h.stage u).congr (fun w => update_iff_of_not ht.2 hv.2) rfl rfl rfl ?_
      intro i hi
      have hst := h.stage u
      rw [hi] at hst
      exact (hst rfl).2

/-- The call of `t` returns. -/
theorem leave (h : CloserOk d o pc) (ht : (pc t).inCall d)
    (hv : ¬ v.closes d ∧ ¬ v.inCall d) : CloserOk d o.notifyAbort (Function.update pc t v) := by
  have hnot : ¬ (pc t).closes d := fun hc => hc.not_inCall ht
  have hcl : ∀ u, (Function.update pc t v u).closes d ↔ (pc u).closes d :=
    fun u => update_iff_of_not hnot hv.1
  have hres : o.notifyAbort.resid = o.resid := by
    unfold OpnReq.notifyAbort
    split <;> rfl
  constructor
  case alone => exact fun u w hu hw => h.alone u w ((hcl u).1 hu) ((hcl w).1 hw)
  case closed =>
    intro u hu
    rw [hres]
    exact h.closed u ((hcl u).1 hu)
  case opened =>
    intro hr
    rw [hres] at hr
    obtain ⟨htsk, hsem⟩ := h.opened hr
    unfold OpnReq.notifyAbort
    rw [if_pos htsk]
    exact ⟨htsk, hsem⟩
  case stage =>
    intro u
    by_cases hut : u = t
    · subst hut
      rw [Function.update_self]
      exact .of_not_closes hv.1
    · rw [Function.update_of_ne hut]
      exact (h.stage u).leave ht fun w => update_iff_and hv.2

/-- The task that closes the descriptor, or is to close it, goes on. -/
theorem phase (h : CloserOk d o pc) (ht : (pc t).closes d ∨ (∀ u, ¬ (pc u).closes d))
    (htc : ¬ (pc t).inCall d) (hv : ¬ v.inCall d) (hclosed : v.closes d → o'.resid = false)
    (hopen : o'.resid = true → o'.abortTskid = none ∧ o'.sem = some 0)
    (hstage : v.Stage d o' fun u => (pc u).inCall d) :
    CloserOk d o' (Function.update pc t v) := by
  have others : ∀ u, u ≠ t → ¬ (pc u).closes d := by
    intro u hut hu
    rcases ht with ht | hnone
    · exact hut (h.alone u t hu ht)
    · exact hnone u hu
  have mine : ∀ u, (Function.update pc t v u).closes d → u = t ∧ v.closes d := by
    intro u hu
    by_cases hut : u = t
    · subst hut
      rw [Function.update_self] at hu
      exact ⟨rfl, hu⟩
    · rw [Function.update_of_ne hut] at hu
      exact absurd hu (others u hut)
  constructor
  case alone => exact fun u w hu hw => (mine u hu).1.trans (mine w hw).1.symm
  case closed => exact fun u hu => hclosed (mine u hu).2
  case opened => exact hopen
  case stage =>
    intro u
    have hcalls : ∀ w, (Function.update pc t v w).inCall d ↔ (pc w).inCall d :=
      fun w => update_iff_of_not htc hv
    by_cases hut : u = t
    · subst hut
      rw [Function.update_self]
      refine hstage.congr hcalls rfl rfl rfl ?_
      rintro i rfl
      exact (hstage rfl).2
    · rw [Function.update_of_ne hut]
      exact .of_not_closes (others u hut)

/-- A request is deleted that no abort has taken up. -/
theorem drop (h : CloserOk d o pc) (hi : ∀ t, pc t ≠ .aborted d i) :
    CloserOk d { o with requestq := o.requestq.erase i } pc where
  alone := h.alone
  closed := h.closed
  opened := h.opened
  stage t := by
    refine (h.stage t).congr (fun _ => Iff.rfl) rfl rfl rfl ?_
    intro j hj
    have hst := h.stage t
    rw [hj] at hst
    have hne : j ≠ i := by
      rintro rfl
      exact hi t hj
    exact (List.mem_erase_of_ne hne).2 (hst rfl).2

end CloserOk

end Mtk3Smp
