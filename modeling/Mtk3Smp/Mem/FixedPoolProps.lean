import Mtk3Smp.Mem.FixedPoolParts

/-!
# What a fixed-size pool keeps

One lemma for each step of the calls, and what holds in every state of a run.
-/

namespace Mtk3Smp

open Gcb

/-- Where the holder of the lock is. -/
def MpfSys.inLock (s : MpfSys) : MpfPc :=
  match s.lock with
  | some t => s.pc t
  | none => .user

structure MpfInv (c : Cmpf) (s : MpfSys) : Prop where
  mem : ∃ fl k, MpfMem c s.mem s.freelist s.unused s.frbcnt s.outstanding s.inLock.takes
    s.inLock.adj fl k
  pcs : MpfPcs s.lock s.back s.waitQueue s.pc
  waits : s.waitQueue ≠ [] → s.frbcnt = 0
  frees : s.inLock.frees = true → s.waitQueue = []
  full : ∀ tmout, s.inLock = .wait tmout → s.frbcnt ≤ 0
  result : ∀ e b, s.inLock = .unlock e (some b) → c.Inside b
  handed : ∀ r ∈ s.ret, ∀ b, r.2.2 = some b → c.Inside b

section

variable {c : Cmpf} {s s' : MpfSys} {t u : Tid} {p : MpfPc} {blf : Nat} {tmout : Tmo}

theorem inLock_of_lock (h : s.lock = some t) : s.inLock = s.pc t := by
  unfold MpfSys.inLock
  rw [h]

theorem inLock_of_none (h : s.lock = none) : s.inLock = .user := by
  unfold MpfSys.inLock
  rw [h]

theorem inLock_congr (hl : s'.lock = s.lock) (hpc : ∀ t, s.lock = some t → s'.pc t = s.pc t) :
    s'.inLock = s.inLock := by
  unfold MpfSys.inLock
  rw [hl]
  cases hs : s.lock with
  | none => rfl
  | some t => exact hpc t hs

/-- A step of a task without the lock, or an end of a wait. -/
theorem MpfInv.outside (h : MpfInv c s) (hin : s'.inLock = s.inLock)
    (hmem : ∃ fl k, MpfMem c s'.mem s'.freelist s'.unused s'.frbcnt s'.outstanding s'.inLock.takes
      s'.inLock.adj fl k)
    (hfrb : s'.frbcnt = s.frbcnt)
    (hpcs : MpfPcs s'.lock s'.back s'.waitQueue s'.pc)
    (hq : s.waitQueue = [] → s'.waitQueue = [])
    (hret : ∀ r ∈ s'.ret, r ∈ s.ret ∨ r.2.2 = none) : MpfInv c s' := by
  refine ⟨hmem, hpcs, fun hne => ?_, fun hf => ?_, fun tmout hw => ?_, fun e b hr => ?_,
    fun r hr b hb => ?_⟩
  · rw [hfrb]
    exact h.waits fun hnil => hne (hq hnil)
  · rw [hin] at hf
    exact hq (h.frees hf)
  · rw [hfrb]
    exact h.full tmout (hin ▸ hw)
  · exact h.result e b (hin ▸ hr)
  · rcases hret r hr with hr | hnone
    · exact h.handed r hr b hb
    · rw [hnone] at hb
      cases hb

/-- The task goes on without the lock. -/
theorem MpfInv.goto_outside (h : MpfInv c s) (ha : (s.pc t).locked = false)
    (hp : p.locked = false) (hgives : p.gives = none) (hb : s.pc t ≠ .blocked) :
    MpfInv c (s.goto t p) := by
  have hnot : s.lock ≠ some t := fun he => by
    rw [(h.pcs.locks t).2 he] at ha
    cases ha
  have hin : (s.goto t p).inLock = s.inLock := by
    refine inLock_congr rfl fun u hu => ?_
    have hut : u ≠ t := fun he => hnot (he ▸ hu)
    exact Function.update_of_ne hut _ _
  refine h.outside hin ?_ rfl (h.pcs.outside ha hp hgives hb) id fun r hr => Or.inl hr
  rw [hin]
  exact h.mem

theorem MpfInv.lock_ne (h : MpfInv c s) (ha : (s.pc t).locked = false) : s.lock ≠ some t := by
  intro he
  rw [(h.pcs.locks t).2 he] at ha
  cases ha

theorem MpfInv.tkRelMpf (h : MpfInv c s) (hblk : 0 < c.blk) (hp : s.pc t = .user)
    (hb : blf ∈ s.held) :
    MpfInv c ({ s with held := s.held.erase blf, back := blf :: s.back }.goto t (.rel blf)) := by
  obtain ⟨fl, k, hmem⟩ := h.mem
  have hnd := hmem.nodup hblk
  have hback : blf ∉ s.back := fun hin => by
    have hout : (s.held ++ s.back).Nodup :=
      hnd.sublist ((List.sublist_append_right _ _).trans (List.sublist_append_right _ _))
    exact (List.nodup_append.1 hout).2.2 blf hb blf hin rfl
  have hin : ({ s with held := s.held.erase blf, back := blf :: s.back }.goto t (.rel blf)).inLock =
      s.inLock := by
    refine inLock_congr rfl fun u hu => ?_
    have hut : u ≠ t := fun he => h.lock_ne (t := t) (by rw [hp]; rfl) (he ▸ hu)
    exact Function.update_of_ne hut _ _
  refine h.outside hin ⟨fl, k, ?_⟩ rfl (h.pcs.giveBack hp hback) id fun r hr => Or.inl hr
  rw [hin]
  refine hmem.perm ?_
  have hheld : (blf :: s.held.erase blf).Perm s.held := (List.perm_cons_erase hb).symm
  exact List.perm_middle.trans (hheld.append_right s.back)

/-- A waiting task leaves the queue without a block. -/
theorem MpfInv.leave (h : MpfInv c s) (hp : s.pc t = .blocked)
    {ret : List (Tid × ER × Option Nat)} (hret : ∀ r ∈ ret, r ∈ s.ret ∨ r.2.2 = none) :
    MpfInv c { s with
      waitQueue := queRemove t s.waitQueue, ret := ret, pc := Function.update s.pc t .user } := by
  have hin : ({ s with
      waitQueue := queRemove t s.waitQueue, ret := ret
      pc := Function.update s.pc t .user } : MpfSys).inLock = s.inLock := by
    refine inLock_congr rfl fun u hu => ?_
    have hut : u ≠ t := fun he => h.lock_ne (t := t) (by rw [hp]; rfl) (he ▸ hu)
    exact Function.update_of_ne hut _ _
  have hsub : (queRemove t s.waitQueue).Sublist s.waitQueue := List.eraseP_sublist
  refine h.outside hin ?_ rfl (h.pcs.leave hp (fun y hy => (mem_queRemove h.pcs.nodup).1 hy)
    (h.pcs.nodup.sublist (hsub.map _))) (fun hnil => ?_) hret
  · rw [hin]
    exact h.mem
  · have hsub : (queRemove t s.waitQueue).Sublist [] := hnil ▸ hsub
    exact List.sublist_nil.1 hsub

theorem MpfInv.endWait (h : MpfInv c s) (hw : waiting t s.waitQueue = true) (e : ER) :
    MpfInv c (s.endWait t e) := by
  obtain ⟨x, hx, he⟩ := List.any_eq_true.1 hw
  have hp : s.pc t = .blocked := eq_of_beq he ▸ h.pcs.queue x hx
  refine h.leave hp fun r hr => ?_
  rcases List.mem_append.1 hr with hr | hr
  · exact Or.inl hr
  · rw [List.mem_singleton.1 hr]
    exact Or.inr rfl

/-- The block of a call that tk_ter_tsk ends stays outstanding. -/
theorem MpfInv.keep (h : MpfInv c s) (hp : s.pc t = .rel blf) :
    MpfInv c ((s.keep blf).goto t .user) := by
  have hb : blf ∈ s.back := h.pcs.gives t blf (by rw [hp]; rfl)
  obtain ⟨fl, k, hmem⟩ := h.mem
  have hin : ((s.keep blf).goto t .user).inLock = s.inLock := by
    refine inLock_congr rfl fun u hu => ?_
    have hut : u ≠ t := fun he => h.lock_ne (t := t) (by rw [hp]; rfl) (he ▸ hu)
    exact Function.update_of_ne hut _ _
  refine h.outside hin ⟨fl, k, ?_⟩ rfl ?_ id fun r hr => Or.inl hr
  · rw [hin]
    refine hmem.perm ?_
    exact List.perm_middle.symm.trans ((List.perm_cons_erase hb).symm.append_left s.held)
  · refine h.pcs.move ?_ (fun _ _ => Iff.rfl) (fun x hx => by cases hx)
      (h.pcs.back_erase (by rw [hp]; rfl) rfl) (h.pcs.ne_of_mem (by simp [hp])) h.pcs.nodup
    exact iff_of_false Bool.false_ne_true (h.lock_ne (by rw [hp]; rfl))

theorem MpfInv.terTsk (h : MpfInv c s) (hl : s.lock ≠ some t) : MpfInv c (s.terTsk t) := by
  have ha : (s.pc t).locked = false := by
    by_contra hne
    exact hl ((h.pcs.locks t).1 (by simpa using hne))
  unfold MpfSys.terTsk
  cases hp : s.pc t with
  | rel blf => exact h.keep hp
  | blocked => exact h.leave hp fun r hr => Or.inl hr
  | _ => exact h.goto_outside ha rfl rfl (by simp [hp])

theorem MpfInv.chgPri (h : MpfInv c s) (t : Tid) (priority : Nat) :
    MpfInv c (s.chgPri c t priority) := by
  unfold MpfSys.chgPri
  dsimp only
  split
  · have hperm : (Gcb.knlGcbChangePriority (Function.update s.priority t priority) t
      s.waitQueue).Perm s.waitQueue := perm_changePriority t s.waitQueue
    refine h.outside rfl h.mem rfl ⟨h.pcs.locks, h.pcs.gives, h.pcs.apart,
      fun x hx => h.pcs.queue x (hperm.mem_iff.1 hx), (hperm.map _).nodup_iff.2 h.pcs.nodup⟩
      (fun hnil => ?_) fun r hr => Or.inl hr
    exact List.Perm.eq_nil (hnil ▸ hperm)
  · exact h.outside rfl h.mem rfl h.pcs id fun r hr => Or.inl hr

theorem MpfInv.write (h : MpfInv c s) (hblk : 0 < c.blk) (hb : blf ∈ s.held) (v : Option Nat) :
    MpfInv c { s with mem := Function.update s.mem blf v } := by
  obtain ⟨fl, k, hmem⟩ := h.mem
  exact h.outside rfl ⟨fl, k, hmem.write hblk (List.mem_append_left _ hb) v⟩ rfl h.pcs id
    fun r hr => Or.inl hr

/-! ### Steps under the object lock -/

/-- After a step of the holder `t` to `p`. -/
theorem MpfInv.holder (hl : s'.lock = some t) (hpc : s'.pc t = p)
    (hmem : ∃ fl k, MpfMem c s'.mem s'.freelist s'.unused s'.frbcnt s'.outstanding p.takes p.adj
      fl k)
    (hpcs : MpfPcs s'.lock s'.back s'.waitQueue s'.pc)
    (hwaits : s'.waitQueue ≠ [] → s'.frbcnt = 0) (hfrees : p.frees = true → s'.waitQueue = [])
    (hfull : ∀ tmout, p = .wait tmout → s'.frbcnt ≤ 0)
    (hresult : ∀ e b, p = .unlock e (some b) → c.Inside b)
    (hhanded : ∀ r ∈ s'.ret, ∀ b, r.2.2 = some b → c.Inside b) : MpfInv c s' := by
  have hin : s'.inLock = p := (inLock_of_lock hl).trans hpc
  refine ⟨?_, hpcs, hwaits, ?_, ?_, ?_, hhanded⟩
  · rw [hin]
    exact hmem
  · rw [hin]
    exact hfrees
  · rw [hin]
    exact hfull
  · rw [hin]
    exact hresult

theorem MpfInv.lock_of (h : MpfInv c s) (hp : (s.pc t).locked = true) : s.lock = some t :=
  (h.pcs.locks t).1 hp

/-- The memory as the holder of the lock sees it. -/
theorem MpfInv.mem_of (h : MpfInv c s) (hp : (s.pc t).locked = true) :
    ∃ fl k, MpfMem c s.mem s.freelist s.unused s.frbcnt s.outstanding (s.pc t).takes (s.pc t).adj
      fl k := by
  have hmem := h.mem
  rwa [inLock_of_lock (h.lock_of hp)] at hmem

/-- The holder goes on with the lock, and gives back nothing that it did not. -/
theorem MpfInv.pcs_of (h : MpfInv c s) (ha : (s.pc t).locked = true) (hp : p.locked = true)
    (hgives : ∀ x, p.gives = some x → (s.pc t).gives = some x) :
    MpfPcs s.lock s.back s.waitQueue (Function.update s.pc t p) := by
  have hl := h.lock_of ha
  refine h.pcs.move ?_ (fun _ _ => Iff.rfl) hgives (fun _ _ _ hx => hx) (h.pcs.ne_of_mem ?_)
    h.pcs.nodup
  · rw [hl]
    exact iff_of_true hp rfl
  · intro hb
    rw [hb] at ha
    cases ha

/-- `knl_LockOBJ` -/
theorem MpfInv.lockObj (h : MpfInv c s) (hl : s.lock = none) (hb : s.pc t ≠ .blocked)
    (hp : p.locked = true) (hgives : ∀ x, p.gives = some x → (s.pc t).gives = some x)
    (htakes : p.takes = []) (hadj : p.adj = 0) (hfrees : p.frees = false)
    (hnot : (∀ tmout, p ≠ .wait tmout) ∧ ∀ e b, p ≠ .unlock e (some b)) :
    MpfInv c ({ s with lock := some t }.goto t p) := by
  have hmem := h.mem
  rw [inLock_of_none hl] at hmem
  refine MpfInv.holder rfl (Function.update_self _ _ _) ?_ ?_ h.waits ?_ ?_ ?_ h.handed
  · rw [htakes, hadj]
    exact hmem
  · refine h.pcs.move (iff_of_true hp rfl) (fun u hu => ?_) hgives (fun _ _ _ hx => hx)
      (h.pcs.ne_of_mem hb) h.pcs.nodup
    show some t = some u ↔ s.lock = some u
    rw [hl]
    simp [Ne.symm hu]
  · intro hf
    rw [hfrees] at hf
    cases hf
  · exact fun tmout hw => absurd hw (hnot.1 tmout)
  · exact fun e b hr => absurd hr (hnot.2 e b)

/-- `knl_UnlockOBJ` at the end of a call. -/
theorem MpfInv.unlock (h : MpfInv c s) (ha : (s.pc t).locked = true) (htakes : (s.pc t).takes = [])
    (hadj : (s.pc t).adj = 0) {e : ER} {b : Option Nat} (hb : ∀ x, b = some x → c.Inside x) :
    MpfInv c ({ s with lock := none }.retd t e b) := by
  have hl := h.lock_of ha
  have hin : ({ s with lock := none }.retd t e b).inLock = .user := inLock_of_none rfl
  obtain ⟨fl, k, hmem⟩ := h.mem_of ha
  rw [htakes, hadj] at hmem
  refine ⟨?_, ?_, h.waits, ?_, ?_, ?_, fun r hr x hx => ?_⟩
  · rw [hin]
    exact ⟨fl, k, hmem⟩
  · refine h.pcs.move (iff_of_false Bool.false_ne_true (Option.some_ne_none t).symm)
      (fun u hu => ?_) (fun x hx => by cases hx) (fun _ _ _ hx => hx)
      (h.pcs.ne_of_mem fun hbl => ?_) h.pcs.nodup
    · show none = some u ↔ s.lock = some u
      rw [hl]
      simp [Ne.symm hu]
    · rw [hbl] at ha
      cases ha
  · rw [hin]
    exact fun hf => by cases hf
  · rw [hin]
    exact fun tmout hw => by cases hw
  · rw [hin]
    exact fun e b hr => by cases hr
  · rcases List.mem_append.1 hr with hr | hr
    · exact h.handed r hr x hx
    · rw [List.mem_singleton.1 hr] at hx
      exact hb x hx

theorem MpfInv.inGet (ok : c.accepted = true) (hp : c.Placed) (hfits : c.Fits) (h : MpfInv c s)
    (hpc : s.pc t = .inGet tmout) (hs : s.go c t = some s') : MpfInv c s' := by
  obtain ⟨-, -, hblk, -⟩ := c.toNat_of_accepted ok
  have ha : (s.pc t).locked = true := by rw [hpc]; rfl
  have hl := h.lock_of ha
  obtain ⟨fl, k, hmem⟩ := h.mem_of ha
  rw [hpc] at hmem
  have hpcs : ∀ q : MpfPc, q.locked = true → q.gives = none →
      MpfPcs s.lock s.back s.waitQueue (Function.update s.pc t q) := fun q hq hg =>
    h.pcs_of ha hq fun x hx => by
      rw [hg] at hx
      cases hx
  simp only [MpfSys.go, hpc] at hs
  by_cases hex : s.exists_ = true
  swap
  · rw [if_pos (by simpa using hex)] at hs
    obtain rfl := Option.some.inj hs
    exact MpfInv.holder hl (Function.update_self _ _ _) ⟨fl, k, hmem⟩ (hpcs _ rfl rfl) h.waits
      (fun hf => by cases hf) (fun _ hw => by cases hw) (fun _ _ hr => by cases hr) h.handed
  rw [if_neg (by simpa using hex)] at hs
  by_cases hfrb : s.frbcnt ≤ 0
  · rw [if_pos hfrb] at hs
    obtain rfl := Option.some.inj hs
    exact MpfInv.holder hl (Function.update_self _ _ _) ⟨fl, k, hmem⟩ (hpcs _ rfl rfl) h.waits
      (fun hf => by cases hf) (fun _ _ => hfrb) (fun _ _ hr => by cases hr) h.handed
  rw [if_neg hfrb] at hs
  cases hfree : s.freelist with
  | some b =>
    rw [hfree] at hs hmem
    obtain rfl := Option.some.inj hs
    obtain ⟨fl', hpop⟩ := hmem.pop
    exact MpfInv.holder hl (Function.update_self _ _ _) ⟨fl', k, hpop⟩ (hpcs _ rfl rfl) h.waits
      (fun hf => by cases hf) (fun _ hw => by cases hw) (fun _ _ hr => by cases hr) h.handed
  | none =>
    rw [hfree] at hs hmem
    obtain rfl := Option.some.inj hs
    have hcarve := hmem.carve hp hfits (by omega) hblk
    exact MpfInv.holder hl (Function.update_self _ _ _) ⟨fl, k + 1, hcarve⟩ (hpcs _ rfl rfl)
      h.waits (fun hf => by cases hf) (fun _ hw => by cases hw) (fun _ _ hr => by cases hr) h.handed

theorem MpfInv.taken (hp : c.Placed) (hfits : c.Fits) (h : MpfInv c s) (hpc : s.pc t = .taken blf) :
    MpfInv c ({ s with frbcnt := s.frbcnt - 1, held := blf :: s.held }.goto t
      (.unlock .E_OK (some blf))) := by
  have ha : (s.pc t).locked = true := by rw [hpc]; rfl
  obtain ⟨fl, k, hmem⟩ := h.mem_of ha
  rw [hpc] at hmem
  have hpos : 1 ≤ s.frbcnt := hmem.nonneg
  have hin : c.Inside blf := by
    obtain ⟨i, hi, rfl⟩ := hmem.mem_addr (b := blf)
      (List.mem_append_right _ (List.mem_append_left _ (List.mem_singleton.2 rfl)))
    exact c.addr_inside hp hfits hi
  refine MpfInv.holder (h.lock_of ha) (Function.update_self _ _ _) ⟨fl, k, hmem.take⟩
    (h.pcs_of ha rfl fun x hx => by cases hx) (fun hne => ?_) (fun hf => by cases hf)
    (fun _ hw => by cases hw) (fun e b hr => ?_) h.handed
  · have := h.waits hne
    omega
  · obtain ⟨-, he⟩ := MpfPc.unlock.inj hr
    obtain rfl := Option.some.inj he
    exact hin

theorem MpfInv.wait (h : MpfInv c s) (hpc : s.pc t = .wait tmout) :
    MpfInv c ({ s with
      waitQueue := knlGcbMakeWait c.tpri s.priority ⟨t, tmout, ()⟩ s.waitQueue
      lock := none }.goto t .blocked) := by
  have ha : (s.pc t).locked = true := by rw [hpc]; rfl
  have hl := h.lock_of ha
  obtain ⟨fl, k, hmem⟩ := h.mem_of ha
  rw [hpc] at hmem
  have hin : ({ s with
      waitQueue := knlGcbMakeWait c.tpri s.priority ⟨t, tmout, ()⟩ s.waitQueue
      lock := none }.goto t .blocked).inLock = .user := inLock_of_none rfl
  have hzero : s.frbcnt = 0 := by
    have hle := h.full tmout ((inLock_of_lock hl).trans hpc)
    have hge : 0 ≤ s.frbcnt := hmem.nonneg
    omega
  have hpcs := h.pcs
  rw [hl] at hpcs
  refine ⟨?_, hpcs.wait (x := ⟨t, tmout, ()⟩) (fun x hx => (h.pcs.ne_of_mem (by simp [hpc]) x hx).2)
    rfl (perm_makeWait _ _), fun _ => hzero, ?_, ?_, ?_, h.handed⟩
  · rw [hin]
    exact ⟨fl, k, hmem⟩
  · rw [hin]
    exact fun hf => by cases hf
  · rw [hin]
    exact fun tmout hw => by cases hw
  · rw [hin]
    exact fun e b hr => by cases hr

/-- tk_rel_mpf fails. -/
theorem MpfInv.refused (h : MpfInv c s) (hpc : s.pc t = .inRel blf) (e : ER) :
    MpfInv c ((s.keep blf).goto t (.unlock e none)) := by
  have ha : (s.pc t).locked = true := by rw [hpc]; rfl
  have hl := h.lock_of ha
  obtain ⟨fl, k, hmem⟩ := h.mem_of ha
  rw [hpc] at hmem
  have hb : blf ∈ s.back := h.pcs.gives t blf (by rw [hpc]; rfl)
  refine MpfInv.holder hl (Function.update_self _ _ _) ⟨fl, k, hmem.perm ?_⟩ ?_ h.waits
    (fun hf => by cases hf) (fun _ hw => by cases hw) (fun _ _ hr => by cases hr) h.handed
  · exact List.perm_middle.symm.trans ((List.perm_cons_erase hb).symm.append_left s.held)
  · refine h.pcs.move ?_ (fun _ _ => Iff.rfl) (fun x hx => by cases hx)
      (h.pcs.back_erase (by rw [hpc]; rfl) rfl) (h.pcs.ne_of_mem (by simp [hpc])) h.pcs.nodup
    exact iff_of_true rfl hl

/-- The first waiting task gets the block. -/
theorem MpfInv.handOver (hp : c.Placed) (hfits : c.Fits) (h : MpfInv c s) (hpc : s.pc t = .give blf)
    {x : Waiter Unit} {rest : List (Waiter Unit)} (hq : s.waitQueue = x :: rest) :
    MpfInv c ((s.handOver x rest blf).goto t (.unlock .E_OK none)) := by
  have ha : (s.pc t).locked = true := by rw [hpc]; rfl
  have hl := h.lock_of ha
  obtain ⟨fl, k, hmem⟩ := h.mem_of ha
  rw [hpc] at hmem
  have hb : blf ∈ s.back := h.pcs.gives t blf (by rw [hpc]; rfl)
  have hx : s.pc x.tsk = .blocked := h.pcs.queue x (by rw [hq]; exact List.mem_cons_self)
  have hne : t ≠ x.tsk := fun he => by
    rw [← he, hpc] at hx
    cases hx
  have hnd := h.pcs.nodup
  rw [hq, List.map_cons, List.nodup_cons] at hnd
  have hpcs : MpfPcs s.lock s.back rest (Function.update s.pc x.tsk .user) := by
    refine h.pcs.leave hx (fun y hy => ⟨by rw [hq]; exact List.mem_cons_of_mem _ hy, fun he => ?_⟩)
      hnd.2
    exact hnd.1 (List.mem_map.2 ⟨y, hy, he⟩)
  have hpt : Function.update s.pc x.tsk .user t = .give blf := by
    rw [Function.update_of_ne hne, hpc]
  refine MpfInv.holder hl (Function.update_self _ _ _) ⟨fl, k, hmem.perm ?_⟩ ?_ (fun hnil => ?_)
    (fun hf => by cases hf) (fun _ hw => by cases hw) (fun _ _ hr => by cases hr) fun r hr b hrb => ?_
  · exact List.perm_middle.symm.trans ((List.perm_cons_erase hb).symm.append_left s.held)
  · refine hpcs.move ?_ (fun _ _ => Iff.rfl) (fun y hy => by cases hy)
      (hpcs.back_erase (by rw [hpt]; rfl) rfl) (hpcs.ne_of_mem (by rw [hpt]; simp)) hpcs.nodup
    exact iff_of_true rfl hl
  · exact h.waits (by rw [hq]; simp)
  · rcases List.mem_append.1 hr with hr | hr
    · exact h.handed r hr b hrb
    · rw [List.mem_singleton.1 hr] at hrb
      obtain rfl := Option.some.inj hrb
      obtain ⟨i, hi, rfl⟩ := hmem.mem_addr (b := blf)
        (List.mem_append_right _ (List.mem_append_right _ (List.mem_append_right _ hb)))
      exact c.addr_inside hp hfits hi

theorem MpfInv.free (hblk : 0 < c.blk) (h : MpfInv c s) (hpc : s.pc t = .free blf) :
    MpfInv c ({ s with
      mem := Function.update s.mem blf s.freelist
      freelist := some blf
      back := s.back.erase blf }.goto t (.freed blf)) := by
  have ha : (s.pc t).locked = true := by rw [hpc]; rfl
  have hl := h.lock_of ha
  obtain ⟨fl, k, hmem⟩ := h.mem_of ha
  rw [hpc] at hmem
  have hb : blf ∈ s.back := h.pcs.gives t blf (by rw [hpc]; rfl)
  have hnil : s.waitQueue = [] := h.frees (by rw [inLock_of_lock hl, hpc]; rfl)
  refine MpfInv.holder hl (Function.update_self _ _ _) ⟨blf :: fl, k, hmem.push hblk ?_⟩ ?_ h.waits
    (fun _ => hnil) (fun _ hw => by cases hw) (fun _ _ hr => by cases hr) h.handed
  · exact List.perm_middle.symm.trans ((List.perm_cons_erase hb).symm.append_left s.held)
  · refine h.pcs.move ?_ (fun _ _ => Iff.rfl) (fun x hx => by cases hx)
      (h.pcs.back_erase (by rw [hpc]; rfl) rfl) (h.pcs.ne_of_mem (by simp [hpc])) h.pcs.nodup
    exact iff_of_true rfl hl

theorem MpfInv.freed (h : MpfInv c s) (hpc : s.pc t = .freed blf) :
    MpfInv c ({ s with frbcnt := s.frbcnt + 1 }.goto t (.unlock .E_OK none)) := by
  have ha : (s.pc t).locked = true := by rw [hpc]; rfl
  have hl := h.lock_of ha
  obtain ⟨fl, k, hmem⟩ := h.mem_of ha
  rw [hpc] at hmem
  have hnil : s.waitQueue = [] := h.frees (by rw [inLock_of_lock hl, hpc]; rfl)
  exact MpfInv.holder hl (Function.update_self _ _ _) ⟨fl, k, hmem.freed⟩
    (h.pcs_of ha rfl fun x hx => by cases hx) (fun hne => absurd hnil hne) (fun hf => by cases hf)
    (fun _ hw => by cases hw) (fun _ _ hr => by cases hr) h.handed

/-- The rounds of `knl_wait_delete`. -/
theorem MpfInv.waitDelete {q : List (Waiter Unit)} (h : MpfInv c s) (hq : s.waitQueue = q) :
    MpfInv c (MpfSys.waitDelete q s) ∧ (MpfSys.waitDelete q s).lock = s.lock ∧
      (MpfSys.waitDelete q s).waitQueue = [] ∧
      ∀ u, s.pc u ≠ .blocked → (MpfSys.waitDelete q s).pc u = s.pc u := by
  induction q generalizing s with
  | nil => exact ⟨h, rfl, hq, fun _ _ => rfl⟩
  | cons x rest ih =>
    have hx : s.pc x.tsk = .blocked := h.pcs.queue x (by rw [hq]; exact List.mem_cons_self)
    have hnd := h.pcs.nodup
    rw [hq, List.map_cons, List.nodup_cons] at hnd
    have hin : ({ s with waitQueue := rest }.retd x.tsk .E_DLT none).inLock = s.inLock := by
      refine inLock_congr rfl fun u hu => ?_
      have hne : u ≠ x.tsk := fun he => h.lock_ne (t := x.tsk) (by rw [hx]; rfl) (he ▸ hu)
      exact Function.update_of_ne hne _ _
    have hround : MpfInv c ({ s with waitQueue := rest }.retd x.tsk .E_DLT none) := by
      refine h.outside hin ?_ rfl ?_ (fun hnil => ?_) fun r hr => ?_
      · rw [hin]
        exact h.mem
      · refine h.pcs.leave hx (fun y hy => ⟨by rw [hq]; exact List.mem_cons_of_mem _ hy, fun he => ?_⟩)
          hnd.2
        exact hnd.1 (List.mem_map.2 ⟨y, hy, he⟩)
      · rw [hnil] at hq
        cases hq
      · rcases List.mem_append.1 hr with hr | hr
        · exact Or.inl hr
        · rw [List.mem_singleton.1 hr]
          exact Or.inr rfl
    obtain ⟨hinv, hlock, hnil, hpc⟩ := ih hround rfl
    refine ⟨hinv, hlock, hnil, fun u hu => ?_⟩
    have hne : u ≠ x.tsk := fun he => hu (he ▸ hx)
    have hsame : ({ s with waitQueue := rest }.retd x.tsk .E_DLT none).pc u = s.pc u :=
      Function.update_of_ne hne _ _
    have hstay := hpc u (by rw [hsame]; exact hu)
    rw [hsame] at hstay
    exact hstay

theorem MpfInv.inDel (h : MpfInv c s) (hpc : s.pc t = .inDel) :
    MpfInv c ({ MpfSys.waitDelete s.waitQueue s with exists_ := false }.goto t (.unlock .E_OK none)) := by
  obtain ⟨hinv, hlock, -, hstay⟩ := h.waitDelete rfl
  have hpt : (MpfSys.waitDelete s.waitQueue s).pc t = .inDel :=
    (hstay t (by simp [hpc])).trans hpc
  have ha : ((MpfSys.waitDelete s.waitQueue s).pc t).locked = true := by rw [hpt]; rfl
  obtain ⟨fl, k, hmem⟩ := hinv.mem_of ha
  rw [hpt] at hmem
  exact MpfInv.holder (hinv.lock_of ha) (Function.update_self _ _ _) ⟨fl, k, hmem⟩
    (hinv.pcs_of ha rfl fun x hx => by cases hx) hinv.waits (fun hf => by cases hf)
    (fun _ hw => by cases hw) (fun _ _ hr => by cases hr) hinv.handed

/-- The holder goes on, and nothing else changes. -/
theorem MpfInv.goto_holder (h : MpfInv c s) (ha : (s.pc t).locked = true) (hp : p.locked = true)
    (hgives : ∀ x, p.gives = some x → (s.pc t).gives = some x)
    (htakes : p.takes = (s.pc t).takes) (hadj : p.adj = (s.pc t).adj)
    (hfrees : p.frees = true → s.waitQueue = [])
    (hnot : (∀ tmout, p ≠ .wait tmout) ∧ ∀ e b, p ≠ .unlock e (some b)) :
    MpfInv c (s.goto t p) := by
  obtain ⟨fl, k, hmem⟩ := h.mem_of ha
  refine MpfInv.holder (h.lock_of ha) (Function.update_self _ _ _) ⟨fl, k, ?_⟩
    (h.pcs_of ha hp hgives) h.waits hfrees (fun tmout hw => absurd hw (hnot.1 tmout))
    (fun e b hr => absurd hr (hnot.2 e b)) h.handed
  rw [htakes, hadj]
  exact hmem

theorem MpfInv.go (ok : c.accepted = true) (hp : c.Placed) (hfits : c.Fits) (h : MpfInv c s)
    (hs : s.go c t = some s') : MpfInv c s' := by
  obtain ⟨-, -, hblk, -⟩ := c.toNat_of_accepted ok
  cases hpc : s.pc t with
  | user => simp [MpfSys.go, hpc] at hs
  | blocked => simp [MpfSys.go, hpc] at hs
  | get tmout =>
    simp only [MpfSys.go, hpc, Option.ite_none_right_eq_some] at hs
    obtain ⟨hl, hs⟩ := hs
    obtain rfl := Option.some.inj hs
    exact h.lockObj hl (by simp [hpc]) rfl (fun x hx => by cases hx) rfl rfl rfl (by simp)
  | rel blf =>
    simp only [MpfSys.go, hpc, Option.ite_none_right_eq_some] at hs
    obtain ⟨hl, hs⟩ := hs
    obtain rfl := Option.some.inj hs
    exact h.lockObj hl (by simp [hpc]) rfl (fun x hx => by rw [hpc]; exact hx) rfl rfl rfl (by simp)
  | del =>
    simp only [MpfSys.go, hpc, Option.ite_none_right_eq_some] at hs
    obtain ⟨hl, hs⟩ := hs
    obtain rfl := Option.some.inj hs
    exact h.lockObj hl (by simp [hpc]) rfl (fun x hx => by cases hx) rfl rfl rfl (by simp)
  | inGet tmout => exact h.inGet ok hp hfits hpc hs
  | taken blf =>
    simp only [MpfSys.go, hpc] at hs
    obtain rfl := Option.some.inj hs
    exact h.taken hp hfits hpc
  | wait tmout =>
    simp only [MpfSys.go, hpc] at hs
    by_cases hpol : tmout = .TMO_POL
    · rw [if_pos hpol] at hs
      obtain rfl := Option.some.inj hs
      exact h.unlock (by rw [hpc]; rfl) (by rw [hpc]; rfl) (by rw [hpc]; rfl) (by simp)
    · rw [if_neg hpol] at hs
      obtain rfl := Option.some.inj hs
      exact h.wait hpc
  | inRel blf =>
    simp only [MpfSys.go, hpc] at hs
    by_cases hex : s.exists_ = true
    swap
    · rw [if_pos (by simpa using hex)] at hs
      obtain rfl := Option.some.inj hs
      exact h.refused hpc _
    rw [if_neg (by simpa using hex)] at hs
    by_cases href : c.refuses blf = true
    · rw [if_pos href] at hs
      obtain rfl := Option.some.inj hs
      exact h.refused hpc _
    · rw [if_neg href] at hs
      obtain rfl := Option.some.inj hs
      exact h.goto_holder (by rw [hpc]; rfl) rfl (fun x hx => by rw [hpc]; exact hx)
        (by rw [hpc]; rfl) (by rw [hpc]; rfl) (fun hf => by cases hf) (by simp)
  | give blf =>
    simp only [MpfSys.go, hpc] at hs
    cases hq : s.waitQueue with
    | nil =>
      rw [hq] at hs
      obtain rfl := Option.some.inj hs
      exact h.goto_holder (by rw [hpc]; rfl) rfl (fun x hx => by rw [hpc]; exact hx)
        (by rw [hpc]; rfl) (by rw [hpc]; rfl) (fun _ => hq) (by simp)
    | cons x rest =>
      rw [hq] at hs
      obtain rfl := Option.some.inj hs
      exact h.handOver hp hfits hpc hq
  | free blf =>
    simp only [MpfSys.go, hpc] at hs
    obtain rfl := Option.some.inj hs
    exact h.free hblk hpc
  | freed blf =>
    simp only [MpfSys.go, hpc] at hs
    obtain rfl := Option.some.inj hs
    exact h.freed hpc
  | inDel =>
    simp only [MpfSys.go, hpc] at hs
    by_cases hex : s.exists_ = true
    · rw [if_neg (by simpa using hex)] at hs
      obtain rfl := Option.some.inj hs
      exact h.inDel hpc
    · rw [if_pos (by simpa using hex)] at hs
      obtain rfl := Option.some.inj hs
      exact h.goto_holder (by rw [hpc]; rfl) rfl (fun x hx => by cases hx) (by rw [hpc]; rfl)
        (by rw [hpc]; rfl) (fun hf => by cases hf) (by simp)
  | unlock e b =>
    simp only [MpfSys.go, hpc] at hs
    obtain rfl := Option.some.inj hs
    have ha : (s.pc t).locked = true := by rw [hpc]; rfl
    refine h.unlock ha (by rw [hpc]; rfl) (by rw [hpc]; rfl) fun x hx => ?_
    exact h.result e x (by rw [inLock_of_lock (h.lock_of ha), hpc, hx])

theorem mpfInv_step (ok : c.accepted = true) (hp : c.Placed) (hfits : c.Fits) (h : MpfInv c s)
    {e : MpfEvent} (hs : s.step c e = some s') : MpfInv c s' := by
  obtain ⟨-, -, hblk, -⟩ := c.toNat_of_accepted ok
  cases e with
  | tkGetMpf t tmout =>
    simp only [MpfSys.step, Option.ite_none_right_eq_some] at hs
    obtain ⟨hpc, hs⟩ := hs
    obtain rfl := Option.some.inj hs
    exact h.goto_outside (by rw [hpc]; rfl) rfl rfl (by simp [hpc])
  | tkRelMpf t blf =>
    simp only [MpfSys.step, Option.ite_none_right_eq_some] at hs
    obtain ⟨⟨hpc, hb⟩, hs⟩ := hs
    obtain rfl := Option.some.inj hs
    exact h.tkRelMpf hblk hpc hb
  | tkDelMpf t =>
    simp only [MpfSys.step, Option.ite_none_right_eq_some] at hs
    obtain ⟨hpc, hs⟩ := hs
    obtain rfl := Option.some.inj hs
    exact h.goto_outside (by rw [hpc]; rfl) rfl rfl (by simp [hpc])
  | go t => exact h.go ok hp hfits hs
  | timeout t =>
    simp only [MpfSys.step, Option.ite_none_right_eq_some] at hs
    obtain ⟨hw, hs⟩ := hs
    obtain rfl := Option.some.inj hs
    obtain ⟨x, hx, he⟩ := List.any_eq_true.1 hw
    exact h.endWait (List.any_eq_true.2 ⟨x, hx, (Bool.and_eq_true_iff.1 he).1⟩) _
  | tkRelWai t =>
    simp only [MpfSys.step, Option.ite_none_right_eq_some] at hs
    obtain ⟨hw, hs⟩ := hs
    obtain rfl := Option.some.inj hs
    exact h.endWait hw _
  | tkTerTsk t =>
    simp only [MpfSys.step, Option.ite_none_left_eq_some] at hs
    obtain ⟨hl, hs⟩ := hs
    obtain rfl := Option.some.inj hs
    exact h.terTsk hl
  | chgPri t priority =>
    obtain rfl := Option.some.inj hs
    exact h.chgPri t priority
  | write blf val =>
    simp only [MpfSys.step, Option.ite_none_right_eq_some] at hs
    obtain ⟨hb, hs⟩ := hs
    obtain rfl := Option.some.inj hs
    exact h.write hblk hb val

theorem mpfInv_created (ok : c.accepted = true) (hp : c.Placed) (priority : Tid → Nat)
    (mem : Nat → Option Nat) (hfits : c.Fits) : MpfInv c (MpfSys.created c priority mem) := by
  obtain ⟨hcnt, hint, hblk, -⟩ := c.toNat_of_accepted ok
  have hlow : c.mempool < 2 ^ 32 := by
    have hcov := c.covers hp hfits
    have hpos := Nat.mul_pos hcnt hblk
    have hrange := hp.range
    omega
  refine ⟨⟨[], 0, rfl, List.Perm.refl _, Nat.zero_le _, ?_, ?_⟩, ⟨?_, ?_, ?_, ?_, List.nodup_nil⟩,
    fun hne => absurd rfl hne, fun _ => rfl, ?_, ?_, ?_⟩
  · rw [Nat.zero_mul, Nat.add_zero, Nat.mod_eq_of_lt hlow]
    rfl
  · show c.mpfcnt.toInt = _
    rw [hint]
    simp [MpfSys.inLock, MpfSys.created, MpfPc.adj]
  · exact fun t => iff_of_false Bool.false_ne_true (Option.some_ne_none t).symm
  · intro t b hb
    cases hb
  · intro t u b hb
    cases hb
  · intro x hx
    cases hx
  · intro tmout hw
    cases hw
  · intro e b hr
    cases hr
  · intro r hr
    cases hr

/-- Where the sizes do not overflow, for any interleaving of the calls. -/
theorem mpfOk_of_fits (hfits : c.Fits) (h : (mpfMachine c).Reachable s) : MpfOk c s := by
  obtain ⟨s₀, ⟨ok, hp, priority, mem, rfl⟩, run⟩ := h
  have hinv : MpfInv c s := run.invariant (MpfInv c)
    (fun s e s' hinv _ hs => mpfInv_step ok hp hfits hinv hs)
    (mpfInv_created ok hp priority mem hfits)
  obtain ⟨-, -, hblk, hlarge⟩ := c.toNat_of_accepted ok
  obtain ⟨fl, k, hmem⟩ := hinv.mem
  refine ⟨hlarge, fun blf hb => ?_, hinv.handed, hmem.disjoint hblk, fun hno => ?_, hinv.waits⟩
  · obtain ⟨i, hi, rfl⟩ := hmem.mem_addr (List.mem_append_right _ (List.mem_append_right _ hb))
    exact c.addr_inside hp hfits hi
  · have htotal := hmem.total
    have hidle : s.inLock.takes = [] ∧ s.inLock.adj = 0 := by
      unfold MpfSys.inLock
      cases s.lock with
      | none => exact ⟨rfl, rfl⟩
      | some t =>
        have hcount := hno t
        dsimp only
        cases hpc : s.pc t with
        | taken b =>
          rw [hpc] at hcount
          cases hcount
        | freed b =>
          rw [hpc] at hcount
          cases hcount
        | _ => exact ⟨rfl, rfl⟩
    rw [hidle.1, hidle.2, List.length_nil] at htotal
    simpa using htotal

end

/-- Two blocks of 8 bytes, the second of which a waiting task gets after the first one is full. -/
def mpfCfg : Cmpf :=
  { tpri := false, userbuf := false, mpfcnt := 2, blfsz := 6, mempool := 4096, size := 16 }

/-- Three tasks want the two blocks, and the first one gives its own back. -/
def mpfTrace : List MpfEvent :=
  [.tkGetMpf 0 .TMO_FEVR, .go 0, .go 0, .go 0, .go 0,
    .tkGetMpf 1 .TMO_FEVR, .tkGetMpf 2 (.after 3), .go 1, .go 1, .go 1, .go 1, .go 2, .go 2, .go 2,
    .write 4096 (some 0), .tkRelMpf 0 4096, .go 0, .go 0, .go 0, .go 0]

theorem mpfOk_of_fits_waiting : ∃ s, (mpfMachine mpfCfg).Reachable s ∧ MpfOk mpfCfg s ∧
    s.outstanding = [4096, 4104] ∧ s.ret.getLast? = some (0, .E_OK, none) := by
  have hp : mpfCfg.Placed := ⟨by decide, by decide⟩
  obtain ⟨s, hr, hs⟩ := Lts.reachable_of_trace (L := mpfMachine mpfCfg)
    (p := fun s => decide (s.outstanding = [4096, 4104] ∧
      s.ret.getLast? = some (0, .E_OK, none))) mpfTrace
    ⟨by decide, hp, fun t => t, fun _ => none, rfl⟩ (by decide +kernel)
  exact ⟨s, hr, mpfOk_of_fits (by unfold Cmpf.Fits; decide) hr, of_decide_eq_true hs⟩

/-- 65537 blocks of 64 Kbytes, for which `knl_Imalloc` is asked for 64 Kbytes. -/
def mpfHuge : Cmpf :=
  { tpri := false, userbuf := false, mpfcnt := 65537, blfsz := 65536, mempool := 65536
    size := 65536 }

/-- The second block that a task gets lies behind the memory of the pool. -/
theorem not_mpfOk : ¬ ∀ c s, (mpfMachine c).Reachable s → MpfOk c s := by
  intro hall
  have hp : mpfHuge.Placed := ⟨by decide, by decide⟩
  let es : List MpfEvent := [.tkGetMpf 0 .TMO_FEVR, .go 0, .go 0, .go 0, .go 0,
    .tkGetMpf 0 .TMO_FEVR, .go 0, .go 0, .go 0, .go 0]
  obtain ⟨s, hr, hs⟩ := Lts.reachable_of_trace (L := mpfMachine mpfHuge)
    (p := fun s => decide ((0, .E_OK, some 131072) ∈ s.ret)) es
    ⟨by decide, hp, fun t => t, fun _ => none, rfl⟩ (by decide +kernel)
  have hin := (hall mpfHuge s hr).handed _ (of_decide_eq_true hs) 131072 rfl
  have hout : ¬ mpfHuge.Inside 131072 := by
    unfold Cmpf.Inside
    decide
  exact hout hin

end Mtk3Smp
