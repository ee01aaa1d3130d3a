import Mtk3Smp.Kernel.ScheduleProps
import Mtk3Smp.Smp.Steps

/-!
# No task runs on two cores

The exclusion rests on `knl_task_core_mask` pinning a task that it sees in a slot. It does
not see a task that a dispatcher has loaded and that has since been replaced in the slot:
the reschedule after the next one offers it to the other core. `FreshLoads` excludes just
that, and then the slots and the dispatchers never share a task (`OwnInv`).
-/

namespace Mtk3Smp

/-- A task is in at most one `knl_schedtsk` slot, and whatever is current on a core or loaded
by its dispatcher is nothing to the other core. -/
structure OwnInv (sl : Slots) (disp : PerCore Disp) : Prop where
  sched_inj : ∀ c t, sl.schedtsk c = some t → sl.schedtsk c.other ≠ some t
  ctx_inj : ∀ c t, sl.ctxtsk c = .task t → sl.ctxtsk c.other ≠ .task t
  ctx_sched : ∀ c t, sl.ctxtsk c = .task t → sl.schedtsk c.other ≠ some t
  load_ctx : ∀ c t, disp c = .loaded (some t) → sl.ctxtsk c.other ≠ .task t
  load_sched : ∀ c t, disp c = .loaded (some t) → sl.schedtsk c.other ≠ some t
  load_inj : ∀ c t, disp c = .loaded (some t) → disp c.other ≠ .loaded (some t)

section

variable {sl sl' : Slots} {disp : PerCore Disp} {k : Knl} {c : Core}

theorem OwnInv.congr (inv : OwnInv sl disp) (hc : sl'.ctxtsk = sl.ctxtsk)
    (hs : sl'.schedtsk = sl.schedtsk) : OwnInv sl' disp where
  sched_inj := by simpa [hs] using inv.sched_inj
  ctx_inj := by simpa [hc] using inv.ctx_inj
  ctx_sched := by simpa [hc, hs] using inv.ctx_sched
  load_ctx := by simpa [hc] using inv.load_ctx
  load_sched := by simpa [hs] using inv.load_sched
  load_inj := inv.load_inj

/-- The dispatcher loads its slot. -/
theorem OwnInv.load (inv : OwnInv sl disp) : OwnInv sl (disp.set c (.loaded (sl.schedtsk c))) where
  sched_inj := inv.sched_inj
  ctx_inj := inv.ctx_inj
  ctx_sched := inv.ctx_sched
  load_ctx e t h := by
    rcases Core.eq_or_other c e with rfl | rfl
    · intro hc
      exact inv.ctx_sched _ t hc (by simpa using h)
    · exact inv.load_ctx _ t (by simpa using h)
  load_sched e t h := by
    rcases Core.eq_or_other c e with rfl | rfl
    · exact inv.sched_inj _ t (by simpa using h)
    · exact inv.load_sched _ t (by simpa using h)
  load_inj e t h := by
    rcases Core.eq_or_other c e with rfl | rfl
    · intro hd
      exact inv.load_sched e.other t (by simpa using hd) (by simpa using h)
    · have hn := inv.load_sched c.other t (by simpa using h)
      simpa using hn

/-- Where a task is current or loaded, its mask admits no other core. -/
theorem OwnInv.resched (inv : OwnInv sl disp)
    (fresh : ∀ c t, disp c = .loaded (some t) →
      sl.schedtsk c = some t ∨ t ∉ k.readyTasks ∨ (k.tcb t).assprc c.other = false ∨
        sl.onlineMask c.other = false ∨ DDS_DISABLE ≤ sl.dispatchDisabled c.other) :
    OwnInv (knlSmpRescheduleAll sl k) disp where
  sched_inj e t h := by
    intro h'
    cases ho : sl.onlineMask e with
    | true =>
      rw [schedtsk_online ho] at h
      cases ho' : sl.onlineMask e.other with
      | true =>
        rw [schedtsk_online ho'] at h'
        exact guardedSelection_inj h h'
      | false =>
        rw [schedtsk_offline ho'] at h'
        -- a task published to an offline core has the mask of that core
        obtain ⟨-, hm⟩ := assign_sound (guardedSelection_le h)
        cases hc : knlCtxtskCore sl t with
        | some d =>
          obtain ⟨rfl, -⟩ := (mask_current hc).1 hm
          exact inv.ctx_sched _ t (knlCtxtskCore_some hc) h'
        | none =>
          have he := mask_of_published (knlCtxtskCore_none.1 hc) h'
            (by simpa using inv.sched_inj _ t h') hm
          exact absurd he (by simp)
    | false =>
      rw [schedtsk_offline ho] at h
      cases ho' : sl.onlineMask e.other with
      | true =>
        rw [schedtsk_online ho'] at h'
        obtain ⟨-, hm⟩ := assign_sound (guardedSelection_le h')
        cases hc : knlCtxtskCore sl t with
        | some d =>
          obtain ⟨rfl, -⟩ := (mask_current hc).1 hm
          exact inv.ctx_sched _ t (knlCtxtskCore_some hc) (by simpa using h)
        | none =>
          have he := mask_of_published (knlCtxtskCore_none.1 hc) h (inv.sched_inj _ t h) hm
          exact absurd he (by simp)
      | false =>
        rw [schedtsk_offline ho'] at h'
        exact inv.sched_inj _ t h h'
  ctx_inj := inv.ctx_inj
  ctx_sched e t h := by
    intro h'
    cases ho : sl.onlineMask e.other with
    | false =>
      rw [schedtsk_offline ho] at h'
      exact inv.ctx_sched _ t h h'
    | true =>
      rw [schedtsk_online ho] at h'
      obtain ⟨-, hm⟩ := assign_sound (guardedSelection_le h')
      have he := mask_of_current (show sl.ctxtsk e = .task t from h) (inv.ctx_inj _ t h) hm
      exact absurd he (by simp)
  load_ctx := inv.load_ctx
  load_sched e t h := by
    intro h'
    cases ho : sl.onlineMask e.other with
    | false =>
      rw [schedtsk_offline ho] at h'
      exact inv.load_sched _ t h h'
    | true =>
      rw [schedtsk_online ho] at h'
      obtain ⟨ht, hm⟩ := assign_sound (guardedSelection_le h')
      cases hc : knlCtxtskCore sl t with
      | some d =>
        obtain ⟨rfl, -⟩ := (mask_current hc).1 hm
        exact inv.load_ctx _ t h (knlCtxtskCore_some hc)
      | none =>
        cases hs : schedtskCore sl t with
        | some d =>
          obtain ⟨rfl, -⟩ := (mask_published hc hs).1 hm
          exact inv.load_sched _ t h (schedtskCore_some hs)
        | none =>
          obtain ⟨ha, -, hd⟩ := (mask_unpinned hc hs).1 hm
          rcases fresh e t h with h | h | h | h | h
          · exact schedtskCore_none.1 hs e h
          · exact h ht
          · simp [ha] at h
          · simp [ho] at h
          · omega
  load_inj := inv.load_inj

end

end Mtk3Smp
