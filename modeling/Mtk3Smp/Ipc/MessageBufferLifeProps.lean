import Mtk3Smp.Lib.Custody
import Mtk3Smp.Ipc.MessageBufferLife

/-!
# Which buffers tk_del_mbf frees

Every buffer that `knl_Imalloc` has returned is with one control block or one task, or has been
freed, as long as tk_del_mbf finds the attribute of the object it has deleted.
-/

namespace Mtk3Smp

/-- The number of a buffer of the kernel. -/
def Msgbuf.number : Msgbuf → Option Nat
  | .kernel n => some n
  | .user _ => none

/-- The buffer that a task holds. -/
def MbfPc.msgbuf : MbfPc → Option Msgbuf
  | .idle => none
  | .creating _ msgbuf | .limit _ msgbuf | .deleting _ msgbuf => msgbuf

/-- Who may hold a buffer: a registered control block or a task inside a call. -/
inductive MbfHolder
  | slot (i : Nat)
  | task (t : Tid)
  deriving DecidableEq

namespace MbfLife

variable {s u : MbfLife} {num i n : Nat} {t : Tid} {pc : MbfPc} {msgbuf : Option Msgbuf}
  {b : Msgbuf}

def hold (s : MbfLife) : MbfHolder → Option Nat
  | .slot i => if (s.slot i).mbfid = 0 then none else (s.slot i).buffer.bind Msgbuf.number
  | .task t => (s.pc t).msgbuf.bind Msgbuf.number

/-- When tk_del_mbf reads the attribute for a buffer, the control block still has that of the
object it has deleted, or that of a later one with the same kind of buffer. -/
def NotRecycled (s : MbfLife) : MbfLifeEvent → Prop
  | .delFree t => ∀ i b, s.pc t = .deleting i (some b) → (s.slot i).userbuf = b.isUser
  | _ => True

/-- `knl_Ifree` gets each buffer of the kernel at most once, when nobody holds it any more, and
no other; and a deletion that has returned has freed its buffer if it was the kernel's. -/
structure FreesRight (s : MbfLife) : Prop where
  ours : ∀ b ∈ s.freed, b.isUser = false
  once : s.freed.Nodup
  unheld : ∀ n h, .kernel n ∈ s.freed → s.hold h ≠ some n
  exact : ∀ b ∈ s.deleted, b ∈ s.freed ↔ b.isUser = false

structure MbfLifeOk (s : MbfLife) : Prop where
  custody : ∃ gone, s.freed = gone.map .kernel ∧ Custody s.count s.hold gone
  slotAttr : ∀ i b, (s.slot i).mbfid ≠ 0 → (s.slot i).buffer = some b →
    (s.slot i).userbuf = b.isUser
  creating : ∀ t userbuf b, s.pc t = .creating userbuf (some b) → userbuf = b.isUser
  limit : ∀ t userbuf b, s.pc t = .limit userbuf (some b) → userbuf = b.isUser
  unused : ∀ i ∈ s.free, (s.slot i).mbfid = 0
  freeNodup : s.free.Nodup
  deleted : ∀ n, .kernel n ∈ s.deleted → .kernel n ∈ s.freed

theorem MbfLifeOk.freesRight (h : MbfLifeOk s) : FreesRight s := by
  obtain ⟨gone, hfreed, c⟩ := h.custody
  have mem_gone : ∀ n, Msgbuf.kernel n ∈ s.freed → n ∈ gone := by
    intro n hn
    rw [hfreed] at hn
    obtain ⟨m, hm, he⟩ := List.mem_map.1 hn
    obtain rfl := Msgbuf.kernel.inj he
    exact hm
  constructor
  case ours =>
    intro b hb
    rw [hfreed] at hb
    obtain ⟨n, -, rfl⟩ := List.mem_map.1 hb
    rfl
  case once =>
    rw [hfreed]
    exact c.nodup.map fun _ _ he => Msgbuf.kernel.inj he
  case unheld => exact fun n hd hn hh => c.kept hd n hh (mem_gone n hn)
  case exact =>
    intro b hb
    cases b with
    | kernel n => exact ⟨fun _ => rfl, fun _ => h.deleted n hb⟩
    | user adr =>
      constructor
      · intro hf
        rw [hfreed] at hf
        obtain ⟨n, -, he⟩ := List.mem_map.1 hf
        cases he
      · intro hf
        cases hf

/-! ## The holders after each operation -/

theorem hold_setPc : (s.setPc t pc).hold =
    Function.update s.hold (.task t) (pc.msgbuf.bind Msgbuf.number) := by
  funext x
  cases x with
  | slot i => rw [Function.update_of_ne (by simp)]; rfl
  | task v =>
    by_cases hv : v = t
    · subst hv
      rw [Function.update_self]
      show ((Function.update s.pc v pc v).msgbuf).bind _ = _
      rw [Function.update_self]
    · rw [Function.update_of_ne (by simpa using hv)]
      show ((Function.update s.pc t pc v).msgbuf).bind _ = _
      rw [Function.update_of_ne hv]
      rfl

theorem hold_setSlot (i : Nat) (x : MbfSlot) :
    hold { s with slot := Function.update s.slot i x } =
      Function.update s.hold (.slot i)
        (if x.mbfid = 0 then none else x.buffer.bind Msgbuf.number) := by
  funext y
  cases y with
  | slot j =>
    by_cases hj : j = i
    · subst hj
      rw [Function.update_self]
      show (if (Function.update s.slot j x j).mbfid = 0 then none else _) = _
      rw [Function.update_self]
      show (if _ then none else (Function.update s.slot j x j).buffer.bind _) = _
      rw [Function.update_self]
    · rw [Function.update_of_ne (by simpa using hj)]
      show (if (Function.update s.slot i x j).mbfid = 0 then none
        else (Function.update s.slot i x j).buffer.bind _) = _
      rw [Function.update_of_ne hj]
      rfl
  | task t => rw [Function.update_of_ne (by simp)]; rfl

theorem hold_task (hpc : s.pc t = pc) :
    s.hold (.task t) = pc.msgbuf.bind Msgbuf.number := by
  rw [← hpc]
  rfl

theorem pc_setPc {v : Tid} {x : MbfPc} (hv : (s.setPc t pc).pc v = x) : pc = x ∨ s.pc v = x := by
  have heq : Function.update s.pc t pc v = x := hv
  by_cases hvt : v = t
  · subst hvt
    rw [Function.update_self] at heq
    exact .inl heq
  · rw [Function.update_of_ne hvt] at heq
    exact .inr heq

/-- A task goes on; the control blocks stay as they are. -/
theorem MbfLifeOk.setPc (h : MbfLifeOk s) {count : Nat} {freed deleted : List Msgbuf}
    (hc : ∃ gone, freed = gone.map .kernel ∧ Custody count (s.setPc t pc).hold gone)
    (hcre : ∀ userbuf b, pc = .creating userbuf (some b) → userbuf = b.isUser)
    (hlim : ∀ userbuf b, pc = .limit userbuf (some b) → userbuf = b.isUser)
    (hdel : ∀ n, .kernel n ∈ deleted → .kernel n ∈ freed) :
    MbfLifeOk ({ s with count, freed, deleted }.setPc t pc) where
  custody := hc
  slotAttr := h.slotAttr
  creating v userbuf b hv := by
    rcases pc_setPc hv with hv | hv
    · exact hcre userbuf b hv
    · exact h.creating v userbuf b hv
  limit v userbuf b hv := by
    rcases pc_setPc hv with hv | hv
    · exact hlim userbuf b hv
    · exact h.limit v userbuf b hv
  unused := h.unused
  freeNodup := h.freeNodup
  deleted := hdel

/-! ## Steps -/

/-- A task that holds no buffer of the kernel goes where it holds none either. -/
theorem MbfLifeOk.custody_setPc (h : MbfLifeOk s) (hnone : s.hold (.task t) = none)
    (hpc : pc.msgbuf.bind Msgbuf.number = none) :
    ∃ gone, s.freed = gone.map .kernel ∧ Custody s.count (s.setPc t pc).hold gone := by
  obtain ⟨gone, hfreed, c⟩ := h.custody
  refine ⟨gone, hfreed, ?_⟩
  rw [hold_setPc, hpc, ← hnone, Function.update_eq_self]
  exact c

theorem MbfLifeOk.tkCreMbf (h : MbfLifeOk s) (hpc : s.pc t = .idle) (pk : Cmbf) (mem : Bool) :
    MbfLifeOk (s.tkCreMbf t pk mem) := by
  have hnone : s.hold (.task t) = none := hold_task hpc
  have enter : ∀ userbuf msgbuf, msgbuf.bind Msgbuf.number = none →
      (∀ b, msgbuf = some b → userbuf = b.isUser) →
      MbfLifeOk (s.setPc t (.creating userbuf msgbuf)) := by
    intro userbuf msgbuf hnumber hattr
    refine h.setPc (h.custody_setPc hnone hnumber) ?_ ?_ h.deleted
    · intro v b hc
      obtain ⟨rfl, hb⟩ := MbfPc.creating.inj hc
      exact hattr b hb
    · intro v b hc
      cases hc
  unfold MbfLife.tkCreMbf
  dsimp only
  split
  · exact h
  split
  · split
    next huser =>
      split
      · exact h
      · refine enter _ _ ?_ ?_
        · cases pk.bufptr <;> rfl
        · intro b hb
          obtain ⟨adr, -, rfl⟩ := Option.map_eq_some_iff.1 hb
          exact huser
    next hkernel =>
      split
      · obtain ⟨gone, hfreed, c⟩ := h.custody
        refine h.setPc ⟨gone, hfreed, ?_⟩ ?_ ?_ h.deleted
        · rw [hold_setPc]
          exact c.make hnone
        · intro v b hc
          obtain ⟨rfl, hb⟩ := MbfPc.creating.inj hc
          obtain rfl := Option.some.inj hb
          exact Bool.eq_false_iff.2 hkernel
        · intro v b hc
          cases hc
      · exact h
  · refine enter _ _ rfl ?_
    intro b hb
    cases hb

/-- A control block off the free queue gets the buffer of the task. -/
theorem MbfLifeOk.creSection (h : MbfLifeOk s) {userbuf : Bool}
    (hpc : s.pc t = .creating userbuf msgbuf) : MbfLifeOk (s.creSection t userbuf msgbuf) := by
  obtain ⟨gone, hfreed, c⟩ := h.custody
  have htask : s.hold (.task t) = msgbuf.bind Msgbuf.number := hold_task hpc
  have hattr : ∀ b, msgbuf = some b → userbuf = b.isUser := by
    rintro b rfl
    exact h.creating t userbuf b hpc
  unfold MbfLife.creSection
  cases hfree : s.free with
  | nil =>
    refine h.setPc ⟨gone, hfreed, ?_⟩ ?_ ?_ h.deleted
    · rw [hold_setPc]
      show Custody _ (Function.update s.hold (.task t) (msgbuf.bind Msgbuf.number)) gone
      rw [← htask, Function.update_eq_self]
      exact c
    · intro v b hc
      cases hc
    · intro v b hc
      obtain ⟨rfl, hb⟩ := MbfPc.limit.inj hc
      exact hattr b hb
  | cons i rest =>
    have hunused : (s.slot i).mbfid = 0 := h.unused i (hfree ▸ List.mem_cons_self)
    have hnodup := h.freeNodup
    rw [hfree] at hnodup
    constructor
    case custody =>
      refine ⟨gone, hfreed, ?_⟩
      rw [hold_setPc]
      show Custody _ (Function.update
        (hold { s with slot := Function.update s.slot i ⟨i + 1, userbuf, msgbuf⟩ }) _ none) _
      rw [hold_setSlot, if_neg (Nat.succ_ne_zero i), ← htask,
        Function.update_comm (by simp)]
      refine c.move (by simp) ?_
      show (if (s.slot i).mbfid = 0 then none else _) = none
      rw [if_pos hunused]
    case slotAttr =>
      apply (Function.forall_update_iff s.slot (p := fun _ x => ∀ b, x.mbfid ≠ 0 →
        x.buffer = some b → x.userbuf = b.isUser)).2
      exact ⟨fun b _ hb => hattr b hb, fun j _ => h.slotAttr j⟩
    case creating =>
      intro v u b hv
      rcases pc_setPc hv with hv | hv
      · cases hv
      · exact h.creating v u b hv
    case limit =>
      intro v u b hv
      rcases pc_setPc hv with hv | hv
      · cases hv
      · exact h.limit v u b hv
    case unused =>
      intro j hj
      have hji : j ≠ i := by
        rintro rfl
        exact (List.nodup_cons.1 hnodup).1 hj
      show (Function.update s.slot i _ j).mbfid = 0
      rw [Function.update_of_ne hji]
      exact h.unused j (hfree ▸ List.mem_cons_of_mem i hj)
    case freeNodup => exact (List.nodup_cons.1 hnodup).2
    case deleted => exact h.deleted

/-- The buffer of a task goes to `knl_Ifree` or, being the user's, nowhere. -/
theorem MbfLifeOk.drop (h : MbfLifeOk s) (hpc : s.pc t = pc) (hb : pc.msgbuf = some b)
    {deleted : List Msgbuf} {userbuf : Bool} (huser : userbuf = b.isUser)
    (hdel : ∀ n, .kernel n ∈ deleted → .kernel n ∈ s.freed ∨ .kernel n = b) :
    MbfLifeOk (if !userbuf then { s.setPc t .idle with deleted }.knlIfree b
      else { s.setPc t .idle with deleted }) := by
  obtain ⟨gone, hfreed, c⟩ := h.custody
  have htask : s.hold (.task t) = b.number := by
    rw [hold_task hpc, hb]
    rfl
  cases b with
  | kernel n =>
    rw [huser]
    show MbfLifeOk ({ s with freed := .kernel n :: s.freed, deleted }.setPc t .idle)
    refine h.setPc ⟨n :: gone, congrArg (Msgbuf.kernel n :: ·) hfreed, ?_⟩ ?_ ?_ ?_
    · rw [hold_setPc]
      exact c.release htask
    · intro v b hc
      cases hc
    · intro v b hc
      cases hc
    · intro m hm
      rcases hdel m hm with hf | he
      · exact List.mem_cons_of_mem _ hf
      · exact he ▸ List.mem_cons_self
  | user adr =>
    rw [huser]
    show MbfLifeOk ({ s with deleted }.setPc t .idle)
    refine h.setPc (h.custody_setPc htask rfl) ?_ ?_ ?_
    · intro v b hc
      cases hc
    · intro v b hc
      cases hc
    · intro m hm
      rcases hdel m hm with hf | he
      · exact hf
      · cases he

/-- A task without a buffer returns. -/
theorem MbfLifeOk.ret (h : MbfLifeOk s) (hpc : s.pc t = pc) (hb : pc.msgbuf = none) :
    MbfLifeOk (s.setPc t .idle) := by
  have hnone : s.hold (.task t) = none := by
    rw [hold_task hpc, hb]
    rfl
  refine h.setPc (h.custody_setPc hnone rfl) ?_ ?_ h.deleted
  · intro v b hc
    cases hc
  · intro v b hc
    cases hc

theorem MbfLifeOk.creLimit (h : MbfLifeOk s) {userbuf : Bool}
    (hpc : s.pc t = .limit userbuf msgbuf) : MbfLifeOk (s.creLimit t userbuf msgbuf) := by
  cases msgbuf with
  | none => exact h.ret hpc rfl
  | some b => exact h.drop hpc rfl (h.limit t userbuf b hpc) fun n hn => .inl (h.deleted n hn)

/-- The buffer of a deleted object goes with the task. -/
theorem MbfLifeOk.tkDelMbf (h : MbfLifeOk s) (hpc : s.pc t = .idle) (i : Nat) :
    MbfLifeOk (s.tkDelMbf t i) := by
  have hnone : s.hold (.task t) = none := hold_task hpc
  unfold MbfLife.tkDelMbf
  split
  · refine h.setPc (h.custody_setPc hnone rfl) ?_ ?_ h.deleted
    · intro v b hc
      cases hc
    · intro v b hc
      cases hc
  next hid =>
    obtain ⟨gone, hfreed, c⟩ := h.custody
    have hfree : i ∉ s.free := fun hi => hid (h.unused i hi)
    constructor
    case custody =>
      refine ⟨gone, hfreed, ?_⟩
      rw [hold_setPc]
      show Custody _ (Function.update
        (hold { s with slot := Function.update s.slot i { s.slot i with mbfid := 0 } }) _
        ((s.slot i).buffer.bind Msgbuf.number)) _
      have hslot : s.hold (.slot i) = (s.slot i).buffer.bind Msgbuf.number := if_neg hid
      rw [hold_setSlot, if_pos rfl, ← hslot]
      exact c.move (by simp) hnone
    case slotAttr =>
      apply (Function.forall_update_iff s.slot (p := fun _ x => ∀ b, x.mbfid ≠ 0 →
        x.buffer = some b → x.userbuf = b.isUser)).2
      exact ⟨fun _ hc => absurd rfl hc, fun j _ => h.slotAttr j⟩
    case creating =>
      intro v u b hv
      rcases pc_setPc hv with hv | hv
      · cases hv
      · exact h.creating v u b hv
    case limit =>
      intro v u b hv
      rcases pc_setPc hv with hv | hv
      · cases hv
      · exact h.limit v u b hv
    case unused =>
      have hslots := (Function.forall_update_iff s.slot (a := i) (b := { s.slot i with mbfid := 0 })
        (p := fun j x => j ∈ s.free ++ [i] → x.mbfid = 0)).2
      refine hslots ⟨fun _ => rfl, fun j hji hj => ?_⟩
      rcases List.mem_append.1 hj with hj | hj
      · exact h.unused j hj
      · exact absurd (List.mem_singleton.1 hj) hji
    case freeNodup =>
      refine List.nodup_append.2 ⟨h.freeNodup, List.nodup_singleton i, ?_⟩
      rintro j hj k hk rfl
      obtain rfl := List.mem_singleton.1 hk
      exact hfree hj
    case deleted => exact h.deleted

theorem MbfLifeOk.delFree (h : MbfLifeOk s) (hpc : s.pc t = .deleting i msgbuf)
    (hcond : s.NotRecycled (.delFree t)) : MbfLifeOk (s.delFree t i msgbuf) := by
  cases msgbuf with
  | none => exact h.ret hpc rfl
  | some b =>
    refine h.drop hpc rfl (hcond i b hpc) fun n hn => ?_
    rcases List.mem_cons.1 hn with he | hn
    · exact .inr he
    · exact .inl (h.deleted n hn)

theorem MbfLifeOk.step (h : MbfLifeOk s) {e : MbfLifeEvent} (hcond : s.NotRecycled e)
    (hs : s.step num e = some u) : MbfLifeOk u := by
  cases e with
  | tkCreMbf t pk mem =>
    simp only [MbfLife.step] at hs
    split at hs
    next hpc =>
      obtain rfl := Option.some.inj hs
      exact h.tkCreMbf hpc pk mem
    next => cases hs
  | creSection t =>
    simp only [MbfLife.step] at hs
    split at hs
    next userbuf msgbuf hpc =>
      obtain rfl := Option.some.inj hs
      exact h.creSection hpc
    next => cases hs
  | creLimit t =>
    simp only [MbfLife.step] at hs
    split at hs
    next userbuf msgbuf hpc =>
      obtain rfl := Option.some.inj hs
      exact h.creLimit hpc
    next => cases hs
  | tkDelMbf t mbfid =>
    simp only [MbfLife.step] at hs
    split at hs
    next hpc =>
      split at hs
      · obtain rfl := Option.some.inj hs
        exact h
      · obtain rfl := Option.some.inj hs
        exact h.tkDelMbf hpc _
    next => cases hs
  | delFree t =>
    simp only [MbfLife.step] at hs
    split at hs
    next i msgbuf hpc =>
      obtain rfl := Option.some.inj hs
      exact h.delFree hpc hcond
    next => cases hs

theorem mbfLifeOk_boot (slot : Nat → MbfSlot) : MbfLifeOk (.boot num slot) where
  custody := by
    refine ⟨[], rfl, Custody.nobody ?_⟩
    intro x
    cases x with
    | slot i =>
      show (if (0 : Nat) = 0 then none else (slot i).buffer.bind Msgbuf.number) = none
      rw [if_pos rfl]
    | task t => rfl
  slotAttr i b hc := absurd rfl hc
  creating t userbuf b hc := by cases hc
  limit t userbuf b hc := by cases hc
  unused i _ := rfl
  freeNodup := List.nodup_range
  deleted n hn := by cases hn

/-! ## What is freed -/

/-- Where no control block has been created anew with the other kind of buffer before tk_del_mbf
looks at its attribute, `knl_Ifree` gets exactly the kernel's buffers of the deleted objects. -/
theorem del_mbf_frees_right (h : (mbfLifeMachine num).ReachableIf NotRecycled s) :
    FreesRight s := by
  have hok : MbfLifeOk s := by
    refine h.invariant MbfLifeOk ?_ fun _ _ _ hok hcond hs => hok.step hcond hs
    rintro s ⟨slot, rfl⟩
    exact mbfLifeOk_boot slot
  exact hok.freesRight

/-- A message buffer with a buffer of the user is deleted; before the attribute is read, another
task creates one in the same control block, with a buffer of the kernel. -/
theorem del_mbf_frees_user :
    ∃ s, (mbfLifeMachine 1).Reachable s ∧ s.freed = [.user 64] ∧ s.deleted = [.user 64] := by
  let slot : Nat → MbfSlot := fun _ => ⟨0, false, none⟩
  let p : MbfLife → Bool := fun s => s.freed = [.user 64] ∧ s.deleted = [.user 64]
  obtain ⟨s, reach, hp⟩ := Lts.reachable_of_trace (L := mbfLifeMachine 1) (p := p)
    (s := .boot 1 slot)
    [.tkCreMbf 0 ⟨true, 16, 8, some 64⟩ true, .creSection 0, .tkDelMbf 0 1,
      .tkCreMbf 1 ⟨false, 16, 8, none⟩ true, .creSection 1, .delFree 0] ⟨slot, rfl⟩ (by decide)
  exact ⟨s, reach, of_decide_eq_true hp⟩

instance : DecidablePred s.NotRecycled
  | .delFree t =>
    match hpc : s.pc t with
    | .deleting i (some b) =>
      decidable_of_iff ((s.slot i).userbuf = b.isUser) (by simp [NotRecycled, hpc])
    | .deleting i none => .isTrue (by simp [NotRecycled, hpc])
    | .idle => .isTrue (by simp [NotRecycled, hpc])
    | .creating _ _ => .isTrue (by simp [NotRecycled, hpc])
    | .limit _ _ => .isTrue (by simp [NotRecycled, hpc])
  | .tkCreMbf .. | .creSection _ | .creLimit _ | .tkDelMbf .. => .isTrue trivial

/-- The same with a second kernel's buffer: the deleted one is freed and the new one is not. -/
theorem del_mbf_frees_right_run :
    ∃ s, (s.freed = [.kernel 0] ∧ (s.slot 0).buffer = some (.kernel 1)) ∧ FreesRight s := by
  let slot : Nat → MbfSlot := fun _ => ⟨0, false, none⟩
  let p : MbfLife → Bool := fun s => s.freed = [.kernel 0] ∧ (s.slot 0).buffer = some (.kernel 1)
  obtain ⟨s, reach, hp⟩ := Lts.reachable_of_exec (L := mbfLifeMachine 1) (p := p)
    (s := .boot 1 slot)
    (fun s e (h : decide (s.NotRecycled e) = true) => of_decide_eq_true h)
    [.tkCreMbf 0 ⟨false, 16, 8, none⟩ true, .creSection 0, .tkDelMbf 0 1,
      .tkCreMbf 1 ⟨false, 16, 8, none⟩ true, .creSection 1, .delFree 0] ⟨slot, rfl⟩ (by decide)
  exact ⟨s, of_decide_eq_true hp, del_mbf_frees_right reach⟩

end MbfLife

end Mtk3Smp
