import Mtk3Smp.Smp.Ipi

/-!
# Starting core 1

`knl_start_device` (`devinit.c`) and what it calls in `smp_rp2040.c`: core 0 sends six words to
the bootrom of core 1 through the FIFO that later carries the doorbells, waits for
`knl_smp_core1_ready`, drains its own FIFO and unmasks the interrupt of it; core 1 leaves the
bootrom, drains its FIFO, unmasks the interrupt and enters the dispatcher. A `knl_ipi_send` may
come at any time. The bootrom is not part of the repository: here it reads words, writes words
and enters `knl_smp_core1_entry` in any order.
-/

namespace Mtk3Smp

/-- A word of a FIFO; whether `knl_ipi_send` has written it is history. -/
structure FifoWord where
  value : BitVec 32
  doorbell : Bool
  deriving DecidableEq

/-- Core 0 in `knl_start_device`, at its next access to what the cores share. -/
inductive Main0
  /-- before `knl_smp_launch_core1` -/
  | before
  /-- at `while (seq < 6)` -/
  | next (seq attempts : Nat)
  /-- in `fifo_drain` -/
  | drainTest (seq attempts : Nat)
  | drainRead (seq attempts : Nat)
  /-- in `fifo_push` -/
  | pushTest (seq attempts spin : Nat)
  | pushWrite (seq attempts : Nat)
  /-- in the loop of `fifo_pop` -/
  | popTest (seq attempts spin : Nat)
  | popRead (seq attempts : Nat)
  /-- at the test of `knl_smp_core1_ready` -/
  | wait (spin : Nat)
  | publish
  /-- in `fifo_drain` of `knl_smp_core0_init` -/
  | initTest
  | initRead
  | unmask
  | done
  deriving DecidableEq

/-- Core 1 up to the dispatcher. -/
inductive Main1
  | bootrom
  /-- in `fifo_drain` of `knl_smp_core1_entry` -/
  | drainTest
  | drainRead
  /-- in `knl_smp_core1_init` -/
  | unmask
  | ready
  | dispatcher
  deriving DecidableEq

structure LaunchSys where
  /-- `knl_ipi_pending[]` -/
  pending : PerCore Reasons
  /-- the words in the FIFO that a core reads, the oldest one first -/
  fifo : PerCore (List FifoWord)
  acts : PerCore (List IpiAct)
  /-- the bit of SIO_IRQ_PROC0 or SIO_IRQ_PROC1 in NVIC_ISER -/
  irqOn : PerCore Bool
  main0 : Main0
  main1 : Main1
  knlSmpCore1Ready : Bool
  /-- `knl_smp_online_mask` is ALL_CORE_BIT -/
  knlSmpOnlineMask : Bool

inductive LaunchEvent
  | send (c : Core) (reasons : Reasons)
  | irq (c : Core)
  | step (c : Core)
  | main0
  | main1
  | bootRead
  | bootWrite (value : BitVec 32)
  | bootEnter
  deriving DecidableEq

def LaunchSys.boot : LaunchSys :=
  { pending := .ofFn fun _ => 0, fifo := .ofFn fun _ => [], acts := .ofFn fun _ => []
    irqOn := .ofFn fun _ => false, main0 := .before, main1 := .bootrom
    knlSmpCore1Ready := false, knlSmpOnlineMask := false }

namespace LaunchSys

variable (depth : Nat) (cmd : Nat → BitVec 32) (s : LaunchSys) (c : Core)

def goto (rest : List IpiAct) : LaunchSys := { s with acts := s.acts.set c rest }

/-- A word for core `c`; a full FIFO ignores it. -/
def push (w : FifoWord) : LaunchSys :=
  { s with fifo := s.fifo.set c (if (s.fifo c).length < depth then s.fifo c ++ [w] else s.fifo c) }

def pop : LaunchSys := { s with fifo := s.fifo.set c (s.fifo c).tail }

/-- The next access of the innermost activation of core `c`. -/
def act : Option LaunchSys :=
  match s.acts c with
  | [] => none
  | .set r :: rest =>
    some { s.goto c (.test :: rest) with
      pending := s.pending.set c.other (s.pending c.other ||| r) }
  | .test :: rest =>
    if (s.fifo c.other).length < depth then some (s.goto c (.ring :: rest))
    else some (s.goto c rest)
  | .ring :: rest =>
    some ((s.push depth c.other { value := 0, doorbell := true }).goto c rest)
  | .drain :: rest =>
    if s.fifo c = [] then some (s.goto c (.take :: rest)) else some (s.goto c (.pop :: rest))
  | .pop :: rest => some ((s.pop c).goto c (.drain :: rest))
  | .take :: rest => some { s.goto c rest with pending := s.pending.set c 0 }

/-- `knl_smp_launch_core1` and `knl_smp_core0_init`. A launch that fails goes on with the
latter too. -/
def main0Next : Option LaunchSys :=
  match s.main0 with
  | .before => some { s with irqOn := s.irqOn.set .core0 false, main0 := .next 0 0 }
  | .next seq attempts =>
    if seq < 6 then
      if attempts + 1 > 100 then some { s with main0 := .initTest }
      else if cmd seq = 0 then some { s with main0 := .drainTest seq (attempts + 1) }
      else some { s with main0 := .pushTest seq (attempts + 1) 0 }
    else some { s with main0 := .wait 0 }
  | .drainTest seq attempts =>
    if s.fifo .core0 = [] then some { s with main0 := .pushTest seq attempts 0 }
    else some { s with main0 := .drainRead seq attempts }
  | .drainRead seq attempts => some { s.pop .core0 with main0 := .drainTest seq attempts }
  | .pushTest seq attempts spin =>
    if spin < 1000000 then
      if (s.fifo .core1).length < depth then some { s with main0 := .pushWrite seq attempts }
      else some { s with main0 := .pushTest seq attempts (spin + 1) }
    else some { s with main0 := .initTest }
  | .pushWrite seq attempts =>
    some { s.push depth .core1 { value := cmd seq, doorbell := false } with
      main0 := .popTest seq attempts 0 }
  | .popTest seq attempts spin =>
    if spin < 1000000 then
      if s.fifo .core0 = [] then some { s with main0 := .popTest seq attempts (spin + 1) }
      else some { s with main0 := .popRead seq attempts }
    else some { s with main0 := .initTest }
  | .popRead seq attempts =>
    some { s.pop .core0 with
      main0 := .next (if ((s.fifo .core0).map FifoWord.value).head? = some (cmd seq) then seq + 1
        else 0) attempts }
  | .wait spin =>
    if spin < 10000000 then
      if s.knlSmpCore1Ready then some { s with main0 := .publish }
      else some { s with main0 := .wait (spin + 1) }
    else some { s with main0 := .initTest }
  | .publish => some { s with knlSmpOnlineMask := true, main0 := .initTest }
  | .initTest =>
    if s.fifo .core0 = [] then some { s with main0 := .unmask }
    else some { s with main0 := .initRead }
  | .initRead => some { s.pop .core0 with main0 := .initTest }
  | .unmask => some { s with irqOn := s.irqOn.set .core0 true, main0 := .done }
  | .done => none

/-- `knl_smp_core1_entry` -/
def main1Next : Option LaunchSys :=
  match s.main1 with
  | .bootrom => none
  | .drainTest =>
    if s.fifo .core1 = [] then some { s with main1 := .unmask }
    else some { s with main1 := .drainRead }
  | .drainRead => some { s.pop .core1 with main1 := .drainTest }
  | .unmask => some { s with irqOn := s.irqOn.set .core1 true, main1 := .ready }
  | .ready => some { s with knlSmpCore1Ready := true, main1 := .dispatcher }
  | .dispatcher => none

/-- Core 1 runs handlers once its interrupt is unmasked, and tasks in the dispatcher. -/
def canSend : Core → Prop
  | .core0 => True
  | .core1 => s.irqOn .core1 = true ∨ s.main1 = .dispatcher

instance : Decidable (s.canSend c) :=
  match c with
  | .core0 => isTrue trivial
  | .core1 => inferInstanceAs (Decidable (_ ∨ _))

/-- `knl_start_device` and the entry are tasks' and boot code: the activations of
`knl_ipi_send` and `knl_ipi_take`, in critical sections and handlers, end before they go on. -/
def step : LaunchEvent → Option LaunchSys
  | .send c r => if s.canSend c then some (s.goto c (.set r :: s.acts c)) else none
  | .irq c => if s.irqOn c then some (s.goto c (.drain :: s.acts c)) else none
  | .step c => s.act depth c
  | .main0 => if s.acts .core0 = [] then s.main0Next depth cmd else none
  | .main1 => if s.acts .core1 = [] then s.main1Next else none
  | .bootRead =>
    if s.main1 = .bootrom ∧ s.fifo .core1 ≠ [] then some (s.pop .core1) else none
  | .bootWrite v =>
    if s.main1 = .bootrom then some (s.push depth .core0 { value := v, doorbell := false })
    else none
  | .bootEnter => if s.main1 = .bootrom then some { s with main1 := .drainTest } else none

/-- A drain of the core is still to come. -/
def undrained : Core → Bool
  | .core0 => s.main0 ≠ .unmask && s.main0 ≠ .done
  | .core1 => s.main1 = .bootrom || s.main1 = .drainTest || s.main1 = .drainRead

/-- The transport alone. -/
def ipi : IpiSys :=
  { pending := s.pending, fifo := .ofFn fun c => (s.fifo c).length, acts := s.acts }

end LaunchSys

/-- `cmd[]`, with the addresses of the image. -/
def launchCmd (vtor sp entry : BitVec 32) (seq : Nat) : BitVec 32 :=
  [0, 0, 1, vtor, sp, entry ||| 1].getD seq 0

def launchMachine (depth : Nat) (cmd : Nat → BitVec 32) : Lts LaunchSys LaunchEvent where
  init s := s = .boot
  step := LaunchSys.step depth cmd

/-- A doorbell is taken for a command by the bootrom, or for an echo by core 0. -/
def LaunchSys.Mistakes (s : LaunchSys) (e : LaunchEvent) : Prop :=
  (e = .bootRead ∧ s.main1 = .bootrom ∧ ∃ w rest, s.fifo .core1 = w :: rest ∧ w.doorbell = true) ∨
    (e = .main0 ∧ (∃ seq attempts, s.main0 = .popRead seq attempts) ∧
      ∃ w rest, s.fifo .core0 = w :: rest ∧ w.doorbell = true)

/-- The last step of a `knl_ipi_send` of core `c`. -/
def LaunchSys.Ends (depth : Nat) (c : Core) (s : LaunchSys) (e : LaunchEvent) : Prop :=
  e = .step c ∧ s.ipi.Finishes depth c (.step c)

/-- No `knl_ipi_send` ends before its target has drained. -/
def LaunchSys.InTime (depth : Nat) (s : LaunchSys) (e : LaunchEvent) : Prop :=
  ∀ c, s.Ends depth c e → s.undrained c.other = false

/-! ## What the handover keeps -/

/-- Every reason is announced; while a drain is to come, no doorbell has been rung yet, and
every reason still has its sender. -/
structure LaunchInv (s : LaunchSys) : Prop where
  announced : ∀ c, s.ipi.Announced c
  clean : ∀ c, s.undrained c = true → ∀ w ∈ s.fifo c, w.doorbell = false
  ringing : ∀ c, s.undrained c = true → s.pending c ≠ 0 → s.ipi.Ringing c.other

namespace LaunchSys

variable {depth : Nat} {cmd : Nat → BitVec 32} {s s' : LaunchSys} {c : Core}

theorem fifo_ipi (c : Core) : s.ipi.fifo c = (s.fifo c).length := by
  cases c <;> rfl

theorem ipi_push (w : FifoWord) :
    (s.push depth c.other w).ipi = s.ipi.doorbell depth c := by
  unfold ipi push IpiSys.doorbell
  congr 1
  apply PerCore.ext_get
  intro d
  have hlen : (if (s.fifo c.other).length < depth then s.fifo c.other ++ [w]
      else s.fifo c.other).length =
      if (s.fifo c.other).length < depth then (s.fifo c.other).length + 1
      else (s.fifo c.other).length := by
    split
    · rw [List.length_append, List.length_singleton]
    · rfl
  cases c <;> cases d <;> first | rfl | exact hlen

theorem ipi_pop : (s.pop c).ipi = { s.ipi with fifo := s.ipi.fifo.set c (s.ipi.fifo c - 1) } := by
  unfold ipi pop
  congr 1
  apply PerCore.ext_get
  intro d
  cases c <;> cases d <;> first | rfl | exact List.length_tail

theorem ipi_goto (rest : List IpiAct) : (s.goto c rest).ipi = s.ipi.goto c rest := rfl

/-- An access is one of the transport. -/
theorem act_ipi (h : s.act depth c = some s') : ipiStep depth s.ipi c = some s'.ipi := by
  have hacts : s.ipi.acts c = s.acts c := rfl
  unfold act at h
  unfold ipiStep
  rw [hacts]
  cases ha : s.acts c with
  | nil =>
    rw [ha] at h
    cases h
  | cons a rest =>
    rw [ha] at h
    cases a with
    | set r =>
      cases h
      rfl
    | test =>
      dsimp only at h ⊢
      rw [fifo_ipi]
      split at h
      · rename_i hroom
        cases h
        rw [if_pos hroom, ipi_goto]
      · rename_i hfull
        cases h
        rw [if_neg hfull, ipi_goto]
    | ring =>
      cases h
      dsimp only
      rw [ipi_goto, ipi_push]
    | drain =>
      dsimp only at h ⊢
      rw [fifo_ipi]
      split at h
      · rename_i hempty
        cases h
        rw [if_pos (List.length_eq_zero_iff.2 hempty), ipi_goto]
      · rename_i hmore
        cases h
        rw [if_neg (fun h => hmore (List.length_eq_zero_iff.1 h)), ipi_goto]
    | pop =>
      cases h
      dsimp only
      rw [ipi_goto, ipi_pop]
      rfl
    | take =>
      cases h
      rfl

theorem undrained_act (h : s.act depth c = some s') (d : Core) : s'.undrained d = s.undrained d := by
  unfold act at h
  split at h
  · cases h
  · cases h
    rfl
  · split at h <;> cases h <;> rfl
  · cases h
    rfl
  · split at h <;> cases h <;> rfl
  · cases h
    rfl
  · cases h
    rfl

/-- The activations below the innermost one stay, and so does their ringing. -/
theorem ringing_below {a : IpiAct} {rest as : List IpiAct} (hr : s.ipi.Ringing c)
    (ha : s.acts c = a :: rest) (hne : a ≠ .test ∧ a ≠ .ring) (has : s'.acts c = as)
    (hsub : ∀ x ∈ rest, x ∈ as) : s'.ipi.Ringing c := by
  obtain ⟨x, hx, hx'⟩ := hr
  refine ⟨x, ?_, hx'⟩
  have hmem : x ∈ a :: rest := ha ▸ hx
  show x ∈ s'.acts c
  rw [has]
  rcases List.mem_cons.1 hmem with rfl | hrest
  · rcases hx' with h | h
    exacts [absurd h hne.1, absurd h hne.2]
  · exact hsub x hrest

theorem ringing_same (hr : s.ipi.Ringing c) (ha : s'.acts c = s.acts c) : s'.ipi.Ringing c := by
  obtain ⟨x, hx, hx'⟩ := hr
  exact ⟨x, ha ▸ hx, hx'⟩

theorem acts_goto_self (as : List IpiAct) : (s.goto c as).acts c = as := by
  simp [goto]

theorem acts_goto_other (as : List IpiAct) : (s.goto c as).acts c.other = s.acts c.other := by
  simp [goto]

theorem launchInv_act (hd : 0 < depth) (inv : LaunchInv s) (hin : s.InTime depth (.step c))
    (h : s.act depth c = some s') : LaunchInv s' := by
  have hundrained := undrained_act h
  -- a send that ends is one to a core that has drained
  have hends (hf : s.ipi.Finishes depth c (.step c)) : s.undrained c.other = false :=
    hin c ⟨rfl, hf⟩
  refine ⟨announced_ipiStep hd inv.announced (act_ipi h), ?_, ?_⟩
  · intro d hu
    rw [hundrained] at hu
    have hclean := inv.clean d hu
    unfold act at h
    cases ha : s.acts c with
    | nil =>
      rw [ha] at h
      cases h
    | cons a rest =>
      rw [ha] at h
      cases a with
      | set r | take =>
        cases h
        exact hclean
      | test | drain =>
        dsimp only at h
        split at h <;> cases h <;> exact hclean
      | ring =>
        cases h
        rcases Core.eq_or_other c d with rfl | rfl
        · simpa [goto, push] using hclean
        · rw [hends ⟨rfl, rest, Or.inl ha⟩] at hu
          cases hu
      | pop =>
        cases h
        rcases Core.eq_or_other c d with rfl | rfl
        · intro w hw
          simp only [goto, pop, PerCore.get_set_self] at hw
          exact hclean w (List.mem_of_mem_tail hw)
        · simpa [goto, pop] using hclean
  · intro d hu hp
    rw [hundrained] at hu
    have hring := inv.ringing d hu
    unfold act at h
    cases ha : s.acts c with
    | nil =>
      rw [ha] at h
      cases h
    | cons a rest =>
      rw [ha] at h
      cases a with
      | set r =>
        cases h
        rcases Core.eq_or_other c d with rfl | rfl
        · refine ringing_same (hring ?_) (acts_goto_other _)
          simpa using hp
        · rw [Core.other_other]
          exact ⟨.test, by simp [ipi, goto], Or.inl rfl⟩
      | test =>
        dsimp only at h
        split at h
        · cases h
          rcases Core.eq_or_other c d with rfl | rfl
          · exact ringing_same (hring hp) (acts_goto_other _)
          · rw [Core.other_other]
            exact ⟨.ring, by simp [ipi, goto], Or.inr rfl⟩
        · rename_i hfull
          cases h
          rcases Core.eq_or_other c d with rfl | rfl
          · exact ringing_same (hring hp) (acts_goto_other _)
          · have hf : s.ipi.Finishes depth c (.step c) := by
              refine ⟨rfl, rest, Or.inr ⟨ha, ?_⟩⟩
              rw [fifo_ipi]
              omega
            rw [hends hf] at hu
            cases hu
      | ring =>
        cases h
        rcases Core.eq_or_other c d with rfl | rfl
        · exact ringing_same (hring hp) (acts_goto_other _)
        · rw [hends ⟨rfl, rest, Or.inl ha⟩] at hu
          cases hu
      | drain =>
        dsimp only at h
        split at h <;> cases h
        · rcases Core.eq_or_other c d with rfl | rfl
          · exact ringing_same (hring hp) (acts_goto_other _)
          · rw [Core.other_other]
            have hold := hring hp
            rw [Core.other_other] at hold
            exact ringing_below hold ha (by simp) (acts_goto_self _)
              (fun x hx => List.mem_cons_of_mem _ hx)
        · rcases Core.eq_or_other c d with rfl | rfl
          · exact ringing_same (hring hp) (acts_goto_other _)
          · rw [Core.other_other]
            have hold := hring hp
            rw [Core.other_other] at hold
            exact ringing_below hold ha (by simp) (acts_goto_self _)
              (fun x hx => List.mem_cons_of_mem _ hx)
      | pop =>
        cases h
        rcases Core.eq_or_other c d with rfl | rfl
        · exact ringing_same (hring hp) (acts_goto_other _)
        · rw [Core.other_other]
          have hold := hring hp
          rw [Core.other_other] at hold
          exact ringing_below hold ha (by simp) (acts_goto_self _)
            (fun x hx => List.mem_cons_of_mem _ hx)
      | take =>
        cases h
        rcases Core.eq_or_other c d with rfl | rfl
        · exact absurd (by simp) hp
        · rw [Core.other_other]
          have hold := hring (by simpa using hp)
          rw [Core.other_other] at hold
          exact ringing_below hold ha (by simp) (acts_goto_self _) (fun x hx => hx)

/-- A step that leaves masks and activations alone, brings no doorbell, and takes words only
from a FIFO that is still to be drained. -/
theorem launchInv_frame (inv : LaunchInv s) (hp : s'.pending = s.pending) (ha : s'.acts = s.acts)
    (hu : ∀ c, s'.undrained c = true → s.undrained c = true)
    (hw : ∀ c, ∀ w ∈ s'.fifo c, w ∈ s.fifo c ∨ w.doorbell = false)
    (hl : ∀ c, s.undrained c = true ∨ (s.fifo c).length ≤ (s'.fifo c).length) : LaunchInv s' := by
  have hring (c : Core) (hr : s.ipi.Ringing c) : s'.ipi.Ringing c :=
    ringing_same hr (congrArg (fun a : PerCore _ => a c) ha)
  refine ⟨?_, ?_, ?_⟩
  · intro c hne
    have hne' : s.pending c ≠ 0 := by
      rw [← hp]
      exact hne
    by_cases hund : s.undrained c = true
    · exact Or.inr (Or.inl (hring _ (inv.ringing c hund hne')))
    · have hle := (hl c).resolve_left hund
      rcases inv.announced c hne' with h | h | ⟨x, hx, hx'⟩
      · rw [fifo_ipi] at h
        refine Or.inl ?_
        rw [fifo_ipi]
        omega
      · exact Or.inr (Or.inl (hring _ h))
      · by_cases hempty : (s'.fifo c).length = 0
        · refine Or.inr (Or.inr ⟨x, ?_, ?_⟩)
          · show x ∈ s'.acts c
            rw [ha]
            exact hx
          · rw [fifo_ipi, hempty]
            rcases hx' with h | h
            exacts [Or.inl h, Or.inr ⟨h.1, rfl⟩]
        · refine Or.inl ?_
          rw [fifo_ipi]
          omega
  · intro c hund w hmem
    rcases hw c w hmem with h | h
    · exact inv.clean c (hu c hund) w h
    · exact h
  · intro c hund hne
    rw [hp] at hne
    exact hring _ (inv.ringing c (hu c hund) hne)

theorem launchInv_same (inv : LaunchInv s) (hp : s'.pending = s.pending) (ha : s'.acts = s.acts)
    (hu : ∀ c, s'.undrained c = true → s.undrained c = true) (hf : s'.fifo = s.fifo) :
    LaunchInv s' := by
  refine launchInv_frame inv hp ha hu ?_ ?_
  · intro c w hw
    rw [hf] at hw
    exact Or.inl hw
  · intro c
    rw [hf]
    exact Or.inr (Nat.le_refl _)

theorem launchInv_pop (inv : LaunchInv s) (hp : s'.pending = s.pending) (ha : s'.acts = s.acts)
    (hu : ∀ c, s'.undrained c = true → s.undrained c = true) (hc : s.undrained c = true)
    (hf : s'.fifo = (s.pop c).fifo) : LaunchInv s' := by
  refine launchInv_frame inv hp ha hu ?_ ?_
  · intro d w hw
    rw [hf] at hw
    rcases Core.eq_or_other c d with rfl | rfl
    · simp only [pop, PerCore.get_set_self] at hw
      exact Or.inl (List.mem_of_mem_tail hw)
    · simp only [pop, PerCore.get_set_other] at hw
      exact Or.inl hw
  · intro d
    rcases Core.eq_or_other c d with rfl | rfl
    · exact Or.inl hc
    · rw [hf]
      simp [pop]

theorem launchInv_push {w : FifoWord} (inv : LaunchInv s) (hp : s'.pending = s.pending)
    (ha : s'.acts = s.acts) (hu : ∀ c, s'.undrained c = true → s.undrained c = true)
    (hw : w.doorbell = false) (hf : s'.fifo = (s.push depth c w).fifo) : LaunchInv s' := by
  refine launchInv_frame inv hp ha hu ?_ ?_
  · intro d x hx
    rw [hf] at hx
    rcases Core.eq_or_other c d with rfl | rfl
    · simp only [push, PerCore.get_set_self] at hx
      split at hx
      · rcases List.mem_append.1 hx with h | h
        · exact Or.inl h
        · rw [List.mem_singleton.1 h]
          exact Or.inr hw
      · exact Or.inl hx
    · simp only [push, PerCore.get_set_other] at hx
      exact Or.inl hx
  · intro d
    rw [hf]
    rcases Core.eq_or_other c d with rfl | rfl
    · refine Or.inr ?_
      simp only [push, PerCore.get_set_self]
      split
      · rw [List.length_append]
        omega
      · exact Nat.le_refl _
    · simp [push]

/-- While core 0 is in `knl_start_device` it has its drain to come. -/
theorem undrained_of_main0 {m : Main0} (hm : s.main0 = m) (hne : m ≠ .unmask ∧ m ≠ .done)
    (h1 : s'.main1 = s.main1) (d : Core) (hd : s'.undrained d = true) : s.undrained d = true := by
  cases d with
  | core0 => simp [undrained, hm, hne.1, hne.2]
  | core1 => simpa [undrained, h1] using hd

theorem launchInv_main0 (inv : LaunchInv s) (h : s.main0Next depth cmd = some s') :
    LaunchInv s' := by
  unfold main0Next at h
  cases hm : s.main0 with
  | before =>
    rw [hm] at h
    cases h
    exact launchInv_same inv rfl rfl (undrained_of_main0 hm (by simp) rfl) rfl
  | next seq attempts =>
    rw [hm] at h
    dsimp only at h
    split at h
    · split at h
      · cases h
        exact launchInv_same inv rfl rfl (undrained_of_main0 hm (by simp) rfl) rfl
      · split at h <;> cases h <;>
          exact launchInv_same inv rfl rfl (undrained_of_main0 hm (by simp) rfl) rfl
    · cases h
      exact launchInv_same inv rfl rfl (undrained_of_main0 hm (by simp) rfl) rfl
  | drainTest seq attempts =>
    rw [hm] at h
    dsimp only at h
    split at h <;> cases h <;>
      exact launchInv_same inv rfl rfl (undrained_of_main0 hm (by simp) rfl) rfl
  | drainRead seq attempts =>
    rw [hm] at h
    cases h
    exact launchInv_pop (c := .core0) inv rfl rfl (undrained_of_main0 hm (by simp) rfl)
      (by simp [undrained, hm]) rfl
  | pushTest seq attempts spin =>
    rw [hm] at h
    dsimp only at h
    split at h
    · split at h <;> cases h <;>
        exact launchInv_same inv rfl rfl (undrained_of_main0 hm (by simp) rfl) rfl
    · cases h
      exact launchInv_same inv rfl rfl (undrained_of_main0 hm (by simp) rfl) rfl
  | pushWrite seq attempts =>
    rw [hm] at h
    cases h
    exact launchInv_push (c := .core1) (w := { value := cmd seq, doorbell := false }) inv rfl rfl
      (undrained_of_main0 hm (by simp) rfl) rfl rfl
  | popTest seq attempts spin =>
    rw [hm] at h
    dsimp only at h
    split at h
    · split at h <;> cases h <;>
        exact launchInv_same inv rfl rfl (undrained_of_main0 hm (by simp) rfl) rfl
    · cases h
      exact launchInv_same inv rfl rfl (undrained_of_main0 hm (by simp) rfl) rfl
  | popRead seq attempts =>
    rw [hm] at h
    cases h
    exact launchInv_pop (c := .core0) inv rfl rfl (undrained_of_main0 hm (by simp) rfl)
      (by simp [undrained, hm]) rfl
  | wait spin =>
    rw [hm] at h
    dsimp only at h
    split at h
    · split at h <;> cases h <;>
        exact launchInv_same inv rfl rfl (undrained_of_main0 hm (by simp) rfl) rfl
    · cases h
      exact launchInv_same inv rfl rfl (undrained_of_main0 hm (by simp) rfl) rfl
  | publish =>
    rw [hm] at h
    cases h
    exact launchInv_same inv rfl rfl (undrained_of_main0 hm (by simp) rfl) rfl
  | initTest =>
    rw [hm] at h
    dsimp only at h
    split at h <;> cases h <;>
      exact launchInv_same inv rfl rfl (undrained_of_main0 hm (by simp) rfl) rfl
  | initRead =>
    rw [hm] at h
    cases h
    exact launchInv_pop (c := .core0) inv rfl rfl (undrained_of_main0 hm (by simp) rfl)
      (by simp [undrained, hm]) rfl
  | unmask =>
    rw [hm] at h
    cases h
    refine launchInv_same inv rfl rfl ?_ rfl
    intro d hd
    cases d with
    | core0 => simp [undrained] at hd
    | core1 => exact hd
  | done =>
    rw [hm] at h
    cases h

theorem launchInv_main1 (inv : LaunchInv s) (h : s.main1Next = some s') : LaunchInv s' := by
  unfold main1Next at h
  split at h
  · cases h
  · rename_i hm
    split at h <;> cases h
    · refine launchInv_same inv rfl rfl ?_ rfl
      intro d hd
      cases d with
      | core0 => exact hd
      | core1 => simp [undrained, hm]
    · refine launchInv_same inv rfl rfl ?_ rfl
      intro d hd
      cases d with
      | core0 => exact hd
      | core1 => simp [undrained, hm]
  · rename_i hm
    cases h
    refine launchInv_pop (c := .core1) inv rfl rfl ?_ (by simp [undrained, hm]) rfl
    intro d hd
    cases d with
    | core0 => exact hd
    | core1 => simp [undrained, hm]
  · cases h
    refine launchInv_same inv rfl rfl ?_ rfl
    intro d hd
    cases d with
    | core0 => exact hd
    | core1 => simp [undrained] at hd
  · cases h
    refine launchInv_same inv rfl rfl ?_ rfl
    intro d hd
    cases d with
    | core0 => exact hd
    | core1 => simp [undrained] at hd
  · cases h

theorem launchInv_push_act (inv : LaunchInv s) (a : IpiAct) (c : Core) :
    LaunchInv (s.goto c (a :: s.acts c)) := by
  refine ⟨announced_push inv.announced a c, inv.clean, ?_⟩
  intro d hu hp
  obtain ⟨x, hx, hx'⟩ := inv.ringing d hu hp
  refine ⟨x, ?_, hx'⟩
  have hx : x ∈ s.acts d.other := hx
  show x ∈ (s.acts.set c (a :: s.acts c)) d.other
  rcases Core.eq_or_other c d.other with h | h
  · rw [h] at hx ⊢
    simpa using Or.inr hx
  · rw [h] at hx ⊢
    simpa using hx

theorem launchInv_step {e : LaunchEvent} (hd : 0 < depth) (inv : LaunchInv s)
    (hin : s.InTime depth e) (h : s.step depth cmd e = some s') : LaunchInv s' := by
  cases e with
  | send c r =>
    obtain ⟨-, hs⟩ := Option.ite_none_right_eq_some.1 h
    cases hs
    exact launchInv_push_act inv _ c
  | irq c =>
    obtain ⟨-, hs⟩ := Option.ite_none_right_eq_some.1 h
    cases hs
    exact launchInv_push_act inv _ c
  | step c => exact launchInv_act hd inv hin h
  | main0 =>
    obtain ⟨-, hs⟩ := Option.ite_none_right_eq_some.1 h
    exact launchInv_main0 inv hs
  | main1 =>
    obtain ⟨-, hs⟩ := Option.ite_none_right_eq_some.1 h
    exact launchInv_main1 inv hs
  | bootRead =>
    obtain ⟨⟨hm, -⟩, hs⟩ := Option.ite_none_right_eq_some.1 h
    cases hs
    exact launchInv_pop (c := .core1) inv rfl rfl (fun _ hd => hd) (by simp [undrained, hm]) rfl
  | bootWrite v =>
    obtain ⟨-, hs⟩ := Option.ite_none_right_eq_some.1 h
    cases hs
    exact launchInv_push (c := .core0) (w := { value := v, doorbell := false }) inv rfl rfl
      (fun _ hd => hd) rfl rfl
  | bootEnter =>
    obtain ⟨hm, hs⟩ := Option.ite_none_right_eq_some.1 h
    cases hs
    refine launchInv_same inv rfl rfl ?_ rfl
    intro d hd
    cases d with
    | core0 => exact hd
    | core1 => simp [undrained, hm]

theorem launchInv_boot : LaunchInv boot := by
  refine ⟨?_, ?_, ?_⟩
  · intro c hp
    exact absurd (by cases c <;> rfl) hp
  · intro c _ w hw
    cases c <;> cases hw
  · intro c _ hp
    exact absurd (by cases c <;> rfl) hp

theorem launchInv_of_reachable (hd : 0 < depth)
    (reach : (launchMachine depth cmd).ReachableIf (fun s e => s.InTime depth e) s) :
    LaunchInv s := by
  refine reach.invariant LaunchInv ?_ ?_
  · rintro s rfl
    exact launchInv_boot
  · intro s e t inv hin hs
    exact launchInv_step hd inv hin hs

end LaunchSys

/-- The handover loses nothing and mistakes nothing as long as no `knl_ipi_send` ends before
its target has drained: when both interrupts are unmasked every pending reason is announced,
and no doorbell is ever read as a word of the handshake. -/
theorem launch_hands_over (depth : Nat) (hd : 0 < depth) (cmd : Nat → BitVec 32) (s : LaunchSys)
    (reach : (launchMachine depth cmd).ReachableIf (fun s e => s.InTime depth e) s) :
    (s.irqOn .core0 = true → s.irqOn .core1 = true → ∀ c, s.ipi.Announced c) ∧
      ∀ e, ¬s.Mistakes e := by
  have inv := LaunchSys.launchInv_of_reachable hd reach
  refine ⟨fun _ _ => inv.announced, ?_⟩
  rintro e (⟨-, hm, w, rest, hf, hw⟩ | ⟨-, ⟨seq, attempts, hm⟩, w, rest, hf, hw⟩)
  · have hclean := inv.clean .core1 (by simp [LaunchSys.undrained, hm]) w
      (by rw [hf]; exact List.mem_cons_self)
    rw [hw] at hclean
    cases hclean
  · have hclean := inv.clean .core0 (by simp [LaunchSys.undrained, hm]) w
      (by rw [hf]; exact List.mem_cons_self)
    rw [hw] at hclean
    cases hclean

/-- One word of the handshake, from `while (seq < 6)` on: a 0 comes with a drain, here of an
empty FIFO. -/
def wordEvents (value : BitVec 32) : List LaunchEvent :=
  List.replicate (if value = 0 then 4 else 3) .main0 ++
    [.bootRead, .bootWrite value, .main0, .main0]

/-- The handshake from the first drain on, and both cores up to the two unmasked interrupts. -/
def drainedEvents : List LaunchEvent :=
  List.replicate 3 .main0 ++ [.bootRead, .bootWrite 0, .main0, .main0] ++
    [0, 1, 0x20000000, 0x20042000, 0x10000401].flatMap wordEvents ++
      [.bootEnter, .main1, .main1, .main1, .main0, .main0, .main0, .main0, .main0]

def startCmd : Nat → BitVec 32 := launchCmd 0x20000000 0x20042000 0x10000400

/-- That no send ends too early, for a run. -/
def LaunchSys.inTime (s : LaunchSys) : LaunchEvent → Bool
  | .step c => !s.undrained c.other
  | _ => true

theorem LaunchSys.inTime_sound {depth : Nat} {s : LaunchSys} {e : LaunchEvent}
    (h : s.inTime e = true) : s.InTime depth e := by
  rintro c ⟨rfl, -⟩
  simpa [LaunchSys.inTime] using h

/-- Both cores up, and a PING of core 0 in the mailbox of core 1. -/
theorem launch_hands_over_ping : ∃ s : LaunchSys, s.irqOn .core0 = true ∧ s.irqOn .core1 = true ∧
    s.pending .core1 = 1 ∧ (∀ c, s.ipi.Announced c) ∧ ∀ e, ¬s.Mistakes e := by
  obtain ⟨s, hreach, hs⟩ := @Lts.reachable_of_exec _ _ (launchMachine 8 startCmd)
    (fun s e => s.InTime 8 e) LaunchSys.inTime
    (fun s => s.irqOn .core0 && s.irqOn .core1 && s.pending .core1 == 1)
    (fun _ _ h => LaunchSys.inTime_sound h) .boot
    ([.main0, .main0] ++ drainedEvents ++
      [.send .core0 1, .step .core0, .step .core0, .step .core0]) rfl (by decide +kernel)
  simp only [Bool.and_eq_true, beq_iff_eq] at hs
  obtain ⟨⟨h0, h1⟩, hp⟩ := hs
  obtain ⟨hann, hmist⟩ := launch_hands_over 8 (by decide) startCmd s hreach
  exact ⟨s, h0, h1, hp, hann h0 h1, hmist⟩

/-- A time handler of core 1 is due while core 1 is still in the bootrom. -/
def earlyHandler : List LaunchEvent :=
  [.send .core0 4, .step .core0, .step .core0, .step .core0]

/-- Its doorbell is the first word the bootrom reads, and when both cores run, its bit is in
the mask of core 1 for good. -/
theorem launch_loses_handler :
    (∃ s, (launchMachine 8 startCmd).Reachable s ∧ s.Mistakes .bootRead) ∧
      ∃ s, (launchMachine 8 startCmd).Reachable s ∧ s.irqOn .core0 = true ∧
        s.irqOn .core1 = true ∧ ¬s.ipi.Announced .core1 := by
  constructor
  · obtain ⟨s, hreach, hs⟩ := @Lts.reachable_of_trace _ _ (launchMachine 8 startCmd)
      (fun s => s.main1 = .bootrom && (s.fifo .core1 == [{ value := 0, doorbell := true }]))
      .boot earlyHandler rfl (by decide +kernel)
    rw [Bool.and_eq_true, decide_eq_true_eq, beq_iff_eq] at hs
    exact ⟨s, hreach, Or.inl ⟨rfl, hs.1, _, _, hs.2, rfl⟩⟩
  · obtain ⟨s, hreach, hs⟩ := @Lts.reachable_of_trace _ _ (launchMachine 8 startCmd)
      (fun s => s.irqOn .core0 && s.irqOn .core1 && s.pending .core1 == 4 &&
        s.fifo .core1 == [] && s.acts .core0 == [] && s.acts .core1 == [])
      .boot (earlyHandler ++ [.bootRead, .bootWrite 0, .main0, .main0, .main0, .main0] ++
        drainedEvents) rfl (by decide +kernel)
    simp only [Bool.and_eq_true, beq_iff_eq] at hs
    obtain ⟨⟨⟨⟨⟨h0, h1⟩, hp⟩, hf⟩, ha0⟩, ha1⟩ := hs
    refine ⟨s, hreach, h0, h1, ?_⟩
    intro hann
    have hne : s.ipi.pending .core1 ≠ 0 := by
      show s.pending .core1 ≠ 0
      rw [hp]
      decide
    rcases hann hne with h | ⟨x, hx, -⟩ | ⟨x, hx, -⟩
    · rw [LaunchSys.fifo_ipi, hf] at h
      cases h
    · have hx : x ∈ s.acts .core0 := hx
      rw [ha0] at hx
      cases hx
    · have hx : x ∈ s.acts .core1 := hx
      rw [ha1] at hx
      cases hx

end Mtk3Smp
