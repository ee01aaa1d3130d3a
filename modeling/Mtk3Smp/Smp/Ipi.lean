import Mtk3Smp.Kernel.State
import Mtk3Smp.Lib.Lts

/-!
# The IPI transport

`knl_ipi_send` and `knl_ipi_take` (`smp_rp2040.c`): reasons are coalesced into a mask of the
target, and the mailbox FIFO of the target is only a doorbell, whose write is skipped when the
FIFO is full. Every call site names the other core and runs in a critical section or in a
handler, so a send ends on the core it began on; handlers nest on a core in any order.
-/

namespace Mtk3Smp

/-- `UW` with one bit for each KNL_IPI reason. -/
abbrev Reasons := BitVec 32

/-- An activation of one of the two functions, at its next access to what the cores share. -/
inductive IpiAct
  /-- `knl_ipi_send`: at `knl_arch_atomic_bitset`, at the test of FIFO_ST_RDY, at the write to
  SIO_FIFO_WR -/
  | set (reasons : Reasons)
  | test
  | ring
  /-- `knl_ipi_take`: at the test of FIFO_ST_VLD, at the read of SIO_FIFO_RD, at
  `knl_arch_atomic_take` -/
  | drain
  | pop
  | take
  deriving DecidableEq

structure IpiSys where
  /-- `knl_ipi_pending[]` -/
  pending : PerCore Reasons
  /-- the number of words in the FIFO that a core reads -/
  fifo : PerCore Nat
  /-- the open activations of a core, innermost first -/
  acts : PerCore (List IpiAct)
  deriving DecidableEq

inductive IpiEvent
  | send (c : Core) (reasons : Reasons)
  | irq (c : Core)
  | step (c : Core)

/-- Both mailboxes empty, no reason pending. -/
def IpiSys.boot : IpiSys :=
  { pending := .ofFn fun _ => 0, fifo := .ofFn fun _ => 0, acts := .ofFn fun _ => [] }

section Steps

variable (depth : Nat) (s : IpiSys) (c : Core)

/-- The activations of core `c` after its innermost one moved on. -/
def IpiSys.goto (rest : List IpiAct) : IpiSys := { s with acts := s.acts.set c rest }

/-- A word for the other core; a full FIFO ignores it. -/
def IpiSys.doorbell : IpiSys :=
  { s with
    fifo := s.fifo.set c.other
      (if s.fifo c.other < depth then s.fifo c.other + 1 else s.fifo c.other) }

/-- The next access of the innermost activation of core `c`. -/
def ipiStep : Option IpiSys :=
  match s.acts c with
  | [] => none
  | .set r :: rest =>
    some { s.goto c (.test :: rest) with
      pending := s.pending.set c.other (s.pending c.other ||| r) }
  | .test :: rest =>
    if s.fifo c.other < depth then some (s.goto c (.ring :: rest)) else some (s.goto c rest)
  | .ring :: rest => some ((s.doorbell depth c).goto c rest)
  | .drain :: rest =>
    if s.fifo c = 0 then some (s.goto c (.take :: rest)) else some (s.goto c (.pop :: rest))
  | .pop :: rest => some { s.goto c (.drain :: rest) with fifo := s.fifo.set c (s.fifo c - 1) }
  | .take :: rest => some { s.goto c rest with pending := s.pending.set c 0 }

def IpiSys.step : IpiEvent → Option IpiSys
  | .send c r => some (s.goto c (.set r :: s.acts c))
  | .irq c => some (s.goto c (.drain :: s.acts c))
  | .step c => ipiStep depth s c

end Steps

/-- The transport with FIFOs of `depth` words. -/
def ipiMachine (depth : Nat) : Lts IpiSys IpiEvent where
  init s := s = .boot
  step := IpiSys.step depth

/-- The step in which `knl_ipi_take` of core `c` takes the mask. -/
def IpiSys.Takes (c : Core) (s : IpiSys) (e : IpiEvent) : Prop :=
  e = .step c ∧ ∃ rest, s.acts c = .take :: rest

/-- The step in which a send of core `c` raises `r`. -/
def IpiSys.Raises (c : Core) (r : Reasons) (s : IpiSys) (e : IpiEvent) : Prop :=
  e = .step c ∧ ∃ rest, s.acts c = .set r :: rest

/-- The last step of a send of core `c`. -/
def IpiSys.Finishes (depth : Nat) (c : Core) (s : IpiSys) (e : IpiEvent) : Prop :=
  e = .step c ∧ ∃ rest, s.acts c = .ring :: rest ∨
    (s.acts c = .test :: rest ∧ depth ≤ s.fifo c.other)

/-! ## A pending reason has a doorbell -/

/-- A send of core `c` is between the mask and the doorbell. -/
def IpiSys.Ringing (s : IpiSys) (c : Core) : Prop := ∃ a ∈ s.acts c, a = .test ∨ a = .ring

/-- `knl_ipi_take` of core `c` is past its last doorbell and before the mask: with an empty
FIFO, the test of FIFO_ST_VLD is already the end of the loop. -/
def IpiSys.Drained (s : IpiSys) (c : Core) : Prop :=
  ∃ a ∈ s.acts c, a = .take ∨ (a = .drain ∧ s.fifo c = 0)

/-- A reason pending for core `c` has a doorbell, a sender about to ring or a receiver about
to take. -/
def IpiSys.Announced (s : IpiSys) (c : Core) : Prop :=
  s.pending c ≠ 0 → 0 < s.fifo c ∨ s.Ringing c.other ∨ s.Drained c

section

variable {depth : Nat} {s s' : IpiSys} {c d : Core} {rest : List IpiAct} {i : Nat}

/-- What one step leaves of the activations of a core: those below the innermost one. -/
theorem acts_goto_self (as : List IpiAct) : (s.goto c as).acts c = as := by
  simp [IpiSys.goto]

theorem acts_goto_other (as : List IpiAct) : (s.goto c as).acts c.other = s.acts c.other := by
  simp [IpiSys.goto]

/-- A new activation leaves every reason announced. -/
theorem announced_push (inv : ∀ c, s.Announced c) (a : IpiAct) (c d : Core) :
    (s.goto c (a :: s.acts c)).Announced d := by
  have keep : ∀ x e, x ∈ s.acts e → x ∈ (s.goto c (a :: s.acts c)).acts e := by
    intro x e hx
    by_cases he : e = c
    · subst he
      rw [acts_goto_self]
      exact List.mem_cons_of_mem _ hx
    · simpa [IpiSys.goto, he] using hx
  intro hp
  rcases inv d hp with h | ⟨x, hx, h⟩ | ⟨x, hx, h⟩
  · exact .inl h
  · exact .inr (.inl ⟨x, keep _ _ hx, h⟩)
  · exact .inr (.inr ⟨x, keep _ _ hx, h⟩)

/-- A step of core `c` that touches only its own FIFO and mask and no send below it leaves
the reasons pending for the other core announced. -/
theorem announced_other {a : IpiAct} (inv : s.Announced c.other)
    (ha : s.acts c = a :: rest) (hs : a ≠ .test ∧ a ≠ .ring)
    (hp : s'.pending c.other = s.pending c.other) (hf : s'.fifo c.other = s.fifo c.other)
    (ho : s'.acts c.other = s.acts c.other) (hc : ∀ x ∈ rest, x ∈ s'.acts c) :
    s'.Announced c.other := by
  intro h
  rw [hp] at h
  rcases inv h with h | ⟨x, hx, h⟩ | ⟨x, hx, h⟩
  · exact .inl (hf ▸ h)
  · rw [Core.other_other, ha, List.mem_cons] at hx
    refine .inr (.inl ⟨x, ?_, h⟩)
    rw [Core.other_other]
    rcases hx with rfl | hx
    · rcases h with h | h
      exacts [absurd h hs.1, absurd h hs.2]
    · exact hc x hx
  · refine .inr (.inr ⟨x, ho ▸ hx, ?_⟩)
    rw [hf]
    exact h

/-- A step of a send of core `c` leaves the reasons pending for core `c` itself announced. -/
theorem announced_self {a : IpiAct} (inv : s.Announced c) (ha : s.acts c = a :: rest)
    (hs : a ≠ .take ∧ a ≠ .drain) (hp : s'.pending c = s.pending c)
    (hf : s'.fifo c = s.fifo c) (ho : s'.acts c.other = s.acts c.other)
    (hc : ∀ x ∈ rest, x ∈ s'.acts c) : s'.Announced c := by
  intro h
  rw [hp] at h
  rcases inv h with h | ⟨x, hx, h⟩ | ⟨x, hx, h⟩
  · exact .inl (hf ▸ h)
  · exact .inr (.inl ⟨x, ho ▸ hx, h⟩)
  · rw [ha, List.mem_cons] at hx
    refine .inr (.inr ⟨x, ?_, by rw [hf]; exact h⟩)
    rcases hx with rfl | hx
    · rcases h with h | h
      exacts [absurd h hs.1, absurd h.1 hs.2]
    · exact hc x hx

theorem announced_ipiStep (hd : 0 < depth) (inv : ∀ c, s.Announced c)
    (h : ipiStep depth s c = some s') : ∀ d, s'.Announced d := by
  intro d
  unfold ipiStep at h
  cases ha : s.acts c with
  | nil => simp [ha] at h
  | cons a rest =>
    cases a with
    | set r =>
      simp only [ha, Option.some.injEq] at h
      subst h
      rcases Core.eq_or_other c d with rfl | rfl
      · exact announced_self (inv _) ha (by simp) (by simp) rfl
          (acts_goto_other _) (by simp +contextual [IpiSys.goto])
      · exact fun _ => .inr (.inl ⟨.test, by simp [IpiSys.goto], .inl rfl⟩)
    | test =>
      simp only [ha] at h
      split at h <;> cases h
      · rcases Core.eq_or_other c d with rfl | rfl
        · exact announced_self (inv _) ha (by simp) rfl rfl (acts_goto_other _)
            (by simp +contextual [IpiSys.goto])
        · exact fun _ => .inr (.inl ⟨.ring, by simp [IpiSys.goto], .inr rfl⟩)
      · rename_i hfull
        rcases Core.eq_or_other c d with rfl | rfl
        · exact announced_self (inv _) ha (by simp) rfl rfl (acts_goto_other _)
            (by simp +contextual [IpiSys.goto])
        · exact fun _ => .inl (by simp only [IpiSys.goto]; omega)
    | ring =>
      simp only [ha, Option.some.injEq] at h
      subst h
      rcases Core.eq_or_other c d with rfl | rfl
      · exact announced_self (inv _) ha (by simp) rfl (by simp [IpiSys.goto, IpiSys.doorbell])
          (acts_goto_other _) (by simp +contextual [IpiSys.goto])
      · refine fun _ => .inl ?_
        simp only [IpiSys.goto, IpiSys.doorbell, PerCore.get_set_self]
        split <;> omega
    | drain =>
      simp only [ha] at h
      split at h <;> cases h
      · rcases Core.eq_or_other c d with rfl | rfl
        · exact fun _ => .inr (.inr ⟨.take, by simp [IpiSys.goto], .inl rfl⟩)
        · exact announced_other (inv _) ha (by simp) rfl rfl (acts_goto_other _)
            (by simp +contextual [IpiSys.goto])
      · rename_i hne
        rcases Core.eq_or_other c d with rfl | rfl
        · exact fun _ => .inl (by simp only [IpiSys.goto]; omega)
        · exact announced_other (inv _) ha (by simp) rfl rfl (acts_goto_other _)
            (by simp +contextual [IpiSys.goto])
    | pop =>
      simp only [ha, Option.some.injEq] at h
      subst h
      rcases Core.eq_or_other c d with rfl | rfl
      · -- the last word out leaves the receiver drained
        intro _
        by_cases hz : s.fifo d - 1 = 0
        · exact .inr (.inr ⟨.drain, by simp [IpiSys.goto], .inr ⟨rfl, by simp [hz]⟩⟩)
        · exact .inl (by simp only [PerCore.get_set_self]; omega)
      · exact announced_other (inv _) ha (by simp) rfl (by simp) (acts_goto_other _)
          (by simp +contextual [IpiSys.goto])
    | take =>
      simp only [ha, Option.some.injEq] at h
      subst h
      rcases Core.eq_or_other c d with rfl | rfl
      · exact fun hp => absurd (by simp) hp
      · exact announced_other (inv _) ha (by simp) (by simp) rfl (acts_goto_other _)
          (by simp +contextual [IpiSys.goto])

theorem announced_step {e : IpiEvent} (hd : 0 < depth) (inv : ∀ c, s.Announced c)
    (h : s.step depth e = some s') : ∀ d, s'.Announced d := by
  cases e with
  | send c r =>
    cases h
    exact announced_push inv _ _
  | irq c =>
    cases h
    exact announced_push inv _ _
  | step c => exact announced_ipiStep hd inv h

theorem announced_reachable (hd : 0 < depth) (h : (ipiMachine depth).Reachable s) (c : Core) :
    s.Announced c := by
  refine h.invariant (fun s => ∀ c, s.Announced c) ?_ ?_ c
  · rintro s rfl c hp
    simp [IpiSys.boot] at hp
  · intro s e t inv _ hs
    exact announced_step hd inv hs

/-! ## A pending reason stays until it is taken -/

theorem pending_step {e : IpiEvent} (h : s.step depth e = some s') (hc : ¬ s.Takes c e)
    (hp : (s.pending c).getLsbD i = true) : (s'.pending c).getLsbD i = true := by
  cases e with
  | send d r =>
    cases h
    exact hp
  | irq d =>
    cases h
    exact hp
  | step d =>
    simp only [IpiSys.step, ipiStep] at h
    cases ha : s.acts d with
    | nil => simp [ha] at h
    | cons a rest =>
      cases a with
      | set r =>
        simp only [ha, Option.some.injEq] at h
        subst h
        simp only [PerCore.get_set]
        split
        · rename_i he
          simp [← he, hp]
        · exact hp
      | test | drain =>
        simp only [ha] at h
        split at h <;> cases h <;> exact hp
      | ring | pop =>
        simp only [ha, Option.some.injEq] at h
        subst h
        exact hp
      | take =>
        simp only [ha, Option.some.injEq] at h
        subst h
        have hne : c ≠ d := by
          rintro rfl
          exact hc ⟨rfl, rest, ha⟩
        simpa [hne] using hp

theorem pending_run (run : (ipiMachine depth).RunIf (fun s e => ¬ s.Takes c e) s s')
    (hp : (s.pending c).getLsbD i = true) : (s'.pending c).getLsbD i = true :=
  run.invariant (fun s => (s.pending c).getLsbD i = true)
    (fun _ _ _ hp hc hs => pending_step hs hc hp) hp

theorem pending_raised {e : IpiEvent} {r : Reasons} (h : s.step depth e = some s')
    (hr : s.Raises c r e) (hi : r.getLsbD i = true) :
    (s'.pending c.other).getLsbD i = true := by
  obtain ⟨rfl, rest, ha⟩ := hr
  simp only [IpiSys.step, ipiStep, ha, Option.some.injEq] at h
  subst h
  simp [hi]

/-- A send ends with a doorbell in the FIFO. -/
theorem fifo_finished {e : IpiEvent} (hd : 0 < depth) (h : s.step depth e = some s')
    (hf : s.Finishes depth c e) : 0 < s'.fifo c.other := by
  obtain ⟨rfl, rest, ha | ⟨ha, hfull⟩⟩ := hf
  · simp only [IpiSys.step, ipiStep, ha, Option.some.injEq] at h
    subst h
    simp only [IpiSys.goto, IpiSys.doorbell, PerCore.get_set_self]
    split <;> omega
  · simp only [IpiSys.step, ipiStep, ha, if_neg (Nat.not_lt.2 hfull), Option.some.injEq] at h
    subst h
    exact Nat.lt_of_lt_of_le hd hfull

end

/-! ## Delivery -/

/-- The cores keep running: a core that has begun a send ends one, and a core whose FIFO
interrupt is asserted, or which is past its last doorbell, gets to its take. -/
structure FairIpi {depth : Nat} (p : (ipiMachine depth).Path) : Prop where
  sends : ∀ c n, (p.state n).Ringing c → ∃ m, n ≤ m ∧ (p.state m).Finishes depth c (p.event m)
  serves : ∀ c n, (0 < (p.state n).fifo c ∨ (p.state n).Drained c) →
    ∃ m, n ≤ m ∧ (p.state m).Takes c (p.event m)

section

variable {depth : Nat} {p : (ipiMachine depth).Path} {c : Core} {n m i : Nat}

/-- If some take follows, the first one returns the bit. -/
theorem returned_of_takes (hp : ((p.state n).pending c).getLsbD i = true) (hnm : n ≤ m)
    (ht : (p.state m).Takes c (p.event m)) :
    ∃ m, n ≤ m ∧ (p.state m).Takes c (p.event m) ∧
      ((p.state m).pending c).getLsbD i = true := by
  classical
  have ex : ∃ m, n ≤ m ∧ (p.state m).Takes c (p.event m) := ⟨m, hnm, ht⟩
  refine ⟨Nat.find ex, (Nat.find_spec ex).1, (Nat.find_spec ex).2, ?_⟩
  have run := p.run (fun s e => ¬ s.Takes c e) (Nat.find_spec ex).1 fun j hj hlt ht =>
    Nat.find_min ex hlt ⟨hj, ht⟩
  exact pending_run run hp

theorem returned_of_pending (hd : 0 < depth) (fair : FairIpi p)
    (hp : ((p.state n).pending c).getLsbD i = true) :
    ∃ m, n ≤ m ∧ (p.state m).Takes c (p.event m) ∧
      ((p.state m).pending c).getLsbD i = true := by
  have hne : (p.state n).pending c ≠ 0 := by
    intro h
    simp [h] at hp
  have ann := announced_reachable hd (p.reachable n) c hne
  rcases ann with h | h | h
  · obtain ⟨m, hm, ht⟩ := fair.serves c n (.inl h)
    exact returned_of_takes hp hm ht
  · -- the sender rings first, and its doorbell brings the receiver
    obtain ⟨m, hm, hf⟩ := fair.sends _ n h
    have hw := fifo_finished hd (p.next m) hf
    rw [Core.other_other] at hw
    obtain ⟨m', hm', ht⟩ := fair.serves c (m + 1) (.inl hw)
    exact returned_of_takes hp (by omega) ht
  · obtain ⟨m, hm, ht⟩ := fair.serves c n (.inr h)
    exact returned_of_takes hp hm ht

end

/-- The transport loses nothing: a pending reason is always announced, it stays until the
next take, and every reason that is raised is returned by a later take of its target. -/
theorem ipi_loses_nothing (depth : Nat) (hd : 0 < depth) :
    (∀ s, (ipiMachine depth).Reachable s → ∀ c, s.Announced c) ∧
      (∀ c i s s', (ipiMachine depth).RunIf (fun s e => ¬ s.Takes c e) s s' →
        (s.pending c).getLsbD i = true → (s'.pending c).getLsbD i = true) ∧
      ∀ p : (ipiMachine depth).Path, FairIpi p →
        ∀ c n r i, (p.state n).Raises c r (p.event n) → r.getLsbD i = true →
          ∃ m, n < m ∧ (p.state m).Takes c.other (p.event m) ∧
            ((p.state m).pending c.other).getLsbD i = true := by
  refine ⟨fun s h c => announced_reachable hd h c, fun c i s s' run hp => pending_run run hp, ?_⟩
  intro p fair c n r i hr hi
  exact returned_of_pending hd fair (pending_raised (p.next n) hr hi)

/-- One PING from core 0, delivered before the next begins. -/
def pingEvents : List IpiEvent :=
  [.send .core0 1, .step .core0, .step .core0, .step .core0, .irq .core1, .step .core1,
    .step .core1, .step .core1, .step .core1]

def pingState (k : Nat) : IpiSys :=
  ((ipiMachine 8).exec (fun _ _ => true) .boot (pingEvents.take k)).getD .boot

def pingEvent (k : Nat) : IpiEvent := pingEvents.getD k (.irq .core1)

/-- The pings of core 0, one after the other. -/
def pingPath : (ipiMachine 8).Path where
  state n := pingState (n % 9)
  event n := pingEvent (n % 9)
  start := rfl
  next n := by
    have step : ∀ k : Fin 9,
        (ipiMachine 8).step (pingState k) (pingEvent k) = some (pingState ((k + 1) % 9)) := by
      decide
    have succ : (n % 9 + 1) % 9 = (n + 1) % 9 := by omega
    rw [← succ]
    exact step ⟨n % 9, Nat.mod_lt n (by decide)⟩

theorem fairIpi_pingPath : FairIpi pingPath where
  sends c n h := by
    have idle : ∀ k : Fin 9, ∀ a ∈ (pingState k).acts .core1, ¬ (a = .test ∨ a = .ring) := by
      decide
    cases c with
    | core1 =>
      obtain ⟨a, ha, hr⟩ := h
      exact absurd hr (idle ⟨n % 9, Nat.mod_lt n (by decide)⟩ a ha)
    | core0 =>
      refine ⟨9 * (n / 9 + 1) + 3, by omega, ?_⟩
      have hm : (9 * (n / 9 + 1) + 3) % 9 = 3 := by omega
      simp only [pingPath, hm]
      exact ⟨rfl, [], .inl rfl⟩
  serves c n h := by
    have idle : ∀ k : Fin 9, (pingState k).fifo .core0 = 0 ∧
        ∀ a ∈ (pingState k).acts .core0, ¬ (a = .take ∨ (a = .drain ∧ (pingState k).fifo .core0 = 0)) := by
      decide
    cases c with
    | core0 =>
      have none := idle ⟨n % 9, Nat.mod_lt n (by decide)⟩
      rcases h with h | ⟨a, ha, hr⟩
      · exact absurd none.1 (Nat.pos_iff_ne_zero.1 h)
      · exact absurd hr (none.2 a ha)
    | core1 =>
      refine ⟨9 * (n / 9 + 1) + 8, by omega, ?_⟩
      have hm : (9 * (n / 9 + 1) + 8) % 9 = 8 := by omega
      simp only [pingPath, hm]
      exact ⟨rfl, [], rfl⟩

/-- With the eight-word FIFO of the chip: the first PING is taken by core 1. -/
theorem ipi_loses_nothing_ping :
    ∃ m, 1 < m ∧ (pingPath.state m).Takes .core1 (pingPath.event m) ∧
      ((pingPath.state m).pending .core1).getLsbD 0 = true :=
  (ipi_loses_nothing 8 (by decide)).2.2 pingPath fairIpi_pingPath .core0 1 1 0
    ⟨rfl, [], rfl⟩ (by decide)

end Mtk3Smp
