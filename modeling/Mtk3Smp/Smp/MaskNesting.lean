import Mathlib.Data.Bool.Basic
import Mathlib.Data.List.Basic
import Mathlib.Data.Nat.Init

/-!
# Brackets that mask interrupts

BEGIN_CRITICAL_SECTION saves PRIMASK in a local variable, the kernel lock (`smp_lock.c`) in one
variable of the core, and the brackets nest: the critical sections, DISABLE_INTERRUPT and
ENABLE_INTERRUPT, and the suspension of the lock around a callback. All of it is on one core: the
other core only delays `knl_kernel_lock_enter`.
-/

namespace Mtk3Smp

/-- PRIMASK of the core, whether `knl_lock_word` is its own token, `knl_lock_depth[self]` and
`knl_lock_primask[self]`. -/
structure MaskCore where
  primask : Bool
  own : Bool
  depth : Nat
  lockPrimask : Bool
  deriving DecidableEq

namespace MaskCore

variable (s : MaskCore)

/-- `knl_kernel_lock_enter`, of a task that is not dead. -/
def knlKernelLockEnter : MaskCore :=
  let saved := s.primask
  if s.own then { s with depth := s.depth + 1, primask := saved }
  else { primask := true, own := true, depth := 1, lockPrimask := saved }

def knlKernelLockLeave : MaskCore :=
  if !s.own ∨ s.depth = 0 then s
  else
    let s := { s with depth := s.depth - 1 }
    if 0 < s.depth then s else { s with own := false, primask := s.lockPrimask }

def knlKernelLockSuspend : Nat × MaskCore :=
  let depth := s.depth
  if depth = 0 ∨ !s.own then (0, s) else (depth, { s with depth := 0, own := false })

def knlKernelLockResume (resumeDepth : Nat) : MaskCore :=
  if resumeDepth = 0 ∨ s.own then s
  else
    let s := s.knlKernelLockEnter
    if 1 < resumeDepth ∧ s.own then { s with depth := resumeDepth } else s

/-- BEGIN_CRITICAL_SECTION; `_primask_` is the PRIMASK in front of it. -/
def beginCriticalSection : MaskCore := { s with primask := true }.knlKernelLockEnter

/-- END_CRITICAL_SECTION; `knl_dispatch` only makes PendSV pending. -/
def endCriticalSection (primask : Bool) : MaskCore := { s.knlKernelLockLeave with primask }

end MaskCore

/-- The brackets in the body of another one, in order. The index says whether a critical section
is open, as a suspension of the lock needs one. -/
inductive Nest : Bool → Type
  | nil {crit : Bool} : Nest crit
  | critical {crit : Bool} (body : Nest true) (rest : Nest crit) : Nest crit
  /-- DISABLE_INTERRUPT and ENABLE_INTERRUPT -/
  | disable {crit : Bool} (body rest : Nest crit) : Nest crit
  /-- `knl_kernel_lock_suspend`, a callback and `knl_kernel_lock_resume` -/
  | detached (callback rest : Nest true) : Nest true

/-- An outermost bracket. -/
inductive Outer
  | critical (body : Nest true)
  | disable (body : Nest false)

open MaskCore

/-- The state after the brackets. -/
def Nest.run {crit : Bool} : Nest crit → MaskCore → MaskCore
  | .nil, s => s
  | .critical body rest, s =>
    rest.run ((body.run s.beginCriticalSection).endCriticalSection s.primask)
  | .disable body rest, s => rest.run (body.run s.knlKernelLockEnter).knlKernelLockLeave
  | .detached callback rest, s =>
    rest.run ((callback.run s.knlKernelLockSuspend.2).knlKernelLockResume s.knlKernelLockSuspend.1)

/-- The states in front of, between and inside the brackets. -/
def Nest.points {crit : Bool} : Nest crit → MaskCore → List MaskCore
  | .nil, s => [s]
  | .critical body rest, s =>
    s :: body.points s.beginCriticalSection ++
      rest.points ((body.run s.beginCriticalSection).endCriticalSection s.primask)
  | .disable body rest, s =>
    s :: body.points s.knlKernelLockEnter ++
      rest.points (body.run s.knlKernelLockEnter).knlKernelLockLeave
  | .detached callback rest, s =>
    s :: callback.points s.knlKernelLockSuspend.2 ++
      rest.points
        ((callback.run s.knlKernelLockSuspend.2).knlKernelLockResume s.knlKernelLockSuspend.1)

def Outer.run : Outer → MaskCore → MaskCore
  | .critical body, s => (body.run s.beginCriticalSection).endCriticalSection s.primask
  | .disable body, s => (body.run s.knlKernelLockEnter).knlKernelLockLeave

/-- The states inside an outermost bracket. -/
def Outer.inside : Outer → MaskCore → List MaskCore
  | .critical body, s => body.points s.beginCriticalSection
  | .disable body, s => body.points s.knlKernelLockEnter

/-- Whether the kernel lock is suspended somewhere in the brackets. -/
def Nest.suspends {crit : Bool} : Nest crit → Bool
  | .nil => false
  | .critical body rest => body.suspends || rest.suspends
  | .disable body rest => body.suspends || rest.suspends
  | .detached _ _ => true

/-- Each of the outermost brackets leaves PRIMASK as it was in front of it, and PRIMASK is set
everywhere inside. -/
def Restores : List Outer → MaskCore → Prop
  | [], _ => True
  | b :: rest, s =>
    ((∀ x ∈ b.inside s, x.primask = true) ∧ (b.run s).primask = s.primask) ∧ Restores rest (b.run s)

namespace MaskCore

variable {s t : MaskCore} {crit : Bool}

/-- Inside the brackets: PRIMASK is set, and the lock is held to some depth or not at all. -/
structure Masked (s : MaskCore) : Prop where
  primask : s.primask = true
  own : s.own = true ↔ 0 < s.depth

/-- A change that only `knl_lock_primask` shows, and that leaves it set where it was. -/
structure Keeps (s t : MaskCore) : Prop where
  primask : t.primask = s.primask
  own : t.own = s.own
  depth : t.depth = s.depth
  lock : s.lockPrimask = true → t.lockPrimask = true

theorem Keeps.masked (h : Keeps s t) (hs : s.Masked) : t.Masked := by
  refine ⟨h.primask.trans hs.primask, ?_⟩
  rw [h.own, h.depth]
  exact hs.own

theorem Keeps.refl (s : MaskCore) : Keeps s s := ⟨rfl, rfl, rfl, id⟩

theorem Keeps.trans {u : MaskCore} (h : Keeps s t) (h' : Keeps t u) : Keeps s u :=
  ⟨h'.primask.trans h.primask, h'.own.trans h.own, h'.depth.trans h.depth,
    fun hl => h'.lock (h.lock hl)⟩

/-! ## The lock inside the brackets -/

theorem enter_own (ho : s.own = true) :
    s.knlKernelLockEnter = { s with depth := s.depth + 1 } := by
  unfold knlKernelLockEnter
  dsimp only
  rw [if_pos ho]

theorem enter_free (ho : s.own = false) :
    s.knlKernelLockEnter =
      { primask := true, own := true, depth := 1, lockPrimask := s.primask } := by
  unfold knlKernelLockEnter
  dsimp only
  rw [if_neg (Bool.eq_false_iff.1 ho)]

theorem leave_inner (ho : s.own = true) (hd : 1 < s.depth) :
    s.knlKernelLockLeave = { s with depth := s.depth - 1 } := by
  have hlegal : ¬((!s.own) = true ∨ s.depth = 0) := by
    rw [ho]
    rintro (hno | hz)
    · cases hno
    · omega
  have hleft : 0 < s.depth - 1 := by omega
  unfold knlKernelLockLeave
  dsimp only
  rw [if_neg hlegal, if_pos hleft]

theorem leave_last (ho : s.own = true) (hd : s.depth = 1) :
    s.knlKernelLockLeave =
      { primask := s.lockPrimask, own := false, depth := 0, lockPrimask := s.lockPrimask } := by
  have hlegal : ¬((!s.own) = true ∨ s.depth = 0) := by
    rw [ho]
    rintro (hno | hz)
    · cases hno
    · omega
  have hleft : ¬0 < s.depth - 1 := by omega
  unfold knlKernelLockLeave
  dsimp only
  rw [if_neg hlegal, if_neg hleft, hd]

theorem Masked.depth_zero (hs : s.Masked) (ho : s.own = false) : s.depth = 0 := by
  by_contra hd
  have hown := hs.own.2 (Nat.pos_of_ne_zero hd)
  rw [ho] at hown
  cases hown

theorem Masked.enter (hs : s.Masked) : s.knlKernelLockEnter.Masked := by
  cases ho : s.own with
  | true =>
    rw [enter_own ho]
    exact ⟨hs.primask, fun _ => Nat.succ_pos _, fun _ => ho⟩
  | false =>
    rw [enter_free ho]
    exact ⟨rfl, fun _ => Nat.one_pos, fun _ => rfl⟩

/-- A bracket around brackets that keep the rest. -/
theorem Masked.leave (hs : s.Masked) (h : Keeps s.knlKernelLockEnter t) :
    Keeps s t.knlKernelLockLeave := by
  cases ho : s.own with
  | true =>
    rw [enter_own ho] at h
    have hpos := hs.own.1 ho
    have hdepth : t.depth = s.depth + 1 := h.depth
    rw [leave_inner (h.own.trans ho) (by omega)]
    refine ⟨h.primask, h.own, ?_, h.lock⟩
    show t.depth - 1 = s.depth
    omega
  | false =>
    rw [enter_free ho] at h
    have hlock : t.lockPrimask = true := h.lock hs.primask
    rw [leave_last h.own h.depth]
    exact ⟨hlock.trans hs.primask.symm, ho.symm, (hs.depth_zero ho).symm, fun _ => hlock⟩

theorem begin_eq (hs : s.Masked) : s.beginCriticalSection = s.knlKernelLockEnter := by
  unfold beginCriticalSection
  rw [← hs.primask]

theorem Masked.endCritical (hs : s.Masked) (h : Keeps s.knlKernelLockEnter t) :
    Keeps s (t.endCriticalSection s.primask) := by
  have hleave := hs.leave h
  exact ⟨rfl, hleave.own, hleave.depth, hleave.lock⟩

theorem suspend_own (ho : s.own = true) (hd : 0 < s.depth) :
    s.knlKernelLockSuspend = (s.depth, { s with depth := 0, own := false }) := by
  have hlegal : ¬(s.depth = 0 ∨ (!s.own) = true) := by
    rw [ho]
    rintro (hz | hno)
    · omega
    · cases hno
  unfold knlKernelLockSuspend
  dsimp only
  rw [if_neg hlegal]

theorem suspend_free (hd : s.depth = 0) : s.knlKernelLockSuspend = (0, s) := by
  unfold knlKernelLockSuspend
  dsimp only
  rw [if_pos (Or.inl hd)]

theorem Masked.suspend (hs : s.Masked) : s.knlKernelLockSuspend.2.Masked := by
  cases ho : s.own with
  | true =>
    rw [suspend_own ho (hs.own.1 ho)]
    exact ⟨hs.primask, nofun, fun hz => absurd hz (Nat.lt_irrefl 0)⟩
  | false =>
    rw [suspend_free (hs.depth_zero ho)]
    exact hs

theorem resume_free {d : Nat} (ho : s.own = false) (hd : 0 < d) :
    s.knlKernelLockResume d =
      { primask := true, own := true, depth := d, lockPrimask := s.primask } := by
  have hlegal : ¬(d = 0 ∨ s.own = true) := by
    rw [ho]
    rintro (hz | hno)
    · omega
    · cases hno
  unfold knlKernelLockResume
  rw [if_neg hlegal, enter_free ho]
  dsimp only
  by_cases hone : 1 < d
  · rw [if_pos ⟨hone, rfl⟩]
  · rw [if_neg fun h => hone h.1]
    obtain rfl : d = 1 := by omega
    rfl

/-- The lock is taken again to the same depth, and then saves PRIMASK as it is now: set. -/
theorem Masked.resume (hs : s.Masked) (h : Keeps s.knlKernelLockSuspend.2 t) :
    Keeps s (t.knlKernelLockResume s.knlKernelLockSuspend.1) := by
  cases ho : s.own with
  | true =>
    have hpos := hs.own.1 ho
    rw [suspend_own ho hpos] at h ⊢
    have htp : t.primask = s.primask := h.primask
    rw [resume_free h.own hpos]
    exact ⟨hs.primask.symm, ho.symm, rfl, fun _ => htp.trans hs.primask⟩
  | false =>
    rw [suspend_free (hs.depth_zero ho)] at h ⊢
    have hlegal : (0 : Nat) = 0 ∨ t.own = true := Or.inl rfl
    unfold knlKernelLockResume
    rw [if_pos hlegal]
    exact h

theorem leave_lockPrimask (s : MaskCore) : s.knlKernelLockLeave.lockPrimask = s.lockPrimask := by
  unfold knlKernelLockLeave
  dsimp only
  split
  · rfl
  · split
    · rfl
    · rfl

/-! ## The brackets in the body of another one -/

theorem run_keeps (n : Nest crit) (hs : s.Masked) : Keeps s (n.run s) := by
  induction n generalizing s with
  | nil => exact .refl s
  | critical body rest ihb ihr =>
    have hbody := ihb hs.enter
    rw [← begin_eq hs] at hbody
    have hend : Keeps s ((body.run s.beginCriticalSection).endCriticalSection s.primask) := by
      apply hs.endCritical
      rw [← begin_eq hs]
      exact hbody
    exact hend.trans (ihr (hend.masked hs))
  | disable body rest ihb ihr =>
    have hleave := hs.leave (ihb hs.enter)
    exact hleave.trans (ihr (hleave.masked hs))
  | detached callback rest ihc ihr =>
    have hresume := hs.resume (ihc hs.suspend)
    exact hresume.trans (ihr (hresume.masked hs))

theorem points_masked (n : Nest crit) (hs : s.Masked) : ∀ x ∈ n.points s, x.primask = true := by
  induction n generalizing s with
  | nil =>
    intro x hx
    rw [List.mem_singleton.1 hx]
    exact hs.primask
  | critical body rest ihb ihr =>
    have hend : Keeps s ((body.run s.beginCriticalSection).endCriticalSection s.primask) := by
      apply hs.endCritical
      rw [begin_eq hs]
      exact run_keeps body hs.enter
    intro x hx
    rcases List.mem_cons.1 hx with rfl | hx
    · exact hs.primask
    · rcases List.mem_append.1 hx with hx | hx
      · rw [begin_eq hs] at hx
        exact ihb hs.enter x hx
      · exact ihr (hend.masked hs) x hx
  | disable body rest ihb ihr =>
    have hleave := hs.leave (run_keeps body hs.enter)
    intro x hx
    rcases List.mem_cons.1 hx with rfl | hx
    · exact hs.primask
    · rcases List.mem_append.1 hx with hx | hx
      · exact ihb hs.enter x hx
      · exact ihr (hleave.masked hs) x hx
  | detached callback rest ihc ihr =>
    have hresume := hs.resume (run_keeps callback hs.suspend)
    intro x hx
    rcases List.mem_cons.1 hx with rfl | hx
    · exact hs.primask
    · rcases List.mem_append.1 hx with hx | hx
      · exact ihc hs.suspend x hx
      · exact ihr (hresume.masked hs) x hx

/-- What the lock restores in the end is what it has saved, unless it has been suspended. -/
theorem run_lockPrimask (n : Nest crit) (hs : s.Masked) (ho : s.own = true) :
    (n.run s).lockPrimask = (s.lockPrimask || n.suspends) := by
  have henter : ∀ {s : MaskCore}, s.own = true → s.knlKernelLockEnter.own = true ∧
      s.knlKernelLockEnter.lockPrimask = s.lockPrimask := by
    intro s ho
    rw [enter_own ho]
    exact ⟨ho, rfl⟩
  induction n generalizing s with
  | nil => exact (Bool.or_false _).symm
  | critical body rest ihb ihr =>
    obtain ⟨hown, hlock⟩ := henter ho
    have hend := hs.endCritical (run_keeps body hs.enter)
    have hrest := ihr (hend.masked hs) (hend.own.trans ho)
    have hbody : ((body.run s.knlKernelLockEnter).endCriticalSection s.primask).lockPrimask =
        (s.lockPrimask || body.suspends) := by
      unfold endCriticalSection
      dsimp only
      rw [leave_lockPrimask, ihb hs.enter hown, hlock]
    show (rest.run ((body.run s.beginCriticalSection).endCriticalSection s.primask)).lockPrimask =
      (s.lockPrimask || (body.suspends || rest.suspends))
    rw [begin_eq hs, hrest, hbody, Bool.or_assoc]
  | disable body rest ihb ihr =>
    obtain ⟨hown, hlock⟩ := henter ho
    have hleave := hs.leave (run_keeps body hs.enter)
    have hrest := ihr (hleave.masked hs) (hleave.own.trans ho)
    show (rest.run (body.run s.knlKernelLockEnter).knlKernelLockLeave).lockPrimask =
      (s.lockPrimask || (body.suspends || rest.suspends))
    rw [hrest, leave_lockPrimask, ihb hs.enter hown, hlock, Bool.or_assoc]
  | detached callback rest ihc ihr =>
    have hpos := hs.own.1 ho
    have hcallback := run_keeps callback hs.suspend
    have hresume := hs.resume hcallback
    have hrest := ihr (hresume.masked hs) (hresume.own.trans ho)
    have hset : ((callback.run s.knlKernelLockSuspend.2).knlKernelLockResume
        s.knlKernelLockSuspend.1).lockPrimask = true := by
      rw [suspend_own ho hpos] at hcallback ⊢
      rw [resume_free hcallback.own hpos]
      exact hcallback.primask.trans hs.primask
    show (rest.run _).lockPrimask = (s.lockPrimask || true)
    rw [hrest, hset, Bool.true_or, Bool.or_true]

/-! ## The outermost brackets -/

/-- Outside all brackets; `l` is left from the last one. -/
def outside (p l : Bool) : MaskCore :=
  { primask := p, own := false, depth := 0, lockPrimask := l }

/-- Inside an outermost bracket. -/
theorem masked_inner (p : Bool) : Masked ⟨true, true, 1, p⟩ :=
  ⟨rfl, fun _ => Nat.one_pos, fun _ => rfl⟩

theorem inside_masked (b : Outer) (p l : Bool) :
    ∀ x ∈ b.inside (outside p l), x.primask = true := by
  cases b with
  | critical body => exact points_masked body (masked_inner true)
  | disable body => exact points_masked body (masked_inner p)

/-- PRIMASK after an outermost bracket. -/
def after (p : Bool) : Outer → Bool
  | .critical _ => p
  | .disable body => p || body.suspends

theorem run_outside (b : Outer) (p l : Bool) :
    ∃ l', b.run (outside p l) = outside (after p b) l' := by
  cases b with
  | critical body =>
    have hbody := run_keeps body (masked_inner true)
    refine ⟨(body.run ⟨true, true, 1, true⟩).lockPrimask, ?_⟩
    show (body.run ⟨true, true, 1, true⟩).endCriticalSection p = _
    unfold endCriticalSection
    rw [leave_last hbody.own hbody.depth]
    rfl
  | disable body =>
    have hbody := run_keeps body (masked_inner p)
    have hlock := run_lockPrimask body (masked_inner p) rfl
    refine ⟨p || body.suspends, ?_⟩
    show (body.run ⟨true, true, 1, p⟩).knlKernelLockLeave = _
    rw [leave_last hbody.own hbody.depth, hlock]
    rfl

/-- No suspension of the lock below the kernel lock's own copy of PRIMASK. -/
def safe : Outer → Bool
  | .critical _ => true
  | .disable body => !body.suspends

/-- PRIMASK is restored exactly where it was set anyway, or where DISABLE_INTERRUPT is never the
outermost bracket around a suspension of the lock. -/
theorem restores_iff (bs : List Outer) (p l : Bool) :
    Restores bs (outside p l) ↔ p = true ∨ ∀ b ∈ bs, safe b = true := by
  induction bs generalizing l with
  | nil => exact ⟨fun _ => Or.inr nofun, fun _ => trivial⟩
  | cons b bs ih =>
    obtain ⟨l', hrun⟩ := run_outside b p l
    have hone : (b.run (outside p l)).primask = p ↔ p = true ∨ safe b = true := by
      rw [hrun]
      show after p b = p ↔ _
      cases b with
      | critical body => exact ⟨fun _ => Or.inr rfl, fun _ => rfl⟩
      | disable body =>
        show (p || body.suspends) = p ↔ p = true ∨ (!body.suspends) = true
        cases p <;> cases body.suspends <;> decide
    constructor
    · rintro ⟨⟨-, hb⟩, hrest⟩
      have hafter : after p b = p := by
        rw [hrun] at hb
        exact hb
      rw [hrun, hafter, ih] at hrest
      rcases hone.1 hb with hp | hsafe
      · exact Or.inl hp
      · rcases hrest with hp | hrest
        · exact Or.inl hp
        · exact Or.inr (List.forall_mem_cons.2 ⟨hsafe, hrest⟩)
    · intro h
      have hb : (b.run (outside p l)).primask = p := by
        apply hone.2
        exact h.imp_right fun hall => hall b List.mem_cons_self
      have hafter : after p b = p := by
        rw [hrun] at hb
        exact hb
      refine ⟨⟨inside_masked b p l, hb⟩, ?_⟩
      rw [hrun, hafter, ih]
      exact h.imp_right fun hall x hx => hall x (List.mem_cons_of_mem _ hx)

/-- PRIMASK stays set after DISABLE_INTERRUPT around a critical section that suspends the lock. -/
theorem not_restores_suspend :
    ¬Restores [.disable (.critical (.detached .nil .nil) .nil)] (outside false false) := by
  rintro ⟨⟨-, hb⟩, -⟩
  revert hb
  decide

end MaskCore

end Mtk3Smp
