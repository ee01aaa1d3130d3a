import Mtk3Smp.Kernel.State
import Mtk3Smp.Lib.Lts

/-!
# Physical timers

`ptimer_rp2040.c`: eight timers, each a PWM channel. That a timer runs is kept twice, in
`ptmr_stat` and in the registers: `CSR.EN` starts its counter and its bit of `PWM_INTE` lets
it interrupt. `ptmr_inthdr` calls the user handler of every timer that has expired, which may
start and stop timers, and then stops the timer if its mode is `TA_ALM_PTMR`.
-/

namespace Mtk3Smp

def TK_MAX_PTIMER : Nat := 8
def PTMR_MAX_CNT : Nat := 0xFFFF
def TA_ALM_PTMR : Nat := 0
def TA_CYC_PTMR : Nat := 1

/-- An index of `ptmrcb`, and a bit of the registers. -/
abbrev PtmrNo := Fin 8

/-- `ptmrhdr` is whether a user handler is set. -/
structure T_PTMRCB where
  mode : Nat
  div : Nat
  ptmrhdr : Bool

/-- The registers of a channel. -/
structure PwmCh where
  en : Bool
  div : Nat
  top : Nat
  ctr : Nat

/-- Where the processor is: outside, or in `ptmr_inthdr` with the `PWM_INTS` it has read. -/
inductive PtmrAt
  | outside
  /-- at the head of the loop -/
  | scan (ints : PtmrNo → Bool) (ptmrno : Nat)
  /-- in the user handler of a timer -/
  | user (ints : PtmrNo → Bool) (ptmrno : PtmrNo)
  /-- back from it -/
  | after (ints : PtmrNo → Bool) (ptmrno : PtmrNo)

structure Ptmr where
  ptmrcb : PtmrNo → T_PTMRCB
  ch : PtmrNo → PwmCh
  inte : PtmrNo → Bool
  intr : PtmrNo → Bool
  ptmrStat : PtmrNo → Bool
  /-- the interrupt is enabled in the controller, with `ptmr_inthdr` defined -/
  enabled : Bool
  loc : PtmrAt

namespace Ptmr

variable (s : Ptmr) (n : PtmrNo)

/-- `clr_w(PWM_CH_CSR(n), PWM_CH_CSR_EN)` -/
def stopCounter : Ptmr := { s with ch := Function.update s.ch n { s.ch n with en := false } }

/-- `ptmr_stat == 0` -/
def noneRuns : Bool := decide (∀ n, s.ptmrStat n = false)

/-- The timer initialization of `StartPhysicalTimer`. -/
def timerInit (limit mode : Nat) : Ptmr :=
  { s with
    ptmrcb := Function.update s.ptmrcb n { s.ptmrcb n with mode := mode }
    ch := Function.update s.ch n
      { en := false, div := (s.ptmrcb n).div, top := limit, ctr := 0 }
    intr := Function.update s.intr n false
    inte := Function.update s.inte n true }

/-- The end of `StartPhysicalTimer`. -/
def run : Ptmr :=
  { s with
    ptmrStat := Function.update s.ptmrStat n true
    ch := Function.update s.ch n { s.ch n with en := true } }

/-- `err` is what `tk_def_int` returns. -/
def StartPhysicalTimer (ptmrno limit mode : Nat) (err : ER) : Ptmr × ER :=
  if (ptmrno = 0 ∨ ptmrno > TK_MAX_PTIMER) ∨ limit = 0 ∨ mode > TA_CYC_PTMR then (s, .E_PAR)
  else
    let n : PtmrNo := Fin.ofNat 8 (ptmrno - 1)
    if limit > PTMR_MAX_CNT then (s, .E_PAR)
    else if s.ptmrStat n then (s, .E_PAR)
    else
      let s := s.timerInit n limit mode
      if s.noneRuns then
        if err ≠ .E_OK then (s, err) else (({ s with enabled := true } : Ptmr).run n, .E_OK)
      else (s.run n, .E_OK)

def StopPhysicalTimer (ptmrno : Nat) : Ptmr × ER :=
  if ptmrno = 0 ∨ ptmrno > TK_MAX_PTIMER then (s, .E_PAR)
  else
    let n : PtmrNo := Fin.ofNat 8 (ptmrno - 1)
    if s.ptmrStat n = false then (s, .E_OK)
    else
      let s := s.stopCounter n
      let s := { s with
        intr := Function.update s.intr n false
        inte := Function.update s.inte n false
        ptmrStat := Function.update s.ptmrStat n false }
      if s.noneRuns then ({ s with enabled := false }, .E_OK) else (s, .E_OK)

/-- `ptmr_inthdr`, from the test of the mode to the next timer. -/
def finish (ints : PtmrNo → Bool) : Ptmr :=
  let s := if (s.ptmrcb n).mode = TA_ALM_PTMR then
      { s.stopCounter n with inte := Function.update s.inte n false }
    else s
  { s with intr := Function.update s.intr n false, loc := .scan ints (n + 1) }

inductive Event
  | start (ptmrno limit mode : Nat) (err : ER)
  | stop (ptmrno : Nat)
  /-- `DefinePhysicalTimerHandler`, with its checks passed -/
  | define (n : PtmrNo) (hdr : Bool)
  /-- a counter that runs reaches its top -/
  | expire (n : PtmrNo)
  /-- the interrupt is taken -/
  | irq
  /-- one round of the loop, up to the user handler -/
  | next
  /-- the user handler returns -/
  | ret
  | finish

/-- Tasks and user handlers may call the functions. -/
def mayCall (s : Ptmr) : Bool :=
  match s.loc with
  | .outside => true
  | .user _ _ => true
  | _ => false

def step (s : Ptmr) : Event → Option Ptmr
  | .start ptmrno limit mode err =>
    if s.mayCall then some (s.StartPhysicalTimer ptmrno limit mode err).1 else none
  | .stop ptmrno => if s.mayCall then some (s.StopPhysicalTimer ptmrno).1 else none
  | .define n hdr =>
    if s.mayCall then
      some { s with ptmrcb := Function.update s.ptmrcb n { s.ptmrcb n with ptmrhdr := hdr } }
    else none
  | .expire n =>
    if (s.ch n).en then
      some { s with
        ch := Function.update s.ch n { s.ch n with ctr := 0 }
        intr := Function.update s.intr n true }
    else none
  | .irq =>
    match s.loc with
    | .outside =>
      if s.enabled ∧ ∃ n, s.intr n ∧ s.inte n then
        some { s with loc := .scan (fun n => s.intr n && s.inte n) 0 }
      else none
    | _ => none
  | .next =>
    match s.loc with
    | .scan ints ptmrno =>
      if h : ptmrno < 8 then
        if ints ⟨ptmrno, h⟩ then
          if (s.ptmrcb ⟨ptmrno, h⟩).ptmrhdr then some { s with loc := .user ints ⟨ptmrno, h⟩ }
          else some { s with loc := .after ints ⟨ptmrno, h⟩ }
        else some { s with loc := .scan ints (ptmrno + 1) }
      else some { s with loc := .outside }
    | _ => none
  | .ret =>
    match s.loc with
    | .user ints n => some { s with loc := .after ints n }
    | _ => none
  | .finish =>
    match s.loc with
    | .after ints n => some (s.finish n ints)
    | _ => none

/-- After reset, with any handlers and divisions. -/
def Init (s : Ptmr) : Prop :=
  (∀ n, (s.ch n).en = false ∧ s.inte n = false ∧ s.ptmrStat n = false) ∧ s.loc = .outside

end Ptmr

def ptmrSys : Lts Ptmr Ptmr.Event where
  init := Ptmr.Init
  step := Ptmr.step

namespace Ptmr

/-- When `ptmr_inthdr` comes to the test of the mode, the timer is not a one-shot timer that
`ptmr_stat` says runs. -/
def expiryOk (s : Ptmr) : Event → Bool
  | .finish =>
    match s.loc with
    | .after _ n => (s.ptmrcb n).mode = TA_ALM_PTMR → s.ptmrStat n = false
    | _ => true
  | _ => true

def ExpiryOk (s : Ptmr) (e : Event) : Prop := s.expiryOk e = true

/-- Counter and interrupt are enabled. -/
def runs (s : Ptmr) (n : PtmrNo) : Prop := (s.ch n).en = true ∧ s.inte n = true

/-- What holds at every step: a running timer's interrupt reaches the processor. -/
structure Agree (s : Ptmr) : Prop where
  stat : ∀ n, s.ptmrStat n = true ↔ s.runs n
  live : ∀ n, s.ptmrStat n = true → s.enabled = true

variable {s : Ptmr} {n : PtmrNo}

theorem Agree.congr (h : Agree s) {s' : Ptmr} (hstat : s'.ptmrStat = s.ptmrStat)
    (hen : ∀ n, (s'.ch n).en = (s.ch n).en) (hinte : s'.inte = s.inte)
    (hlive : s'.enabled = s.enabled) : Agree s' := by
  refine ⟨fun n => ?_, fun n hn => ?_⟩
  · unfold runs
    rw [hstat, hen, hinte]
    exact h.stat n
  · rw [hstat] at hn
    rw [hlive]
    exact h.live n hn

theorem run_stat (n m : PtmrNo) :
    (s.run n).ptmrStat m = if m = n then true else s.ptmrStat m := by
  unfold run
  exact Function.update_apply _ _ _ _

theorem noneRuns_iff : s.noneRuns = true ↔ ∀ n, s.ptmrStat n = false := by
  unfold noneRuns
  exact decide_eq_true_iff

/-- A timer that `ptmr_stat` says is stopped is set up: its counter stays stopped. -/
theorem Agree.timerInit (h : Agree s) (hn : s.ptmrStat n = false) (limit mode : Nat) :
    Agree (s.timerInit n limit mode) := by
  refine ⟨fun m => ?_, h.live⟩
  unfold runs Ptmr.timerInit
  by_cases hm : m = n
  · subst hm
    simp [hn]
  · simp only [Function.update_of_ne hm]
    exact h.stat m

theorem Agree.run (h : Agree s) (hinte : s.inte n = true) (hlive : s.enabled = true) :
    Agree (s.run n) := by
  refine ⟨fun m => ?_, fun _ _ => hlive⟩
  unfold runs Ptmr.run
  by_cases hm : m = n
  · subst hm
    simp [hinte]
  · simp only [Function.update_of_ne hm]
    exact h.stat m

theorem Agree.start (h : Agree s) (ptmrno limit mode : Nat) (err : ER) :
    Agree (s.StartPhysicalTimer ptmrno limit mode err).1 := by
  unfold StartPhysicalTimer
  dsimp only
  split
  · exact h
  split
  · exact h
  split
  · exact h
  rename_i hstat
  have hinit := h.timerInit (Bool.eq_false_iff.2 hstat) limit mode
  have hinte : (s.timerInit (Fin.ofNat 8 (ptmrno - 1)) limit mode).inte
      (Fin.ofNat 8 (ptmrno - 1)) = true := Function.update_self _ _ _
  split
  · split
    · exact hinit
    · rename_i hnone _
      have hnone := noneRuns_iff.1 hnone
      refine Agree.run ⟨hinit.stat, fun m hm => rfl⟩ hinte rfl
  · rename_i hsome
    have hlive : ∃ m, (s.timerInit (Fin.ofNat 8 (ptmrno - 1)) limit mode).ptmrStat m = true := by
      by_contra hno
      refine hsome (noneRuns_iff.2 fun m => ?_)
      exact Bool.eq_false_iff.2 fun hm => hno ⟨m, hm⟩
    obtain ⟨m, hm⟩ := hlive
    exact hinit.run hinte (hinit.live m hm)

theorem Agree.stop (h : Agree s) (ptmrno : Nat) : Agree (s.StopPhysicalTimer ptmrno).1 := by
  unfold StopPhysicalTimer
  dsimp only
  split
  · exact h
  split
  · exact h
  have hoff : Agree { s.stopCounter (Fin.ofNat 8 (ptmrno - 1)) with
      intr := Function.update s.intr (Fin.ofNat 8 (ptmrno - 1)) false
      inte := Function.update s.inte (Fin.ofNat 8 (ptmrno - 1)) false
      ptmrStat := Function.update s.ptmrStat (Fin.ofNat 8 (ptmrno - 1)) false } := by
    refine ⟨fun m => ?_, fun m hm => ?_⟩
    · unfold runs stopCounter
      by_cases hm : m = Fin.ofNat 8 (ptmrno - 1)
      · subst hm
        simp
      · simp only [Function.update_of_ne hm]
        exact h.stat m
    · by_cases hmn : m = Fin.ofNat 8 (ptmrno - 1)
      · subst hmn
        simp at hm
      · exact h.live m ((Function.update_of_ne hmn _ _).symm.trans hm)
  split
  · rename_i hnone
    have hnone := noneRuns_iff.1 hnone
    refine ⟨hoff.stat, fun m hm => ?_⟩
    rw [show _ = false from hnone m] at hm
    cases hm
  · exact hoff

theorem Agree.finish (h : Agree s) (hok : (s.ptmrcb n).mode = TA_ALM_PTMR → s.ptmrStat n = false)
    (ints : PtmrNo → Bool) : Agree (s.finish n ints) := by
  unfold Ptmr.finish
  split
  · rename_i hmode
    have hn := hok hmode
    refine ⟨fun m => ?_, h.live⟩
    unfold runs stopCounter
    by_cases hm : m = n
    · subst hm
      simp [hn]
    · simp only [Function.update_of_ne hm]
      exact h.stat m
  · exact h.congr rfl (fun _ => rfl) rfl rfl

theorem Agree.step (h : Agree s) {e : Event} {s' : Ptmr} (hok : ExpiryOk s e)
    (hs : s.step e = some s') : Agree s' := by
  cases e with
  | start ptmrno limit mode err =>
    obtain ⟨-, hs⟩ := Option.ite_none_right_eq_some.1 hs
    cases hs
    exact h.start ptmrno limit mode err
  | stop ptmrno =>
    obtain ⟨-, hs⟩ := Option.ite_none_right_eq_some.1 hs
    cases hs
    exact h.stop ptmrno
  | define n hdr =>
    obtain ⟨-, hs⟩ := Option.ite_none_right_eq_some.1 hs
    cases hs
    exact h.congr rfl (fun _ => rfl) rfl rfl
  | expire n =>
    obtain ⟨-, hs⟩ := Option.ite_none_right_eq_some.1 hs
    cases hs
    refine h.congr rfl (fun m => ?_) rfl rfl
    by_cases hm : m = n
    · subst hm
      simp
    · simp [Function.update_of_ne hm]
  | irq =>
    simp only [Ptmr.step] at hs
    split at hs
    · obtain ⟨-, hs⟩ := Option.ite_none_right_eq_some.1 hs
      cases hs
      exact h.congr rfl (fun _ => rfl) rfl rfl
    · cases hs
  | next =>
    simp only [Ptmr.step] at hs
    split at hs
    · split at hs
      · split at hs
        · split at hs
          all_goals
            cases hs
            exact h.congr rfl (fun _ => rfl) rfl rfl
        · cases hs
          exact h.congr rfl (fun _ => rfl) rfl rfl
      · cases hs
        exact h.congr rfl (fun _ => rfl) rfl rfl
    · cases hs
  | ret =>
    simp only [Ptmr.step] at hs
    split at hs
    · cases hs
      exact h.congr rfl (fun _ => rfl) rfl rfl
    · cases hs
  | finish =>
    simp only [Ptmr.step] at hs
    split at hs
    · rename_i ints n hloc
      cases hs
      unfold ExpiryOk expiryOk at hok
      simp only [hloc, decide_eq_true_iff] at hok
      exact h.finish hok ints
    · cases hs

theorem Agree.init (h : Init s) : Agree s := by
  refine ⟨fun n => ?_, fun n hn => ?_⟩
  · obtain ⟨hen, hinte, hstat⟩ := h.1 n
    simp [runs, hen, hinte, hstat]
  · rw [(h.1 n).2.2] at hn
    cases hn

theorem agree_of_reachable (h : ptmrSys.ReachableIf ExpiryOk s) : Agree s :=
  h.invariant Agree (fun _ hi => Agree.init hi) fun _ _ _ ha hok hs => ha.step hok hs

/-- An expiry, and the interrupt that takes it to the handler of the timer. -/
def Fires (s : Ptmr) (n : PtmrNo) : Prop :=
  ∃ s₁ s₂ ints, s.step (.expire n) = some s₁ ∧ s₁.step .irq = some s₂ ∧
    s₂.loc = .scan ints 0 ∧ ints n = true

/-- The running bits are right, what does not run can be started, what runs fires. -/
structure PtmrOk (s : Ptmr) : Prop where
  stat : ∀ n, s.ptmrStat n = true ↔ s.runs n
  starts : ∀ n : PtmrNo, ¬s.runs n → ∀ limit mode, 0 < limit → limit ≤ PTMR_MAX_CNT →
    mode ≤ TA_CYC_PTMR → (s.StartPhysicalTimer (n + 1) limit mode .E_OK).2 = .E_OK ∧
      (s.StartPhysicalTimer (n + 1) limit mode .E_OK).1.runs n
  fires : ∀ n, s.runs n → s.Fires n

theorem start_ok (hn : s.ptmrStat n = false) {limit mode : Nat} (hlimit : 0 < limit)
    (hmax : limit ≤ PTMR_MAX_CNT) (hmode : mode ≤ TA_CYC_PTMR) :
    (s.StartPhysicalTimer (n + 1) limit mode .E_OK).2 = .E_OK ∧
      (s.StartPhysicalTimer (n + 1) limit mode .E_OK).1.runs n := by
  have hlt := n.isLt
  have hno : Fin.ofNat 8 (n.val + 1 - 1) = n := by
    apply Fin.ext
    show (n.val + 1 - 1) % 8 = n.val
    omega
  have hpar : ¬((n.val + 1 = 0 ∨ n.val + 1 > TK_MAX_PTIMER) ∨ limit = 0 ∨ mode > TA_CYC_PTMR) := by
    unfold TK_MAX_PTIMER
    omega
  unfold StartPhysicalTimer
  rw [if_neg hpar]
  dsimp only
  rw [hno, if_neg (Nat.not_lt.2 hmax), if_neg (by simp [hn])]
  split
  · rw [if_neg (by simp)]
    exact ⟨rfl, by simp [runs, run, Ptmr.timerInit]⟩
  · exact ⟨rfl, by simp [runs, run, Ptmr.timerInit]⟩

theorem Agree.fires (h : Agree s) (hloc : s.loc = .outside) (hn : s.runs n) : s.Fires n := by
  have henabled := h.live n ((h.stat n).2 hn)
  have hexp : s.step (.expire n) = some { s with
      ch := Function.update s.ch n { s.ch n with ctr := 0 }
      intr := Function.update s.intr n true } := if_pos hn.1
  have hpending : Function.update s.intr n true n = true := Function.update_self _ _ _
  refine ⟨_, { s with
    ch := Function.update s.ch n { s.ch n with ctr := 0 }
    intr := Function.update s.intr n true
    loc := .scan (fun m => Function.update s.intr n true m && s.inte m) 0 }, _, hexp, ?_, rfl, ?_⟩
  · simp only [Ptmr.step, hloc]
    exact if_pos ⟨henabled, n, hpending, hn.2⟩
  · rw [hpending, hn.2]
    rfl

/-- Where every one-shot timer is stopped by its own handler, the two records of what runs
agree outside the functions. -/
theorem physical_timers_agree (s : Ptmr) (h : ptmrSys.ReachableIf ExpiryOk s)
    (hloc : s.loc = .outside) : PtmrOk s := by
  have ha := agree_of_reachable h
  refine ⟨ha.stat, fun n hn limit mode hlimit hmax hmode => ?_, fun n hn => ha.fires hloc hn⟩
  exact start_ok (Bool.eq_false_iff.2 fun hs => hn ((ha.stat n).1 hs)) hlimit hmax hmode

/-- Every channel stopped, with no handler. -/
def reset : Ptmr where
  ptmrcb := fun _ => { mode := 0, div := 16, ptmrhdr := false }
  ch := fun _ => { en := false, div := 0, top := 0, ctr := 0 }
  inte := fun _ => false
  intr := fun _ => false
  ptmrStat := fun _ => false
  enabled := false
  loc := .outside

theorem reset_init : Init reset := ⟨fun _ => ⟨rfl, rfl, rfl⟩, rfl⟩

def isOutside (s : Ptmr) : Bool :=
  match s.loc with
  | .outside => true
  | _ => false

theorem loc_of_isOutside (h : s.isOutside = true) : s.loc = .outside := by
  unfold isOutside at h
  split at h
  · assumption
  · cases h

/-- A cyclic timer goes on; a one-shot timer expires and is stopped by its handler. -/
theorem physical_timers_agree_run : ∃ s, PtmrOk s ∧ s.ptmrStat 0 = true := by
  obtain ⟨s, hs, hp⟩ := @Lts.reachable_of_exec _ _ ptmrSys _ expiryOk
    (fun s => s.ptmrStat 0 && s.isOutside) (fun _ _ h => h) reset
    ([.define 1 true, .start 1 10 TA_CYC_PTMR .E_OK, .start 2 5 TA_ALM_PTMR .E_OK,
      .expire 1, .irq, .next, .next, .stop 2, .ret, .finish] ++ .replicate 7 .next)
    reset_init (by decide +kernel)
  have hboth : s.ptmrStat 0 = true ∧ s.isOutside = true := by simpa using hp
  exact ⟨s, physical_timers_agree s hs (loc_of_isOutside hboth.2), hboth.1⟩

/-- A one-shot timer that has expired is stopped, is said to run, and cannot be started. -/
theorem not_physical_timers_agree :
    ∃ s, ptmrSys.Reachable s ∧ s.loc = .outside ∧ s.ptmrStat 0 = true ∧ ¬s.runs 0 ∧
      (s.StartPhysicalTimer 1 10 TA_ALM_PTMR .E_OK).2 = .E_PAR := by
  obtain ⟨s, hs, hp⟩ := Lts.reachable_of_trace (L := ptmrSys)
    (p := fun s => s.isOutside && s.ptmrStat 0 && !(s.ch 0).en &&
      (s.StartPhysicalTimer 1 10 TA_ALM_PTMR .E_OK).2 == .E_PAR) (s := reset)
    ([.start 1 10 TA_ALM_PTMR .E_OK, .expire 0, .irq, .next, .finish] ++ .replicate 8 .next)
    reset_init (by decide +kernel)
  simp only [Bool.and_eq_true, Bool.not_eq_true', beq_iff_eq] at hp
  obtain ⟨⟨⟨hloc, hstat⟩, hen⟩, hpar⟩ := hp
  exact ⟨s, hs, loc_of_isOutside hloc, hstat, fun hr => by simp [hr.1] at hen, hpar⟩

end Ptmr

end Mtk3Smp
