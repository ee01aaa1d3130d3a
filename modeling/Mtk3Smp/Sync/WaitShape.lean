import Mtk3Smp.Sync.WaitCalls

/-!
# What the owner of the kernel lock has to do

Which code is called from which: `Shape`. The tasks that are out of the timer queue (`tOut`) and
out of the queue of their state (`qOut`) because of what is left to do, the tasks that are being
terminated (`Dying`) and the mutexes that pass from one owner to the next (`passing`).
-/

namespace Mtk3Smp

namespace Ctl

/-- The task whose timer event has been deleted. -/
def timerOut : Ctl → Option Tid
  | .release t .que _ | .release t .state _ | .accept t .que | .accept t .rdv => some t
  | .ter t .que _ | .ter t .hook _ | .ter t .mutex _ | .ter t (.signal _) _ => some t
  | _ => none

/-- The task that has been taken out of its queue. -/
def queOut : Ctl → Option Tid
  | .release t .state _ | .accept t .rdv | .queueInsertTpri t _ _ => some t
  | .ter t .hook _ | .ter t .mutex _ | .ter t (.signal _) _ => some t
  | _ => none

/-- The mutex that its owner gives up. -/
def passes : Ctl → Option MtxId
  | .unlock _ m | .handOver m _ | .waitDelete (.mtx m) => some m
  | _ => none

/-- What other code may be called from. -/
def below : Ctl → Bool
  | .scan _ | .waitDelete _ | .timerLoop _ | .makeWait _ _ _ | .mtxChgPri _ _ | .unlock _ _
  | .handOver _ _ | .ter _ .mutex _ | .ter _ (.signal _) _ => true
  | _ => false

/-- Nothing is called by a call that waits, gives up a mutex, deletes or terminates, but that a
mutex is handed over in the course of a termination. -/
def onTop : Ctl → Ctl → Bool
  | .makeWait _ _ _, _ | .unlock _ _, _ | .waitDelete _, _ | .ter _ _ _, _ => false
  | .handOver _ _, .ter _ _ _ => true
  | .handOver _ _, _ => false
  | .releaseMutex _ (some _) _ _ _, .unlock _ _ => true
  | .releaseMutex _ (some _) _ _ _, .waitDelete _ => true
  | .releaseMutex _ (some _) _ _ _, _ => false
  | _, _ => true

variable {x : Ctl} {t : Tid}

theorem ter_of_timerOut (h : x.below = true) (ho : x.timerOut = some t) :
    ∃ st exd, x = .ter t st exd := by
  cases x with
  | ter u st exd => cases st <;> simp_all [below, timerOut]
  | _ => simp_all [below, timerOut]

theorem ter_of_queOut (h : x.below = true) (ho : x.queOut = some t) :
    ∃ st exd, x = .ter t st exd := by
  cases x with
  | ter u st exd => cases st <;> simp_all [below, queOut]
  | _ => simp_all [below, queOut]

/-- A task that is being terminated is out, wherever other code is called from. -/
theorem queOut_of_ter {st : TerStage} {exd : Bool} (h : (Ctl.ter t st exd).below = true) :
    (Ctl.ter t st exd).queOut = some t := by
  cases st <;> simp_all [below, queOut]

theorem timerOut_of_ter {st : TerStage} {exd : Bool} (h : (Ctl.ter t st exd).below = true) :
    (Ctl.ter t st exd).timerOut = some t := by
  cases st <;> simp_all [below, timerOut]

end Ctl

def tOut (ctl : List Ctl) : Set Tid := {t | ∃ x ∈ ctl, x.timerOut = some t}
def qOut (ctl : List Ctl) : Set Tid := {t | ∃ x ∈ ctl, x.queOut = some t}
def passing (ctl : List Ctl) : Set MtxId := {m | ∃ x ∈ ctl, x.passes = some m}
def Dying (t : Tid) (ctl : List Ctl) : Prop := ∃ st exd, .ter t st exd ∈ ctl

/-- The task whose priority has changed while it is where it was in its queue. -/
def moving : List Ctl → Option Tid
  | .chgPriHook t _ :: _ => some t
  | _ => none

/-- The mutex that is being taken out of a list. -/
def unlisting : List Ctl → Option MtxId
  | .releaseMutex _ rel _ _ _ :: _ => rel
  | _ => none

/-- Where `knl_signal_all_mutex` has got to in the list of `t`. -/
def signalling (t : Tid) : List Ctl → Option (Option MtxId)
  | [] => none
  | .ter u (.signal next) _ :: rest => if u = t then some next else signalling t rest
  | _ :: rest => signalling t rest

/-- What code is called from. -/
structure TailShape (rest : List Ctl) : Prop where
  below : ∀ y ∈ rest, y.below = true
  onTop : rest.Pairwise fun x y => x.onTop y = true

def Shape : List Ctl → Prop
  | [] => True
  | x :: rest => (∀ y ∈ rest, x.onTop y = true) ∧ TailShape rest

section

variable {x y : Ctl} {ctl rest : List Ctl} {t u : Tid}

theorem mem_tOut_cons : t ∈ tOut (x :: rest) ↔ x.timerOut = some t ∨ t ∈ tOut rest := by
  simp [tOut]

theorem mem_qOut_cons : t ∈ qOut (x :: rest) ↔ x.queOut = some t ∨ t ∈ qOut rest := by
  simp [qOut]

theorem mem_passing_cons {m : MtxId} :
    m ∈ passing (x :: rest) ↔ x.passes = some m ∨ m ∈ passing rest := by
  simp [passing]

theorem tOut_congr (h : x.timerOut = y.timerOut) : tOut (x :: rest) = tOut (y :: rest) := by
  ext t
  rw [mem_tOut_cons, mem_tOut_cons, h]

theorem qOut_congr (h : x.queOut = y.queOut) : qOut (x :: rest) = qOut (y :: rest) := by
  ext t
  rw [mem_qOut_cons, mem_qOut_cons, h]

theorem tOut_of_none (h : x.timerOut = none) : tOut (x :: rest) = tOut rest := by
  ext t
  rw [mem_tOut_cons, h]
  simp

theorem qOut_of_none (h : x.queOut = none) : qOut (x :: rest) = qOut rest := by
  ext t
  rw [mem_qOut_cons, h]
  simp

theorem passing_of_none (h : x.passes = none) : passing (x :: rest) = passing rest := by
  ext m
  rw [mem_passing_cons, h]
  simp

@[simp] theorem tOut_nil : tOut [] = ∅ := by simp [tOut]
@[simp] theorem qOut_nil : qOut [] = ∅ := by simp [qOut]
@[simp] theorem passing_nil : passing [] = ∅ := by simp [passing]

theorem signalling_of_ne (h : ∀ next exd, x ≠ .ter t (.signal next) exd) :
    signalling t (x :: rest) = signalling t rest := by
  cases x with
  | ter u st exd =>
    cases st with
    | signal next =>
      have hne : u ≠ t := fun he => h next exd (he ▸ rfl)
      exact if_neg hne
    | _ => rfl
  | _ => rfl

theorem signalling_eq_none (h : ¬ Dying t ctl) : signalling t ctl = none := by
  induction ctl with
  | nil => rfl
  | cons x rest ih =>
    have hx : ∀ next exd, x ≠ .ter t (.signal next) exd := by
      rintro next exd rfl
      exact h ⟨_, _, List.mem_cons_self⟩
    rw [signalling_of_ne hx]
    exact ih fun ⟨st, exd, hm⟩ => h ⟨st, exd, List.mem_cons_of_mem _ hm⟩

theorem Dying.cons (h : Dying t rest) : Dying t (x :: rest) := by
  obtain ⟨st, exd, hm⟩ := h
  exact ⟨st, exd, List.mem_cons_of_mem _ hm⟩

theorem dying_cons_iff (h : ∀ st exd, x ≠ .ter t st exd) : Dying t (x :: rest) ↔ Dying t rest := by
  constructor
  · rintro ⟨st, exd, hm⟩
    rcases List.mem_cons.1 hm with he | hm
    · exact absurd he.symm (h st exd)
    · exact ⟨st, exd, hm⟩
  · exact Dying.cons

theorem not_dying_nil : ¬ Dying t [] := by
  rintro ⟨st, exd, hm⟩
  cases hm

theorem TailShape.nil : TailShape [] := ⟨by simp, .nil⟩

theorem TailShape.cons (h : TailShape rest) (hb : y.below = true)
    (ho : ∀ z ∈ rest, y.onTop z = true) : TailShape (y :: rest) := by
  refine ⟨?_, List.pairwise_cons.2 ⟨ho, h.onTop⟩⟩
  intro z hz
  rcases List.mem_cons.1 hz with rfl | hz
  · exact hb
  · exact h.below z hz

theorem TailShape.shape (h : TailShape rest) : Shape rest := by
  cases rest with
  | nil => trivial
  | cons x rest =>
    obtain ⟨hx, hrest⟩ := List.pairwise_cons.1 h.onTop
    exact ⟨hx, fun y hy => h.below y (List.mem_cons_of_mem _ hy), hrest⟩

theorem Shape.tail (h : Shape (x :: rest)) : TailShape rest := h.2

/-- Other code is called instead. -/
theorem Shape.head (h : Shape (x :: rest)) (ho : ∀ z ∈ rest, y.onTop z = true) :
    Shape (y :: rest) :=
  ⟨ho, h.2⟩

theorem Shape.push (h : Shape (x :: rest)) (hb : y.below = true)
    (ho : ∀ z ∈ rest, y.onTop z = true) {w : Ctl} (hw : ∀ z ∈ y :: rest, w.onTop z = true) :
    Shape (w :: y :: rest) :=
  ⟨hw, h.2.cons hb ho⟩

theorem Shape.nil_of_over (h : Shape (x :: rest)) (hx : ∀ y, x.onTop y = false) : rest = [] := by
  cases rest with
  | nil => rfl
  | cons y rest =>
    have hy := h.1 y List.mem_cons_self
    rw [hx y] at hy
    cases hy

/-- In what code is called from, only a task that is being terminated is out. -/
theorem TailShape.notMem_out (h : TailShape rest) (ht : ¬ Dying t rest) :
    t ∉ tOut rest ∧ t ∉ qOut rest := by
  constructor
  · rintro ⟨y, hy, ho⟩
    obtain ⟨st, exd, rfl⟩ := Ctl.ter_of_timerOut (h.below y hy) ho
    exact ht ⟨st, exd, hy⟩
  · rintro ⟨y, hy, ho⟩
    obtain ⟨st, exd, rfl⟩ := Ctl.ter_of_queOut (h.below y hy) ho
    exact ht ⟨st, exd, hy⟩

theorem TailShape.mem_qOut (h : TailShape rest) (ht : Dying t rest) : t ∈ qOut rest := by
  obtain ⟨st, exd, hm⟩ := ht
  exact ⟨_, hm, Ctl.queOut_of_ter (h.below _ hm)⟩

end

end Mtk3Smp
