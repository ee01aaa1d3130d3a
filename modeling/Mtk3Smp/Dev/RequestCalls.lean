import Mtk3Smp.Dev.Request
import Mtk3Smp.Lib.SChain
import Mtk3Smp.Lib.Tally

/-!
# Driver calls in progress on a descriptor

Every execfn or waitfn call that tasks have made for a descriptor works on a list of its requests.
As long as no request is on two of these lists, `tskid` of a request says whose call it is on.
-/

namespace Mtk3Smp

namespace ReqPc

/-- The descriptor on which a task is busy. -/
def on : ReqPc → Option Nat
  | idle => none
  | exec d _ | wait d .. | abort d | check d | waiSem d | clear d | rest d | aborted d _ | done d =>
    some d

/-- In execfn for a request of `d`. -/
def executes (d : Nat) : ReqPc → Prop
  | exec d' _ => d' = d
  | _ => False

def waitsOne (d : Nat) : ReqPc → Prop
  | wait d' (some _) _ _ => d' = d
  | _ => False

def waitsAny (d : Nat) : ReqPc → Prop
  | wait d' none _ _ => d' = d
  | _ => False

/-- In execfn, or in the waitfn call of tk_wai_dev, for `d`. -/
def inCall (d : Nat) : ReqPc → Prop
  | exec d' _ | wait d' .. => d' = d
  | _ => False

/-- `abort_allrequest` has proceeded past its wait. -/
def past (d : Nat) : ReqPc → Prop
  | clear d' | rest d' | aborted d' _ | done d' => d' = d
  | _ => False

variable {d : Nat} {pc : ReqPc}

theorem inCall_iff : pc.inCall d ↔ pc.executes d ∨ pc.waitsOne d ∨ pc.waitsAny d := by
  cases pc with
  | exec d' i => simp [inCall, executes, waitsOne, waitsAny]
  | wait d' reqid h n => cases reqid <;> simp [inCall, executes, waitsOne, waitsAny]
  | _ => simp [inCall, executes, waitsOne, waitsAny]

theorem waitsOne.inCall (h : pc.waitsOne d) : pc.inCall d := inCall_iff.2 (.inr (.inl h))

theorem waitsAny.inCall (h : pc.waitsAny d) : pc.inCall d := inCall_iff.2 (.inr (.inr h))

theorem inCall.on (h : pc.inCall d) : pc.on = some d := by
  cases pc with
  | exec d' i => exact congrArg some h
  | wait d' reqid h' n => exact congrArg some h
  | _ => cases h

theorem not_inCall_of_on (h : pc.on ≠ some d) : ¬ pc.inCall d := fun hc => h hc.on

end ReqPc

/-- The call that a task is in works on the requests `l` of `d`. -/
inductive CallOn (f : Nat → ReqCb) (d : Nat) : ReqPc → List Nat → Prop
  | exec (i : Nat) : CallOn f d (.exec d i) [i]
  | one (i : Nat) : (f i).next = none → CallOn f d (.wait d (some i) i 1) [i]
  | any (i n : Nat) (l : List Nat) : SChain (fun j => (f j).next) (some i) l → l.Nodup →
      l.length = n → CallOn f d (.wait d none i n) l

section

variable {f f' : Nat → ReqCb} {d i n : Nat} {pc : ReqPc} {l l' : List Nat}

theorem CallOn.inCall (h : CallOn f d pc l) : pc.inCall d := by
  cases h with
  | exec i => exact rfl
  | one i hn => exact rfl
  | any i n l hc hnd hlen => exact rfl

theorem CallOn.ne_nil (h : CallOn f d pc l) : l ≠ [] := by
  cases h with
  | exec i => exact List.cons_ne_nil _ _
  | one i hn => exact List.cons_ne_nil _ _
  | any i n l hc hnd hlen =>
    rintro rfl
    cases hc

theorem CallOn.nodup (h : CallOn f d pc l) : l.Nodup := by
  cases h with
  | exec i => exact List.nodup_singleton i
  | one i hn => exact List.nodup_singleton i
  | any i n l hc hnd hlen => exact hnd

theorem CallOn.unique (h : CallOn f d pc l) (h' : CallOn f d pc l') : l = l' := by
  cases h with
  | exec i =>
    cases h'
    rfl
  | one i hn =>
    cases h'
    rfl
  | any i n l hc hnd hlen =>
    cases h' with
    | any i n l' hc' hnd' hlen' => exact hc.unique hc'

/-- A call for one request. -/
theorem CallOn.single (h : CallOn f d pc l) (hany : ¬ pc.waitsAny d) : ∃ i, l = [i] := by
  cases h with
  | exec i => exact ⟨i, rfl⟩
  | one i hn => exact ⟨i, rfl⟩
  | any i n l hc hnd hlen => exact absurd rfl hany

theorem CallOn.congr (h : CallOn f d pc l) (hf : ∀ i ∈ l, (f' i).next = (f i).next) :
    CallOn f' d pc l := by
  cases h with
  | exec i => exact .exec i
  | one i hn => exact .one i ((hf i List.mem_cons_self).trans hn)
  | any i n l hc hnd hlen => exact .any i n l (hc.congr hf) hnd hlen

end

/-- Whose call the requests of a descriptor are on. -/
structure UsersOk (d : Nat) (queue : List Nat) (f : Nat → ReqCb) (pc : Tid → ReqPc) : Prop where
  call : ∀ t, (pc t).inCall d →
    ∃ l, CallOn f d (pc t) l ∧ ∀ i ∈ l, i ∈ queue ∧ (f i).tskid = some t
  user : ∀ i ∈ queue, ∀ t, (f i).tskid = some t → ∃ l, CallOn f d (pc t) l ∧ i ∈ l

namespace UsersOk

variable {d i : Nat} {queue queue' l : List Nat} {f f' : Nat → ReqCb} {pc : Tid → ReqPc} {t u : Tid}
  {v : ReqPc}

theorem of_call (h : UsersOk d queue f pc) (hl : CallOn f d (pc t) l) :
    ∀ i ∈ l, i ∈ queue ∧ (f i).tskid = some t := by
  obtain ⟨l', hl', hmem⟩ := h.call t hl.inCall
  obtain rfl := hl.unique hl'
  exact hmem

theorem start (h : ∀ t, pc t = .idle) : UsersOk d [] f pc where
  call t ht := by
    rw [h t] at ht
    cases ht
  user i hi := by cases hi

/-- Nobody is in a call, and no request is on one. -/
theorem unused (h : UsersOk d queue f pc) (hnone : ∀ t, ¬ (pc t).inCall d) (hi : i ∈ queue) :
    (f i).tskid = none := by
  cases ht : (f i).tskid with
  | none => rfl
  | some t =>
    obtain ⟨l, hl, -⟩ := h.user i hi t ht
    exact absurd hl.inCall (hnone t)

/-- A task that is in no call, before and after. -/
theorem frame (h : UsersOk d queue f pc) (ht : ¬ (pc t).inCall d) (hv : ¬ v.inCall d)
    (hf : ∀ i ∈ queue, (f' i).tskid = (f i).tskid ∧ (f' i).next = (f i).next) :
    UsersOk d queue f' (Function.update pc t v) := by
  constructor
  case call =>
    intro u hu
    by_cases hut : u = t
    · subst hut
      rw [Function.update_self] at hu
      exact absurd hu hv
    · rw [Function.update_of_ne hut] at hu ⊢
      obtain ⟨l, hl, hmem⟩ := h.call u hu
      refine ⟨l, hl.congr fun i hi => (hf i (hmem i hi).1).2, ?_⟩
      intro i hi
      obtain ⟨hq, hts⟩ := hmem i hi
      exact ⟨hq, ((hf i hq).1).trans hts⟩
  case user =>
    intro i hi u hu
    rw [(hf i hi).1] at hu
    obtain ⟨l, hl, hil⟩ := h.user i hi u hu
    have hut : u ≠ t := by
      rintro rfl
      exact ht hl.inCall
    rw [Function.update_of_ne hut]
    refine ⟨l, hl.congr fun j hj => (hf j ?_).2, hil⟩
    exact (h.of_call hl j hj).1

/-- `t` begins a call on requests that are on no other one. -/
theorem enter (h : UsersOk d queue f pc) (ht : ¬ (pc t).inCall d) (hv : CallOn f' d v l)
    (hq : ∀ i, i ∈ queue' ↔ i ∈ queue ∨ i ∈ l) (hunused : ∀ i ∈ queue, i ∈ l → (f i).tskid = none)
    (hnew : ∀ i ∈ l, (f' i).tskid = some t) (hold : ∀ i ∈ queue, i ∉ l → f' i = f i) :
    UsersOk d queue' f' (Function.update pc t v) := by
  have apart : ∀ u l', CallOn f d (pc u) l' → ∀ i ∈ l', i ∈ queue ∧ i ∉ l := by
    intro u l' hl' i hi
    obtain ⟨hiq, hts⟩ := h.of_call hl' i hi
    refine ⟨hiq, ?_⟩
    intro hil
    rw [hunused i hiq hil] at hts
    cases hts
  have keep : ∀ u l', CallOn f d (pc u) l' → CallOn f' d (pc u) l' := by
    intro u l' hl'
    apply hl'.congr
    intro i hi
    obtain ⟨hiq, hil⟩ := apart u l' hl' i hi
    rw [hold i hiq hil]
  constructor
  case call =>
    intro u hu
    by_cases hut : u = t
    · subst hut
      rw [Function.update_self]
      refine ⟨l, hv, ?_⟩
      intro i hi
      exact ⟨(hq i).2 (.inr hi), hnew i hi⟩
    · rw [Function.update_of_ne hut] at hu ⊢
      obtain ⟨l', hl', hmem⟩ := h.call u hu
      refine ⟨l', keep u l' hl', ?_⟩
      intro i hi
      obtain ⟨hiq, hil⟩ := apart u l' hl' i hi
      rw [hold i hiq hil]
      exact ⟨(hq i).2 (.inl hiq), (hmem i hi).2⟩
  case user =>
    intro i hi u hu
    by_cases hil : i ∈ l
    · rw [hnew i hil] at hu
      obtain rfl := Option.some.inj hu
      rw [Function.update_self]
      exact ⟨l, hv, hil⟩
    · have hiq : i ∈ queue := ((hq i).1 hi).resolve_right hil
      rw [hold i hiq hil] at hu
      obtain ⟨l', hl', hil'⟩ := h.user i hiq u hu
      have hut : u ≠ t := by
        rintro rfl
        exact ht hl'.inCall
      rw [Function.update_of_ne hut]
      exact ⟨l', keep u l' hl', hil'⟩

/-- The call of `t` returns. -/
theorem leave (h : UsersOk d queue f pc) (hl : CallOn f d (pc t) l) (hv : ¬ v.inCall d)
    (hfree : ∀ i ∈ l, (f' i).tskid = none) (hold : ∀ i, i ∉ l → f' i = f i) :
    UsersOk d queue f' (Function.update pc t v) := by
  have hmine := h.of_call hl
  have apart : ∀ u l', u ≠ t → CallOn f d (pc u) l' → ∀ i ∈ l', i ∉ l := by
    intro u l' hut hl' i hi hil
    have hts := (h.of_call hl' i hi).2
    rw [(hmine i hil).2] at hts
    exact hut (Option.some.inj hts).symm
  have keep : ∀ u l', u ≠ t → CallOn f d (pc u) l' → CallOn f' d (pc u) l' := by
    intro u l' hut hl'
    apply hl'.congr
    intro i hi
    rw [hold i (apart u l' hut hl' i hi)]
  constructor
  case call =>
    intro u hu
    by_cases hut : u = t
    · subst hut
      rw [Function.update_self] at hu
      exact absurd hu hv
    · rw [Function.update_of_ne hut] at hu ⊢
      obtain ⟨l', hl', hmem⟩ := h.call u hu
      refine ⟨l', keep u l' hut hl', ?_⟩
      intro i hi
      rw [hold i (apart u l' hut hl' i hi)]
      exact hmem i hi
  case user =>
    intro i hi u hu
    have hil : i ∉ l := by
      intro hil
      rw [hfree i hil] at hu
      cases hu
    rw [hold i hil] at hu
    obtain ⟨l', hl', hil'⟩ := h.user i hi u hu
    have hut : u ≠ t := by
      rintro rfl
      obtain rfl := hl.unique hl'
      exact hil hil'
    rw [Function.update_of_ne hut]
    exact ⟨l', keep u l' hut hl', hil'⟩

/-- A request that is on no call is deleted. -/
theorem drop (h : UsersOk d queue f pc) (hi : (f i).tskid = none)
    (hf : ∀ j, (f' j).tskid = (f j).tskid ∧ (f' j).next = (f j).next) :
    UsersOk d (queue.erase i) f' pc := by
  constructor
  case call =>
    intro u hu
    obtain ⟨l, hl, hmem⟩ := h.call u hu
    refine ⟨l, hl.congr fun j _ => (hf j).2, ?_⟩
    intro j hj
    obtain ⟨hq, hts⟩ := hmem j hj
    have hne : j ≠ i := by
      rintro rfl
      rw [hi] at hts
      cases hts
    exact ⟨(List.mem_erase_of_ne hne).2 hq, ((hf j).1).trans hts⟩
  case user =>
    intro j hj u hu
    rw [(hf j).1] at hu
    obtain ⟨l, hl, hjl⟩ := h.user j (List.mem_of_mem_erase hj) u hu
    exact ⟨l, hl.congr fun j _ => (hf j).2, hjl⟩

/-- Where nobody waits for any request, the calls are counted by the requests that are on one. -/
theorem tally (h : UsersOk d queue f pc) (hq : queue.Nodup) (hany : ∀ t, ¬ (pc t).waitsAny d) :
    Tally (queue.countP fun i => ((f i).tskid).isSome) fun t => (pc t).inCall d := by
  have single : ∀ i ∈ queue, ∀ t, (f i).tskid = some t → CallOn f d (pc t) [i] := by
    intro i hi t ht
    obtain ⟨l, hl, hil⟩ := h.user i hi t ht
    obtain ⟨j, rfl⟩ := hl.single (hany t)
    obtain rfl := List.mem_singleton.1 hil
    exact hl
  have hcount : Tally (queue.countP fun i => ((f i).tskid).isSome)
      fun t => ∃ i ∈ queue, (f i).tskid = some t := by
    apply Tally.countP hq
    intro i hi j hj t hit hjt
    have heq := (single i hi t hit).unique (single j hj t hjt)
    exact List.singleton_injective heq
  apply hcount.congr
  intro t
  constructor
  · intro ht
    obtain ⟨l, hl, hmem⟩ := h.call t ht
    obtain ⟨i, hi⟩ := List.exists_mem_of_ne_nil l hl.ne_nil
    obtain ⟨hiq, hts⟩ := hmem i hi
    exact ⟨i, hiq, hts⟩
  · rintro ⟨i, hi, hit⟩
    exact (single i hi t hit).inCall

end UsersOk

end Mtk3Smp
