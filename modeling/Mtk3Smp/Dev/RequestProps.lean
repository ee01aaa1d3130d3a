import Mtk3Smp.Dev.RequestAbort
import Mtk3Smp.Lib.FreePool

/-!
# The request management blocks

Every block is in the free queue or on the queue of the descriptor that it belongs to, and what
holds of one descriptor is not touched by the calls on another.
-/

namespace Mtk3Smp

/-! ## What the operations do to the fields -/

namespace OpnReq

variable {o : OpnReq}

@[simp] theorem notifyAbort_requestq : o.notifyAbort.requestq = o.requestq := by
  unfold notifyAbort
  split <;> rfl

@[simp] theorem notifyAbort_nwaireq : o.notifyAbort.nwaireq = o.nwaireq := by
  unfold notifyAbort
  split <;> rfl

@[simp] theorem notifyAbort_waitone : o.notifyAbort.waitone = o.waitone := by
  unfold notifyAbort
  split <;> rfl

end OpnReq

section

variable {next : Nat → Option Nat} {head : Option Nat} {l : List Nat} {t : Tid} {i : Nat}
  {f : Nat → ReqCb}

theorem isChain_iff : isChain next head l = true ↔ SChain next head l := by
  induction l generalizing head with
  | nil =>
    show decide (head = none) = true ↔ head = none
    exact decide_eq_true_iff
  | cons i l ih =>
    show (decide (head = some i) && isChain next (next i) l) = true ↔ _
    rw [Bool.and_eq_true, decide_eq_true_iff, ih]
    rfl

theorem listUp_of_notMem (h : i ∉ l) : listUp t l f i = f i := by
  induction l generalizing f with
  | nil => rfl
  | cons j l ih =>
    have hne : i ≠ j := List.ne_of_not_mem_cons h
    have hnot : i ∉ l := List.not_mem_of_not_mem_cons h
    show listUp t l _ i = f i
    rw [ih hnot, Function.update_of_ne hne]

theorem listUp_tskid (h : i ∈ l) : (listUp t l f i).tskid = some t := by
  induction l generalizing f with
  | nil => cases h
  | cons j l ih =>
    show (listUp t l _ i).tskid = some t
    by_cases hl : i ∈ l
    · exact ih hl
    · obtain rfl := (List.mem_cons.1 h).resolve_right hl
      rw [listUp_of_notMem hl, Function.update_self]

theorem listUp_opncb : (listUp t l f i).opncb = (f i).opncb := by
  induction l generalizing f with
  | nil => rfl
  | cons j l ih =>
    show (listUp t l _ i).opncb = (f i).opncb
    rw [ih]
    by_cases hij : i = j
    · subst hij
      rw [Function.update_self]
    · rw [Function.update_of_ne hij]

theorem listUp_chain (hl : l.Nodup) : SChain (fun j => (listUp t l f j).next) l.head? l := by
  induction l generalizing f with
  | nil => exact rfl
  | cons j l ih =>
    obtain ⟨hnot, hl⟩ := List.nodup_cons.1 hl
    refine ⟨rfl, ?_⟩
    have hj : (listUp t (j :: l) f j).next = l.head? := by
      show (listUp t l _ j).next = l.head?
      rw [listUp_of_notMem hnot, Function.update_self]
    show SChain (fun k => (listUp t (j :: l) f k).next) (listUp t (j :: l) f j).next l
    rw [hj]
    exact ih hl

end

/-! ## The invariant -/

structure DescOk (d : Nat) (o : OpnReq) (f : Nat → ReqCb) (pc : Tid → ReqPc) : Prop where
  users : UsersOk d o.requestq f pc
  waits : WaitsOk d o pc
  closer : CloserOk d o pc

theorem ReqPc.not_waits_of_on {pc : ReqPc} {d : Nat} (h : ¬ pc.inCall d) :
    ¬ pc.waitsAny d ∧ ¬ pc.waitsOne d := ⟨fun hw => h hw.inCall, fun hw => h hw.inCall⟩

theorem DescOk.frame {d : Nat} {o : OpnReq} {f f' : Nat → ReqCb} {pc : Tid → ReqPc} {t : Tid}
    {v : ReqPc} (h : DescOk d o f pc) (ht : (pc t).on ≠ some d) (hv : v.on ≠ some d)
    (hf : ∀ i ∈ o.requestq, f' i = f i) : DescOk d o f' (Function.update pc t v) := by
  have htc := ReqPc.not_inCall_of_on ht
  have hvc := ReqPc.not_inCall_of_on hv
  constructor
  case users =>
    apply h.users.frame htc hvc
    intro i hi
    rw [hf i hi]
    exact ⟨rfl, rfl⟩
  case waits =>
    exact h.waits.frame (ReqPc.not_waits_of_on htc) (ReqPc.not_waits_of_on hvc) rfl rfl
  case closer =>
    exact h.closer.frame ⟨ReqPc.not_closes_of_on ht, htc⟩ ⟨ReqPc.not_closes_of_on hv, hvc⟩

structure ReqOk (max : Nat) (s : ReqSys) : Prop where
  pool : FreePool s.free fun d => (s.opn d).requestq
  placed : ∀ i < max, i ∈ s.free ∨ ∃ d, i ∈ (s.opn d).requestq
  freeOwner : ∀ i ∈ s.free, (s.reqcb i).opncb = none
  owner : ∀ d, ∀ i ∈ (s.opn d).requestq, (s.reqcb i).opncb = some d
  counted : ∀ i < max, s.taken i = s.freed i + if i ∈ s.free then 0 else 1
  desc : ∀ d, DescOk d (s.opn d) s.reqcb s.pc

namespace ReqOk

variable {max d i : Nat} {s u : ReqSys} {t : Tid} {v : ReqPc} {o : OpnReq}
  {r : Except ReqErr Nat}

theorem queue_update : (fun e => (Function.update s.opn d o e).requestq) =
    Function.update (fun e => (s.opn e).requestq) d o.requestq := by
  funext e
  by_cases he : e = d
  · subst he
    rw [Function.update_self, Function.update_self]
  · rw [Function.update_of_ne he, Function.update_of_ne he]

/-- `knl_check_reqid` finds requests of the descriptor only. -/
theorem mem_of_owner (h : ReqOk max s) (hi : i < max) (ho : (s.reqcb i).opncb = some d) :
    i ∈ (s.opn d).requestq := by
  rcases h.placed i hi with hfree | ⟨e, he⟩
  · rw [h.freeOwner i hfree] at ho
    cases ho
  · have howner := h.owner e i he
    rw [ho] at howner
    obtain rfl := Option.some.inj howner
    exact he

/-- A call that comes back with the state as it was. -/
theorem returns (h : ReqOk max s) (ht : s.pc t = .idle) : ReqOk max (s.returns t r) := by
  have hpc : Function.update s.pc t .idle = s.pc := by
    rw [← ht]
    exact Function.update_eq_self t s.pc
  constructor
  case pool => exact h.pool
  case placed => exact h.placed
  case freeOwner => exact h.freeOwner
  case owner => exact h.owner
  case counted => exact h.counted
  case desc =>
    intro e
    show DescOk e (s.opn e) s.reqcb (Function.update s.pc t .idle)
    rw [hpc]
    exact h.desc e

/-- A step of `t` on the descriptor `d` that leaves all blocks in their queues. -/
theorem update (h : ReqOk max s) (hfree : u.free = s.free)
    (hcount : u.taken = s.taken ∧ u.freed = s.freed) (hopn : u.opn = Function.update s.opn d o)
    (hpc : u.pc = Function.update s.pc t v) (hq : o.requestq = (s.opn d).requestq)
    (howner : ∀ i, (u.reqcb i).opncb = (s.reqcb i).opncb)
    (hf : ∀ i, i ∉ (s.opn d).requestq → u.reqcb i = s.reqcb i)
    (ht : ∀ e, e ≠ d → (s.pc t).on ≠ some e) (hv : ∀ e, e ≠ d → v.on ≠ some e)
    (hd : DescOk d o u.reqcb u.pc) : ReqOk max u := by
  have hqueue : (fun e => (u.opn e).requestq) = fun e => (s.opn e).requestq := by
    rw [hopn, queue_update, hq]
    exact Function.update_eq_self d _
  have hmem : ∀ e, (u.opn e).requestq = (s.opn e).requestq := fun e => congrFun hqueue e
  constructor
  case pool =>
    rw [hqueue, hfree]
    exact h.pool
  case placed =>
    intro i hi
    rw [hfree]
    simp only [hmem]
    exact h.placed i hi
  case freeOwner =>
    intro i hi
    rw [hfree] at hi
    rw [howner]
    exact h.freeOwner i hi
  case owner =>
    intro e i hi
    rw [hmem] at hi
    rw [howner]
    exact h.owner e i hi
  case counted =>
    intro i hi
    rw [hcount.1, hcount.2, hfree]
    exact h.counted i hi
  case desc =>
    intro e
    by_cases he : e = d
    · subst he
      rw [hopn, Function.update_self]
      exact hd
    · rw [hopn, Function.update_of_ne he, hpc]
      refine (h.desc e).frame (ht e he) (hv e he) fun i hi => hf i ?_
      intro hid
      exact he (h.pool.unique e d i hi hid)

/-- `knl_delReqCB` for a request that is on no call and that no abort has taken up. -/
theorem knlDelReqCB (h : ReqOk max s) (hi : i ∈ (s.opn d).requestq)
    (hfree : (s.reqcb i).tskid = none) (hab : ∀ t, s.pc t ≠ .aborted d i) :
    ReqOk max (s.knlDelReqCB i) := by
  have hnot : i ∉ s.free := h.pool.apart d i hi
  have herase : s.free.erase i ++ [i] = s.free ++ [i] := by rw [List.erase_of_not_mem hnot]
  have hother : ∀ e, e ≠ d → i ∉ (s.opn e).requestq := fun e he hie =>
    he (h.pool.unique e d i hie hi)
  have hqueue : (fun e => ((s.opn e).requestq).erase i) =
      Function.update (fun e => (s.opn e).requestq) d (((s.opn d).requestq).erase i) := by
    funext e
    by_cases he : e = d
    · subst he
      rw [Function.update_self]
    · rw [Function.update_of_ne he, List.erase_of_not_mem (hother e he)]
  have hmem : ∀ e j, j ∈ ((s.opn e).requestq).erase i ↔ j ∈ (s.opn e).requestq ∧ j ≠ i := by
    intro e j
    rw [(h.pool.nodup e).mem_erase_iff]
    exact and_comm
  have hreq : ∀ j, j ≠ i → (s.knlDelReqCB i).reqcb j = s.reqcb j := fun j hj =>
    Function.update_of_ne hj _ _
  have hfields : ∀ j, ((s.knlDelReqCB i).reqcb j).tskid = (s.reqcb j).tskid ∧
      ((s.knlDelReqCB i).reqcb j).next = (s.reqcb j).next := by
    intro j
    by_cases hj : j = i
    · subst hj
      show (Function.update s.reqcb j { s.reqcb j with opncb := none } j).tskid = _ ∧
        (Function.update s.reqcb j { s.reqcb j with opncb := none } j).next = _
      rw [Function.update_self]
      exact ⟨rfl, rfl⟩
    · rw [hreq j hj]
      exact ⟨rfl, rfl⟩
  constructor
  case pool =>
    show FreePool (s.free.erase i ++ [i]) fun e => ((s.opn e).requestq).erase i
    rw [herase]
    have hdrop := h.pool.drop (d := d) (i := i) hi
    rw [← hqueue] at hdrop
    apply hdrop.giveBack hnot
    intro e he
    exact ((hmem e i).1 he).2 rfl
  case placed =>
    intro j hj
    show j ∈ s.free.erase i ++ [i] ∨ ∃ e, j ∈ ((s.opn e).requestq).erase i
    rw [herase]
    by_cases hji : j = i
    · subst hji
      exact .inl (List.mem_append_right _ List.mem_cons_self)
    · rcases h.placed j hj with hjf | ⟨e, he⟩
      · exact .inl (List.mem_append_left _ hjf)
      · exact .inr ⟨e, (hmem e j).2 ⟨he, hji⟩⟩
  case freeOwner =>
    intro j hj
    have hj : j ∈ s.free.erase i ++ [i] := hj
    rw [herase] at hj
    by_cases hji : j = i
    · subst hji
      show (Function.update s.reqcb j { s.reqcb j with opncb := none } j).opncb = none
      rw [Function.update_self]
    · rw [hreq j hji]
      have hjf : j ∈ s.free := (List.mem_append.1 hj).resolve_right fun hs =>
        hji (List.mem_singleton.1 hs)
      exact h.freeOwner j hjf
  case owner =>
    intro e j hj
    obtain ⟨hj, hji⟩ := (hmem e j).1 hj
    rw [hreq j hji]
    exact h.owner e j hj
  case counted =>
    intro j hj
    have hbefore := h.counted j hj
    show s.taken j = Function.update s.freed i (s.freed i + 1) j +
      if j ∈ s.free.erase i ++ [i] then 0 else 1
    rw [herase]
    by_cases hji : j = i
    · subst hji
      rw [Function.update_self, if_pos (List.mem_append_right _ List.mem_cons_self)]
      rw [if_neg hnot] at hbefore
      exact hbefore
    · have hiff : j ∈ s.free ++ [i] ↔ j ∈ s.free := by
        rw [List.mem_append, List.mem_singleton]
        exact or_iff_left hji
      rw [Function.update_of_ne hji]
      simp only [hiff]
      exact hbefore
  case desc =>
    intro e
    have hdesc := h.desc e
    show DescOk e { s.opn e with requestq := ((s.opn e).requestq).erase i }
      (s.knlDelReqCB i).reqcb s.pc
    constructor
    case users => exact hdesc.users.drop hfree hfields
    case waits => exact ⟨hdesc.waits.any, hdesc.waits.alone, hdesc.waits.anySome, hdesc.waits.ones⟩
    case closer =>
      by_cases he : e = d
      · subst he
        exact hdesc.closer.drop hab
      · rw [List.erase_of_not_mem (hother e he)]
        exact hdesc.closer

end ReqOk

end Mtk3Smp
