import Mtk3Smp.Dev.RequestProps
import Mtk3Smp.Lib.Lts

/-!
# Accounting for requests over whole runs

A wait for any request takes all requests of the descriptor, those too that are still in execfn,
and `abort_allrequest` then counts it as the only call. Where no call of execfn falls together with
these, and a descriptor is closed once, the blocks are never given back twice and every call has
returned when the abort goes on.
-/

namespace Mtk3Smp

namespace ReqSys

variable {max d i n : Nat} {s u : ReqSys} {t : Tid} {v : ReqPc} {o : OpnReq} {e : ReqEvent}
  {r : Except ReqErr Nat} {ercd reqno : Int} {walked : List Nat} {reqid : Option Nat}

/-- Every block is in exactly one queue and was put back as often as it was taken, and an abort
has proceeded past its wait only when no call of the descriptor is in progress. -/
structure RequestsRight (max : Nat) (s : ReqSys) : Prop where
  placed : ∀ i < max,
    (i ∈ s.free ∧ (s.reqcb i).opncb = none ∧ ∀ d, i ∉ (s.opn d).requestq) ∨
    (i ∉ s.free ∧ ∃ d, (s.reqcb i).opncb = some d ∧ ∀ e, i ∈ (s.opn e).requestq ↔ e = d)
  once : s.free.Nodup ∧ ∀ d, ((s.opn d).requestq).Nodup
  returned : ∀ i < max, s.taken i = s.freed i + if i ∈ s.free then 0 else 1
  waited : ∀ d t v, (s.pc t).past d → ¬ (s.pc v).inCall d

/-- No call of execfn is in progress for the descriptor where all its requests are waited for, or
where the close of it finds them waited for; and a clean-up closes only what nobody closes. -/
def Undisturbed (s : ReqSys) : ReqEvent → Prop
  | .waiDev _ d reqid => reqid = 0 → (s.opn d).resid = true → (s.opn d).nwaireq = 0 →
      (s.opn d).waitone ≤ 0 → ∀ v, ¬ (s.pc v).executes d
  | .abortBegin t => ∀ d, s.pc t = .abort d → 0 < (s.opn d).nwaireq → ∀ v, ¬ (s.pc v).executes d
  | .cleanup _ d => (s.opn d).resid = true
  | _ => True

end ReqSys

namespace ReqOk

open ReqSys

variable {max d i n h : Nat} {s u : ReqSys} {t : Tid} {v : ReqPc} {o : OpnReq} {e : ReqEvent}
  {r : Except ReqErr Nat} {ercd reqno : Int} {walked l : List Nat} {reqid : Option Nat}

theorem right (ok : ReqOk max s) : RequestsRight max s := by
  constructor
  case placed =>
    intro i hi
    rcases ok.placed i hi with hfree | ⟨d, hd⟩
    · refine .inl ⟨hfree, ok.freeOwner i hfree, ?_⟩
      intro d hd
      exact ok.pool.apart d i hd hfree
    · refine .inr ⟨ok.pool.apart d i hd, d, ok.owner d i hd, ?_⟩
      intro e
      constructor
      · exact fun he => ok.pool.unique e d i he hd
      · rintro rfl
        exact hd
  case once => exact ⟨ok.pool.freeNodup, ok.pool.nodup⟩
  case returned => exact ok.counted
  case waited =>
    intro d t w ht
    exact ((ok.desc d).closer.stage t).none_of_past ht w

theorem start {reqcb : Nat → ReqCb} {omode : Nat → Omode} :
    ReqOk max (.boot max reqcb omode) := by
  constructor
  case pool => exact FreePool.start List.nodup_range
  case placed => exact fun i hi => .inl (List.mem_range.2 hi)
  case freeOwner => exact fun i _ => rfl
  case owner =>
    intro d i hi
    cases hi
  case counted =>
    intro i hi
    show 0 = 0 + if i ∈ List.range max then 0 else 1
    rw [if_pos (List.mem_range.2 hi)]
  case desc =>
    intro d
    constructor
    case users => exact .start fun _ => rfl
    case waits => exact .start (fun _ => rfl) rfl rfl
    case closer => exact .of_not_closes (fun _ => id) fun _ => ⟨rfl, rfl⟩

theorem on_idle {e : Nat} (ht : s.pc t = .idle) : (s.pc t).on ≠ some e := by
  rw [ht]
  exact nofun

theorem on_other {pc : ReqPc} {e : Nat} (ht : pc.on = some d) (he : e ≠ d) : pc.on ≠ some e := by
  rw [ht]
  rintro ⟨⟩
  exact he rfl

theorem resid_of_check {mode : Omode} (h : s.checkDevdesc d mode = none) :
    (s.opn d).resid = true := by
  unfold ReqSys.checkDevdesc at h
  split at h
  · cases h
  · rename_i hr
    cases hres : (s.opn d).resid with
    | false => exact absurd hres hr
    | true => rfl

/-! ## Requests -/

theorem request {read ignore : Bool} (ok : ReqOk max s) (ht : s.pc t = .idle) :
    ReqOk max (s.request t d read ignore) := by
  unfold ReqSys.request
  split
  case h_1 => exact ok.returns ht
  case h_2 hcheck =>
  split
  case h_1 => exact ok.returns ht
  case h_2 i rest hfree =>
  have hres := resid_of_check hcheck
  have hdesc := ok.desc d
  have htc : ¬ (s.pc t).inCall d := ReqPc.not_inCall_of_on (on_idle ht)
  have hpool : FreePool (i :: rest) fun e => (s.opn e).requestq := hfree ▸ ok.pool
  have hi : i ∉ rest := (List.nodup_cons.1 hpool.freeNodup).1
  have hiq : ∀ e, i ∉ (s.opn e).requestq := fun e he => hpool.apart e i he List.mem_cons_self
  let new : ReqCb := { opncb := some d, tskid := some t, next := none, abort := false }
  let o : OpnReq := { s.opn d with requestq := (s.opn d).requestq ++ [i] }
  have hmem : ∀ e j, j ∈ (Function.update s.opn d o e).requestq ↔
      j ∈ (s.opn e).requestq ∨ e = d ∧ j = i := by
    intro e j
    have heq := congrFun (queue_update (s := s) (d := d) (o := o)) e
    rw [heq]
    exact FreePool.mem_append
  have hself : Function.update s.reqcb i new i = new := Function.update_self _ _ _
  have hother : ∀ j, j ≠ i → Function.update s.reqcb i new j = s.reqcb j :=
    fun j hj => Function.update_of_ne hj _ _
  constructor
  case pool =>
    show FreePool rest fun e => (Function.update s.opn d o e).requestq
    rw [queue_update]
    exact hpool.take
  case placed =>
    intro j hj
    show j ∈ rest ∨ ∃ e, j ∈ (Function.update s.opn d o e).requestq
    simp only [hmem]
    by_cases hji : j = i
    · exact .inr ⟨d, .inr ⟨rfl, hji⟩⟩
    · rcases ok.placed j hj with hjf | ⟨e, he⟩
      · rw [hfree] at hjf
        exact .inl ((List.mem_cons.1 hjf).resolve_left hji)
      · exact .inr ⟨e, .inl he⟩
  case freeOwner =>
    intro j hj
    have hji : j ≠ i := by
      rintro rfl
      exact hi hj
    show (Function.update s.reqcb i new j).opncb = none
    rw [hother j hji]
    apply ok.freeOwner j
    rw [hfree]
    exact List.mem_cons_of_mem _ hj
  case owner =>
    intro e j hj
    show (Function.update s.reqcb i new j).opncb = some e
    rcases (hmem e j).1 hj with hq | ⟨rfl, rfl⟩
    · have hji : j ≠ i := by
        rintro rfl
        exact hiq e hq
      rw [hother j hji]
      exact ok.owner e j hq
    · rw [hself]
  case counted =>
    intro j hj
    have hbefore := ok.counted j hj
    show Function.update s.taken i (s.taken i + 1) j = s.freed j + if j ∈ rest then 0 else 1
    rw [hfree] at hbefore
    by_cases hji : j = i
    · subst hji
      rw [if_pos List.mem_cons_self] at hbefore
      rw [Function.update_self, if_neg hi, hbefore]
    · have hiff : j ∈ i :: rest ↔ j ∈ rest := by
        rw [List.mem_cons]
        exact or_iff_right hji
      simp only [hiff] at hbefore
      rw [Function.update_of_ne hji]
      exact hbefore
  case desc =>
    intro e
    show DescOk e (Function.update s.opn d o e) (Function.update s.reqcb i new)
      (Function.update s.pc t (.exec d i))
    by_cases he : e = d
    · subst he
      rw [Function.update_self]
      constructor
      case users =>
        refine hdesc.users.enter htc (.exec i) ?_ ?_ ?_ ?_
        · intro j
          exact List.mem_append
        · intro j hj hji
          obtain rfl := List.mem_singleton.1 hji
          exact absurd hj (hiq e)
        · intro j hji
          obtain rfl := List.mem_singleton.1 hji
          rw [hself]
        · intro j _ hji
          exact hother j fun hji' => hji (List.mem_singleton.2 hji')
      case waits => exact hdesc.waits.frame (ReqPc.not_waits_of_on htc) ⟨id, id⟩ rfl rfl
      case closer => exact hdesc.closer.enter hres id rfl rfl
    · rw [Function.update_of_ne he]
      refine (ok.desc e).frame (on_idle ht) (on_other rfl he) ?_
      intro j hj
      apply hother j
      rintro rfl
      exact hiq e hj

/-- A call of `t` returns. Its requests are on no call, so that one of them may be deleted. -/
theorem leave (ok : ReqOk max s) (hl : CallOn s.reqcb d (s.pc t) l)
    (hreq : o.requestq = (s.opn d).requestq)
    (hwaits : WaitsOk d o (Function.update s.pc t .idle))
    (hcloser : CloserOk d o (Function.update s.pc t .idle))
    (hfree : u.free = s.free) (hcount : u.taken = s.taken ∧ u.freed = s.freed)
    (hopn : u.opn = Function.update s.opn d o) (hpc : u.pc = Function.update s.pc t .idle)
    (hin : ∀ i ∈ l, u.reqcb i = { s.reqcb i with tskid := none })
    (hout : ∀ i, i ∉ l → u.reqcb i = s.reqcb i) :
    ReqOk max u ∧ ∀ i ∈ l, ReqOk max (u.knlDelReqCB i) := by
  have hdesc := ok.desc d
  have hmine := hdesc.users.of_call hl
  have hon := hl.inCall.on
  have hok : ReqOk max u := by
    refine ok.update hfree hcount hopn hpc hreq ?_ ?_ (fun e he => on_other hon he)
      (fun e _ => nofun) ?_
    · intro i
      by_cases hi : i ∈ l
      · rw [hin i hi]
      · rw [hout i hi]
    · intro i hi
      exact hout i fun hil => hi (hmine i hil).1
    · rw [hpc]
      constructor
      case users =>
        rw [hreq]
        refine hdesc.users.leave hl id (fun i hi => ?_) hout
        rw [hin i hi]
      case waits => exact hwaits
      case closer => exact hcloser
  refine ⟨hok, ?_⟩
  intro i hi
  apply hok.knlDelReqCB (d := d)
  · rw [hopn, Function.update_self, hreq]
    exact (hmine i hi).1
  · rw [hin i hi]
  · -- an abort that goes through the requests has seen this call return
    intro w hw
    rw [hpc] at hw
    by_cases hwt : w = t
    · subst hwt
      rw [Function.update_self] at hw
      cases hw
    · rw [Function.update_of_ne hwt] at hw
      have hst := hdesc.closer.stage w
      rw [hw] at hst
      exact (hst rfl).1 t hl.inCall

theorem execReturn (ok : ReqOk max s) (ht : s.pc t = .exec d i) :
    ReqOk max (s.execReturn t d i ercd) := by
  have hdesc := ok.desc d
  have hcall : (s.pc t).inCall d := by
    rw [ht]
    exact rfl
  have hl : CallOn s.reqcb d (s.pc t) [i] := by
    rw [ht]
    exact .exec i
  have hnot : ¬ (s.pc t).waitsAny d ∧ ¬ (s.pc t).waitsOne d := by
    rw [ht]
    exact ⟨id, id⟩
  let mid := (s.setReq i { s.reqcb i with tskid := none }).notifyAbort d
  have after : ∀ r, ReqOk max (mid.returns t r) ∧
      ∀ j ∈ [i], ReqOk max ((mid.returns t r).knlDelReqCB j) := by
    intro r
    refine ok.leave (o := (s.opn d).notifyAbort) hl OpnReq.notifyAbort_requestq ?_ ?_ rfl
      ⟨rfl, rfl⟩ rfl rfl ?_ ?_
    · exact hdesc.waits.frame hnot ⟨id, id⟩ OpnReq.notifyAbort_nwaireq OpnReq.notifyAbort_waitone
    · exact hdesc.closer.leave hcall ⟨id, id⟩
    · intro j hj
      obtain rfl := List.mem_singleton.1 hj
      exact Function.update_self _ _ _
    · intro j hj
      exact Function.update_of_ne (fun hji => hj (List.mem_singleton.2 hji)) _ _
  unfold ReqSys.execReturn
  dsimp only
  split
  · exact (after _).2 i List.mem_cons_self
  · exact (after _).1

/-! ## Waits -/

/-- A wait for any request finds all requests of the descriptor unused. -/
theorem waiAny (ok : ReqOk max s) (ht : s.pc t = .idle) (hr : (s.opn d).resid = true)
    (hexec : ¬ 0 < (s.opn d).nwaireq → ¬ 0 < (s.opn d).waitone → ∀ w, ¬ (s.pc w).executes d) :
    ReqOk max (s.waiAny t d) := by
  unfold ReqSys.waiAny
  dsimp only
  split
  · exact ok.returns ht
  rename_i hfree
  have hn : ¬ 0 < (s.opn d).nwaireq := fun h => hfree (.inl h)
  have hw : ¬ 0 < (s.opn d).waitone := fun h => hfree (.inr h)
  split
  · exact ok.returns ht
  rename_i i l hq
  have hdesc := ok.desc d
  have htc : ¬ (s.pc t).inCall d := ReqPc.not_inCall_of_on (on_idle ht)
  have hnd : (i :: l).Nodup := hq ▸ ok.pool.nodup d
  have hcalls : ∀ w, ¬ (s.pc w).inCall d := by
    intro w hw'
    rcases ReqPc.inCall_iff.1 hw' with he | hone | hany
    · exact hexec hn hw w he
    · exact hdesc.waits.not_waitsOne hw w hone
    · exact hdesc.waits.not_waitsAny hn w hany
  refine ok.update (t := t) (v := .wait d none i (i :: l).length) rfl ⟨rfl, rfl⟩ rfl rfl rfl
    (fun j => listUp_opncb) ?_ (fun e _ => on_idle ht) (fun e he => on_other rfl he) ?_
  · intro j hj
    rw [hq] at hj
    exact listUp_of_notMem hj
  · constructor
    case users =>
      show UsersOk d (s.opn d).requestq (listUp t (i :: l) s.reqcb)
        (Function.update s.pc t (.wait d none i (i :: l).length))
      refine hdesc.users.enter htc (.any i _ (i :: l) (listUp_chain hnd) hnd rfl) ?_ ?_ ?_ ?_
      · intro j
        rw [hq]
        exact (or_self_iff).symm
      · exact fun j hj _ => hdesc.users.unused hcalls hj
      · exact fun j hj => listUp_tskid hj
      · exact fun j _ hj => listUp_of_notMem hj
    case waits => exact hdesc.waits.enterAny hn hw rfl id (Nat.succ_pos _) rfl
    case closer => exact hdesc.closer.enter hr id rfl rfl

theorem waiOne {reqid : Int} (ok : ReqOk max s) (ht : s.pc t = .idle)
    (hr : (s.opn d).resid = true) : ReqOk max (s.waiOne max t d reqid) := by
  unfold ReqSys.waiOne
  dsimp only
  split
  · exact ok.returns ht
  rename_i hid
  split
  · exact ok.returns ht
  rename_i hbusy
  have hlow : ¬ reqid < 1 := fun h => hid (.inl h)
  have hhigh : ¬ max < reqid := fun h => hid (.inr (.inl h))
  have howner : (s.reqcb (reqid - 1).toNat).opncb = some d :=
    not_not.1 fun h => hid (.inr (.inr h))
  have hn : ¬ 0 < (s.opn d).nwaireq := fun h => hbusy (.inl h)
  have hunused : (s.reqcb (reqid - 1).toNat).tskid = none := not_not.1 fun h => hbusy (.inr h)
  generalize hi : (reqid - 1).toNat = i at howner hunused
  have hmax : i < max := by omega
  have hq := ok.mem_of_owner hmax howner
  have hdesc := ok.desc d
  have htc : ¬ (s.pc t).inCall d := ReqPc.not_inCall_of_on (on_idle ht)
  let new : ReqCb := { s.reqcb i with tskid := some t, next := none }
  have hself : Function.update s.reqcb i new i = new := Function.update_self _ _ _
  have hother : ∀ j, j ≠ i → Function.update s.reqcb i new j = s.reqcb j :=
    fun j hj => Function.update_of_ne hj _ _
  refine ok.update (t := t) (v := .wait d (some i) i 1) rfl ⟨rfl, rfl⟩ rfl rfl rfl ?_ ?_
    (fun e _ => on_idle ht) (fun e he => on_other rfl he) ?_
  · intro j
    show (Function.update s.reqcb i new j).opncb = (s.reqcb j).opncb
    by_cases hj : j = i
    · subst hj
      rw [hself]
    · rw [hother j hj]
  · intro j hj
    apply hother j
    rintro rfl
    exact hj hq
  · constructor
    case users =>
      show UsersOk d (s.opn d).requestq (Function.update s.reqcb i new)
        (Function.update s.pc t (.wait d (some i) i 1))
      refine hdesc.users.enter (l := [i]) htc (.one i ?_) ?_ ?_ ?_ ?_
      · rw [hself]
      · intro j
        constructor
        · exact .inl
        · rintro (hj | hj)
          · exact hj
          · obtain rfl := List.mem_singleton.1 hj
            exact hq
      · intro j _ hj
        obtain rfl := List.mem_singleton.1 hj
        exact hunused
      · intro j hj
        obtain rfl := List.mem_singleton.1 hj
        rw [hself]
      · intro j _ hj
        exact hother j fun hji => hj (List.mem_singleton.2 hji)
    case waits =>
      exact hdesc.waits.enterOne hn (ReqPc.not_waits_of_on htc).2 rfl id rfl rfl
    case closer => exact hdesc.closer.enter hr id rfl rfl

/-- The loop over `devreq` visits the requests of the call. -/
theorem walked_eq (hl : CallOn s.reqcb d (.wait d reqid h n) l)
    (hwalk : isChain (fun j => (s.reqcb j).next) (some h) walked = true) :
    walked = l ∧ l.length = n := by
  have hchain := isChain_iff.1 hwalk
  cases hl with
  | one i hn =>
    have hone : SChain (fun j => (s.reqcb j).next) (some h) [h] := ⟨rfl, hn⟩
    exact ⟨hchain.unique hone, rfl⟩
  | any i n l hc hnd hlen => exact ⟨hchain.unique hc, hlen⟩

theorem waitReturn (ok : ReqOk max s) (ht : s.pc t = .wait d reqid h n)
    (hwalk : isChain (fun j => (s.reqcb j).next) (some h) walked = true)
    (hs : s.waitReturn t d reqid n reqno walked = some u) : ReqOk max u := by
  have hdesc := ok.desc d
  have hcall : (s.pc t).inCall d := by
    rw [ht]
    exact rfl
  obtain ⟨l, hl, -⟩ := hdesc.users.call t hcall
  have hl' := hl
  rw [ht] at hl'
  obtain ⟨rfl, hlen⟩ := walked_eq hl' hwalk
  let o : OpnReq := if reqid = none then { s.opn d with nwaireq := 0 }
    else { s.opn d with waitone := (s.opn d).waitone - 1 }
  have hreq : o.requestq = (s.opn d).requestq := by
    show (if reqid = none then _ else _ : OpnReq).requestq = _
    split <;> rfl
  have hcloser : CloserOk d o s.pc := by
    show CloserOk d (if reqid = none then _ else _ : OpnReq) s.pc
    split
    · exact ⟨hdesc.closer.alone, hdesc.closer.closed, hdesc.closer.opened, hdesc.closer.stage⟩
    · exact ⟨hdesc.closer.alone, hdesc.closer.closed, hdesc.closer.opened, hdesc.closer.stage⟩
  have hwaits : WaitsOk d o.notifyAbort (Function.update s.pc t .idle) := by
    cases hid : reqid with
    | none =>
      have hany : (s.pc t).waitsAny d := by
        rw [ht, hid]
        exact rfl
      have ho : o = { s.opn d with nwaireq := 0 } := if_pos hid
      apply hdesc.waits.leaveAny hany ⟨id, id⟩
      · rw [OpnReq.notifyAbort_nwaireq, ho]
      · rw [OpnReq.notifyAbort_waitone, ho]
    | some i =>
      have hone : (s.pc t).waitsOne d := by
        rw [ht, hid]
        exact rfl
      have ho : o = { s.opn d with waitone := (s.opn d).waitone - 1 } := by
        apply if_neg
        rw [hid]
        exact nofun
      apply hdesc.waits.leaveOne hone ⟨id, id⟩
      · rw [OpnReq.notifyAbort_nwaireq, ho]
      · rw [OpnReq.notifyAbort_waitone, ho]
  let mid := ((s.setOpn d o).notifyAbort d).release walked
  have hopn : mid.opn = Function.update s.opn d o.notifyAbort := by
    show Function.update (Function.update s.opn d o) d
      (Function.update s.opn d o d).notifyAbort = _
    rw [Function.update_self, Function.update_idem]
  have after : ∀ r, ReqOk max (mid.returns t r) ∧
      ∀ j ∈ walked, ReqOk max ((mid.returns t r).knlDelReqCB j) := by
    intro r
    refine ok.leave (o := o.notifyAbort) hl (OpnReq.notifyAbort_requestq.trans hreq) hwaits
      (hcloser.leave hcall ⟨id, id⟩) rfl ⟨rfl, rfl⟩ hopn rfl ?_ ?_
    · exact fun j hj => if_pos hj
    · exact fun j hj => if_neg hj
  unfold ReqSys.waitReturn at hs
  dsimp only at hs
  split at hs
  · obtain rfl := Option.some.inj hs
    exact (after _).1
  split at hs
  · obtain rfl := Option.some.inj hs
    exact (after _).1
  rename_i hneg hsys
  obtain ⟨j, hj, rfl⟩ := Option.map_eq_some_iff.1 hs
  have hlt : reqno.toNat < walked.length := by omega
  have hjw : j ∈ walked := by
    unfold completed at hj
    rw [if_pos (Int.not_lt.1 hneg), List.getElem?_eq_getElem hlt] at hj
    obtain rfl : walked[reqno.toNat] = j := Option.some.inj hj
    exact List.getElem_mem hlt
  exact (after _).2 j hjw

/-! ## The close -/

theorem setOpn_self : s.setOpn d (s.opn d) = s := by
  unfold setOpn
  rw [Function.update_eq_self]

variable (v) in
/-- The task that closes a descriptor goes on, and so does one that begins to close an open one. -/
theorem close {f : Nat → ReqCb} (ok : ReqOk max s)
    (ht : (s.pc t).closes d ∨ s.pc t = .idle ∧ (s.opn d).resid = true)
    (hv : v.closes d ∨ v = .idle)
    (hsame : o.requestq = (s.opn d).requestq ∧ o.nwaireq = (s.opn d).nwaireq ∧
      o.waitone = (s.opn d).waitone)
    (hr : o.resid = false) (howner : ∀ i, (f i).opncb = (s.reqcb i).opncb)
    (hout : ∀ i, i ∉ (s.opn d).requestq → f i = s.reqcb i)
    (hf : ∀ i ∈ (s.opn d).requestq, (f i).tskid = (s.reqcb i).tskid ∧
      (f i).next = (s.reqcb i).next)
    (hstage : v.Stage d o fun w => (s.pc w).inCall d) :
    ReqOk max (({ s with reqcb := f }.setOpn d o).setPc t v) := by
  have hdesc := ok.desc d
  have hton : ∀ e, e ≠ d → (s.pc t).on ≠ some e := by
    intro e he
    rcases ht with hc | ⟨hidle, -⟩
    · exact on_other hc.on he
    · exact on_idle hidle
  have hvon : ∀ e, e ≠ d → v.on ≠ some e := by
    intro e he
    rcases hv with hc | rfl
    · exact on_other hc.on he
    · exact nofun
  have htc : ¬ (s.pc t).inCall d := by
    rcases ht with hc | ⟨hidle, -⟩
    · exact hc.not_inCall
    · rw [hidle]
      exact id
  have hvc : ¬ v.inCall d := by
    rcases hv with hc | rfl
    · exact hc.not_inCall
    · exact id
  refine ok.update (o := o) (v := v) rfl ⟨rfl, rfl⟩ rfl rfl hsame.1 howner hout hton hvon ?_
  show DescOk d o f (Function.update s.pc t v)
  constructor
  case users =>
    rw [hsame.1]
    exact hdesc.users.frame htc hvc hf
  case waits =>
    exact hdesc.waits.frame (ReqPc.not_waits_of_on htc) (ReqPc.not_waits_of_on hvc) hsame.2.1
      hsame.2.2
  case closer =>
    refine hdesc.closer.phase ?_ htc hvc (fun _ => hr) (fun hr' => ?_) hstage
    · rcases ht with hc | ⟨-, hres⟩
      · exact .inl hc
      · exact .inr (hdesc.closer.not_closes hres)
    · rw [hr] at hr'
      cases hr'

variable (v) in
/-- A step of the close that does not touch the requests. -/
theorem closeOn (ok : ReqOk max s) (ht : (s.pc t).closes d) (hv : v.closes d ∨ v = .idle)
    (hsame : o.requestq = (s.opn d).requestq ∧ o.nwaireq = (s.opn d).nwaireq ∧
      o.waitone = (s.opn d).waitone)
    (hr : o.resid = (s.opn d).resid) (hstage : v.Stage d o fun w => (s.pc w).inCall d) :
    ReqOk max ((s.setOpn d o).setPc t v) := by
  have hclosed : o.resid = false := hr.trans ((ok.desc d).closer.closed t ht)
  exact ok.close v (.inl ht) hv hsame hclosed (fun _ => rfl) (fun _ _ => rfl)
    (fun _ _ => ⟨rfl, rfl⟩) hstage

variable (v) in
/-- The close comes to its next place. -/
theorem closeMove (ok : ReqOk max s) (ht : (s.pc t).closes d) (hv : v.closes d ∨ v = .idle)
    (hstage : v.Stage d (s.opn d) fun w => (s.pc w).inCall d) : ReqOk max (s.setPc t v) := by
  have h := ok.closeOn v ht hv ⟨rfl, rfl, rfl⟩ rfl hstage
  rwa [setOpn_self] at h

theorem closes_of {pc : ReqPc} (ht : s.pc t = pc) (hc : pc.closes d) : (s.pc t).closes d := by
  rw [ht]
  exact hc

theorem stage_of {pc : ReqPc} (ok : ReqOk max s) (ht : s.pc t = pc) :
    pc.Stage d (s.opn d) fun w => (s.pc w).inCall d := by
  rw [← ht]
  exact (ok.desc d).closer.stage t

theorem closeBegin (ok : ReqOk max s) (ht : s.pc t = .idle) (hr : (s.opn d).resid = true) :
    ReqOk max ((s.setOpn d { s.opn d with resid := false }).setPc t (.abort d)) := by
  refine ok.close (.abort d) (.inr ⟨ht, hr⟩) (.inl rfl) ⟨rfl, rfl, rfl⟩ rfl ?_ ?_ ?_ ?_
  · exact fun _ => rfl
  · exact fun _ _ => rfl
  · exact fun _ _ => ⟨rfl, rfl⟩
  · exact fun _ => (ok.desc d).closer.opened hr

/-- `abort_cnt` becomes the number of the calls in progress. -/
theorem abortBegin (ok : ReqOk max s) (ht : s.pc t = .abort d)
    (hexec : 0 < (s.opn d).nwaireq → ∀ w, ¬ (s.pc w).executes d) :
    ReqOk max ((s.abortBegin t d).setPc t (.check d)) := by
  have hdesc := ok.desc d
  have hcl : (s.pc t).closes d := closes_of ht rfl
  have hres := hdesc.closer.closed t hcl
  obtain ⟨-, hsem⟩ := ok.stage_of (d := d) ht rfl
  unfold ReqSys.abortBegin
  dsimp only
  split
  · rename_i hn
    obtain ⟨w, hw⟩ := hdesc.waits.anySome hn
    have htally : Tally 1 fun x => (s.pc x).inCall d := by
      apply Tally.one (a := w)
      intro x
      rw [ReqPc.inCall_iff]
      constructor
      · rintro (hx | hx | hx)
        · exact absurd hx (hexec hn x)
        · exact absurd hx (hdesc.waits.alone w hw x).2
        · exact (hdesc.waits.alone w hw x).1 hx
      · rintro rfl
        exact .inr (.inr hw)
    refine ok.closeOn (.check d) hcl (.inl rfl) ⟨rfl, rfl, rfl⟩ rfl ?_
    exact fun _ => ⟨nofun, 1, 0, htally, rfl, hsem, fun h => absurd h (Nat.lt_irrefl 0)⟩
  · rename_i hn
    have htally := hdesc.users.tally (ok.pool.nodup d) (hdesc.waits.not_waitsAny hn)
    refine ok.close (.check d) (.inl hcl) (.inl rfl) ⟨rfl, rfl, rfl⟩ hres ?_ ?_ ?_ ?_
    · intro i
      show (if _ then _ else _ : ReqCb).opncb = _
      split <;> rfl
    · intro i hi
      exact if_neg fun h => hi h.1
    · intro i _
      show (if _ then _ else _ : ReqCb).tskid = _ ∧ (if _ then _ else _ : ReqCb).next = _
      split <;> exact ⟨rfl, rfl⟩
    · refine fun _ => ⟨nofun, _, 0, htally, ?_, hsem, fun h => absurd h (Nat.lt_irrefl 0)⟩
      show ((((s.opn d).requestq).countP fun i => decide ((s.reqcb i).tskid ≠ none) : Nat) : Int) =
        (((s.opn d).requestq).countP fun i => ((s.reqcb i).tskid).isSome : Nat)
      congr 1
      apply List.countP_congr
      intro i _
      rw [decide_eq_true_iff, Option.isSome_iff_ne_none]

theorem abortCheck (ok : ReqOk max s) (ht : s.pc t = .check d) :
    ReqOk max (s.setPc t (if 0 < (s.opn d).abortCnt then .waiSem d else .clear d)) := by
  have hst := ok.stage_of (d := d) ht
  have hcl : (s.pc t).closes d := closes_of ht rfl
  split
  · exact ok.closeMove (.waiSem d) hcl (.inl rfl) hst
  · rename_i hcnt
    obtain ⟨-, n, m, htally, hn, -, -⟩ := hst rfl
    have hzero : n = 0 := by omega
    subst hzero
    exact ok.closeMove (.clear d) hcl (.inl rfl) fun _ => Tally.zero.1 htally

/-- The semaphore lets the abort go on when no call is in progress. -/
theorem abortSem (ok : ReqOk max s) (ht : s.pc t = .waiSem d)
    (hsem : (s.opn d).sem = some (n + 1)) :
    ReqOk max ((s.setOpn d { s.opn d with sem := some n }).setPc t (.clear d)) := by
  obtain ⟨-, k, m, htally, -, hm, hzero⟩ := ok.stage_of (d := d) ht rfl
  rw [hsem] at hm
  obtain rfl := Option.some.inj hm
  have hk := hzero (Nat.succ_pos n)
  subst hk
  refine ok.closeOn (.clear d) (closes_of ht rfl) (.inl rfl) ⟨rfl, rfl, rfl⟩ rfl ?_
  exact fun _ => Tally.zero.1 htally

theorem abortClear (ok : ReqOk max s) (ht : s.pc t = .clear d) :
    ReqOk max ((s.setOpn d { s.opn d with abortTskid := none }).setPc t (.rest d)) :=
  ok.closeOn (.rest d) (closes_of ht rfl) (.inl rfl) ⟨rfl, rfl, rfl⟩ rfl (ok.stage_of (d := d) ht)

theorem abortNext (ok : ReqOk max s) (ht : s.pc t = .rest d) : ReqOk max (s.abortNext t d) := by
  have hst := ok.stage_of (d := d) ht
  have hcl : (s.pc t).closes d := closes_of ht rfl
  unfold ReqSys.abortNext
  split
  · exact ok.closeMove (.done d) hcl (.inl rfl) hst
  · rename_i i l hq
    have hi : i ∈ (s.opn d).requestq := by
      rw [hq]
      exact List.mem_cons_self
    let new : ReqCb := { s.reqcb i with abort := true }
    have hself : Function.update s.reqcb i new i = new := Function.update_self _ _ _
    have hother : ∀ j, j ≠ i → Function.update s.reqcb i new j = s.reqcb j :=
      fun j hj => Function.update_of_ne hj _ _
    have hfields : ∀ j, (Function.update s.reqcb i new j).opncb = (s.reqcb j).opncb ∧
        (Function.update s.reqcb i new j).tskid = (s.reqcb j).tskid ∧
        (Function.update s.reqcb i new j).next = (s.reqcb j).next := by
      intro j
      by_cases hj : j = i
      · subst hj
        rw [hself]
        exact ⟨rfl, rfl, rfl⟩
      · rw [hother j hj]
        exact ⟨rfl, rfl, rfl⟩
    have hnext : ReqOk max (((s.setReq i new).setOpn d (s.opn d)).setPc t (.aborted d i)) := by
      refine ok.close (.aborted d i) (.inl hcl) (.inl rfl) ⟨rfl, rfl, rfl⟩
        ((ok.desc d).closer.closed t hcl) ?_ ?_ ?_ ?_
      · exact fun j => (hfields j).1
      · intro j hj
        apply hother j
        rintro rfl
        exact hj hi
      · exact fun j _ => (hfields j).2
      · exact fun _ => ⟨hst rfl, hi⟩
    have heq : (s.setReq i new).setOpn d (s.opn d) = s.setReq i new :=
      setOpn_self (s := s.setReq i new)
    rwa [heq] at hnext

theorem setPc_setPc {w : ReqPc} : (s.setPc t v).setPc t w = s.setPc t w := by
  show ({ s with pc := Function.update (Function.update s.pc t v) t w } : ReqSys) = _
  rw [Function.update_idem]
  rfl

theorem abortNext_setPc : (s.setPc t v).abortNext t d = s.abortNext t d := by
  unfold ReqSys.abortNext
  have hopn : (s.setPc t v).opn d = s.opn d := rfl
  rw [hopn]
  cases (s.opn d).requestq with
  | nil => exact setPc_setPc
  | cons i l => exact setPc_setPc (s := s.setReq i { s.reqcb i with abort := true })

/-- A remaining request is deleted, and the loop goes on. -/
theorem abortReturn (ok : ReqOk max s) (ht : s.pc t = .aborted d i) :
    ReqOk max ((s.knlDelReqCB i).abortNext t d) := by
  obtain ⟨hnone, hi⟩ := ok.stage_of (d := d) ht rfl
  have mid : ReqOk max (s.setPc t (.rest d)) :=
    ok.closeMove (.rest d) (closes_of ht rfl) (.inl rfl) fun _ => hnone
  have hunused : (s.reqcb i).tskid = none := (ok.desc d).users.unused hnone hi
  have hpc : (s.setPc t (.rest d)).pc t = .rest d := Function.update_self _ _ _
  have hab : ∀ w, (s.setPc t (.rest d)).pc w ≠ .aborted d i := by
    intro w hw
    have hwt := (mid.desc d).closer.alone w t (closes_of hw rfl) (closes_of hpc rfl)
    subst hwt
    rw [hpc] at hw
    cases hw
  have hdel : ReqOk max ((s.setPc t (.rest d)).knlDelReqCB i) := mid.knlDelReqCB hi hunused hab
  have hnext : ReqOk max (((s.knlDelReqCB i).setPc t (.rest d)).abortNext t d) :=
    hdel.abortNext hpc
  rwa [abortNext_setPc] at hnext

theorem closeEnd (ok : ReqOk max s) (ht : s.pc t = .done d) :
    ReqOk max ((s.setOpn d { s.opn d with listed := false, sem := none }).setPc t .idle) :=
  ok.closeOn .idle (closes_of ht rfl) (.inr rfl) ⟨rfl, rfl, rfl⟩ rfl trivial

/-! ## Runs -/

theorem step (ok : ReqOk max s) (hu : Undisturbed s e) (hs : s.step max e = some u) :
    ReqOk max u := by
  cases e with
  | request t d read ignore =>
    simp only [ReqSys.step] at hs
    split at hs
    · rename_i ht
      obtain rfl := Option.some.inj hs
      exact ok.request ht
    · cases hs
  | execReturn t ercd =>
    simp only [ReqSys.step] at hs
    split at hs
    · rename_i d i ht
      obtain rfl := Option.some.inj hs
      exact ok.execReturn ht
    · cases hs
  | waiDev t d reqid =>
    simp only [ReqSys.step] at hs
    split at hs
    · rename_i ht
      obtain rfl := Option.some.inj hs
      unfold ReqSys.waiDev
      split
      · exact ok.returns ht
      · rename_i hcheck
        have hr := resid_of_check hcheck
        split
        · rename_i hid
          apply ok.waiAny ht hr
          exact fun hn hw => hu hid hr (Nat.eq_zero_of_not_pos hn) (Int.not_lt.1 hw)
        · exact ok.waiOne ht hr
    · cases hs
  | waitReturn t reqno walked =>
    simp only [ReqSys.step] at hs
    split at hs
    · rename_i d reqid h n ht
      split at hs
      · rename_i hwalk
        exact ok.waitReturn ht hwalk hs
      · cases hs
    · cases hs
  | tkClsDev t d =>
    simp only [ReqSys.step] at hs
    split at hs
    · rename_i ht
      split at hs
      · rename_i hr
        obtain rfl := Option.some.inj hs
        exact ok.closeBegin ht hr
      · obtain rfl := Option.some.inj hs
        exact ok.returns ht
    · cases hs
  | cleanup t d =>
    simp only [ReqSys.step] at hs
    split at hs
    · rename_i ht
      obtain rfl := Option.some.inj hs
      exact ok.closeBegin ht.1 hu
    · cases hs
  | abortBegin t =>
    simp only [ReqSys.step] at hs
    split at hs
    · rename_i d ht
      obtain rfl := Option.some.inj hs
      exact ok.abortBegin ht (hu d ht)
    · cases hs
  | abortCheck t =>
    simp only [ReqSys.step] at hs
    split at hs
    · rename_i d ht
      obtain rfl := Option.some.inj hs
      exact ok.abortCheck ht
    · cases hs
  | abortSem t =>
    simp only [ReqSys.step] at hs
    split at hs
    · rename_i d ht
      split at hs
      · cases hs
      · rename_i n hsem
        obtain rfl := Option.some.inj hs
        exact ok.abortSem ht hsem
      · rename_i hsem
        obtain ⟨-, k, m, -, -, hm, -⟩ := ok.stage_of (d := d) ht rfl
        rw [hsem] at hm
        cases hm
    · cases hs
  | abortClear t =>
    simp only [ReqSys.step] at hs
    split at hs
    · rename_i d ht
      obtain rfl := Option.some.inj hs
      exact ok.abortClear ht
    · cases hs
  | abortRest t =>
    simp only [ReqSys.step] at hs
    split at hs
    · rename_i d ht
      obtain rfl := Option.some.inj hs
      exact ok.abortNext ht
    · cases hs
  | abortReturn t =>
    simp only [ReqSys.step] at hs
    split at hs
    · rename_i d i ht
      obtain rfl := Option.some.inj hs
      exact ok.abortReturn ht
    · cases hs
  | closeEnd t =>
    simp only [ReqSys.step] at hs
    split at hs
    · rename_i d ht
      obtain rfl := Option.some.inj hs
      exact ok.closeEnd ht
    · cases hs

theorem of_reachable (reach : (requestMachine max).ReachableIf Undisturbed s) : ReqOk max s := by
  apply reach.invariant (ReqOk max)
  · rintro s ⟨reqcb, omode, rfl⟩
    exact start
  · exact fun s e u ok hu hs => ok.step hu hs

end ReqOk

namespace ReqSys

variable {s : ReqSys}

theorem requests_accounted (max : Nat) (s : ReqSys)
    (reach : (requestMachine max).ReachableIf Undisturbed s) : RequestsRight max s :=
  (ReqOk.of_reachable reach).right

/-- The close of a descriptor waits for a call of execfn and for one of waitfn. -/
theorem requests_accounted_close : ∃ s : ReqSys, s.pc 3 = .clear 0 ∧ RequestsRight 2 s := by
  let ok : ReqSys → ReqEvent → Bool
    | _, .waiDev _ _ reqid => reqid ≠ 0
    | s, .abortBegin t => s.pc t = .abort 0 ∧ (s.opn 0).nwaireq = 0
    | s, .cleanup _ d => (s.opn d).resid
    | _, _ => true
  let reqcb : Nat → ReqCb := fun _ => ⟨none, none, none, false⟩
  have sound : ∀ s e, ok s e = true → Undisturbed s e := by
    intro s e h
    cases e with
    | waiDev t d reqid => exact fun h0 => absurd h0 (of_decide_eq_true h)
    | abortBegin t =>
      obtain ⟨hpc, hn⟩ := of_decide_eq_true h
      intro d hd hpos
      rw [hpc] at hd
      obtain rfl : 0 = d := ReqPc.abort.inj hd
      omega
    | cleanup t d => exact h
    | _ => trivial
  obtain ⟨s, reach, hp⟩ := Lts.reachable_of_exec (L := requestMachine 2)
    (p := fun s => s.pc 3 = .clear 0) (s := .boot 2 reqcb fun _ => TD_UPDATE) sound
    [.request 1 0 true false, .execReturn 1 0, .waiDev 2 0 1, .request 1 0 false false,
      .tkClsDev 3 0, .abortBegin 3, .abortCheck 3, .waitReturn 2 0 [0], .execReturn 1 (-1),
      .abortSem 3] ⟨reqcb, _, rfl⟩ (by decide)
  exact ⟨s, of_decide_eq_true hp, requests_accounted 2 s reach⟩

/-- A block is put back twice when its request is waited for, among all, while still in execfn; an
abort goes on while waitfn is in progress for all requests but the one that execfn has returned
from; and two closes of a descriptor both delete a remaining request. -/
theorem requests_unaccounted :
    (∃ s, (requestMachine 2).Reachable s ∧ ¬ RequestsRight 2 s ∧ s.freed 0 = s.taken 0 + 1) ∧
    (∃ s, (requestMachine 2).Reachable s ∧ ¬ RequestsRight 2 s ∧
      (s.pc 4).past 0 ∧ (s.pc 2).inCall 0) ∧
    ∃ s, (requestMachine 2).Reachable s ∧ ¬ RequestsRight 2 s ∧ s.freed 0 = s.taken 0 + 1 := by
  let reqcb : Nat → ReqCb := fun _ => ⟨none, none, none, false⟩
  have start : (requestMachine 2).init (.boot 2 reqcb fun _ => TD_UPDATE) := ⟨reqcb, _, rfl⟩
  have twice : ∀ s : ReqSys, s.freed 0 = s.taken 0 + 1 → ¬ RequestsRight 2 s := by
    intro s hs hright
    have hret := hright.returned 0 (by decide)
    omega
  refine ⟨?_, ?_, ?_⟩
  · obtain ⟨s, reach, hp⟩ := Lts.reachable_of_trace
      (p := fun s => s.freed 0 = s.taken 0 + 1)
      [.request 1 0 true false, .waiDev 2 0 0, .execReturn 1 (-1), .waitReturn 2 0 [0]] start
      (by decide)
    have hfreed := of_decide_eq_true hp
    exact ⟨s, reach, twice s hfreed, hfreed⟩
  · let p : ReqSys → Bool := fun s => s.pc 4 = .clear 0 ∧ s.pc 2 = .wait 0 none 0 1
    obtain ⟨s, reach, hp⟩ := Lts.reachable_of_trace (p := p)
      [.request 1 0 true false, .execReturn 1 0, .waiDev 2 0 0, .request 3 0 true false,
        .tkClsDev 4 0, .abortBegin 4, .execReturn 3 0, .abortCheck 4] start (by decide)
    obtain ⟨hpast, hcall⟩ := of_decide_eq_true hp
    have hpast' : (s.pc 4).past 0 := by
      rw [hpast]
      exact rfl
    have hcall' : (s.pc 2).inCall 0 := by
      rw [hcall]
      exact rfl
    exact ⟨s, reach, fun hright => hright.waited 0 4 2 hpast' hcall', hpast', hcall'⟩
  · obtain ⟨s, reach, hp⟩ := Lts.reachable_of_trace
      (p := fun s => s.freed 0 = s.taken 0 + 1)
      [.request 1 0 true false, .execReturn 1 0, .tkClsDev 4 0, .abortBegin 4, .abortCheck 4,
        .abortClear 4, .abortRest 4, .cleanup 5 0, .abortBegin 5, .abortCheck 5, .abortClear 5,
        .abortRest 5, .abortReturn 4, .abortReturn 5] start (by decide)
    have hfreed := of_decide_eq_true hp
    exact ⟨s, reach, twice s hfreed, hfreed⟩

end ReqSys

end Mtk3Smp
