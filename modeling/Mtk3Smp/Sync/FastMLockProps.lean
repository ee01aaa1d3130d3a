import Mtk3Smp.Sync.FastMLock

/-!
# Fast multi-locks: the invariant

What holds of the locks as long as INC, DEC, BTS and BR are operated exclusively.
-/

namespace Mtk3Smp

open Gcb Census

/-! ## Lock bits -/

section

variable {v w : BitVec 32} {no n : Fin 32}

theorem bit_eq (no : Fin 32) : bit no = BitVec.twoPow 32 no.val :=
  (BitVec.twoPow_eq 32 no.val).symm

theorem getLsbD_bit (no n : Fin 32) : (bit no).getLsbD n = decide (no = n) := by
  rw [bit_eq, BitVec.getLsbD_twoPow]
  simp [no.isLt, Fin.ext_iff]

theorem and_bit : v &&& bit no = 0 ↔ v.getLsbD no = false := by
  rw [bit_eq, BitVec.and_twoPow]
  cases h : v.getLsbD no with
  | false => simp
  | true =>
    have hne : ¬ BitVec.twoPow 32 no.val = 0 := by
      intro hz
      have := congrArg (fun x => BitVec.getLsbD x no.val) hz
      simp at this
    simpa using hne

theorem bit_ne_zero (no : Fin 32) : bit no ≠ 0 := by
  intro hz
  have hset := getLsbD_bit no no
  rw [hz] at hset
  simp at hset

theorem and_bit_ne : v &&& bit no ≠ 0 ↔ v.getLsbD no = true := by
  rw [Ne, and_bit, Bool.not_eq_false]

theorem getLsbD_set : (v ||| bit no).getLsbD n = (v.getLsbD n || decide (no = n)) := by
  rw [BitVec.getLsbD_or, getLsbD_bit]

theorem getLsbD_clear : (v &&& ~~~bit no).getLsbD n = (v.getLsbD n && !decide (no = n)) := by
  rw [BitVec.getLsbD_and, BitVec.getLsbD_not, getLsbD_bit, decide_eq_true n.isLt, Bool.true_and]

/-- A bit that is set is set again. -/
theorem or_bit (h : v.getLsbD no = true) : v ||| bit no = v := by
  apply BitVec.eq_of_getLsbD_eq
  intro i hi
  rw [BitVec.getLsbD_or]
  have hbit := getLsbD_bit no ⟨i, hi⟩
  dsimp only at hbit
  rw [hbit]
  by_cases he : no = ⟨i, hi⟩
  · have : v.getLsbD i = true := by rw [he] at h; exact h
    simp [this]
  · simp [he]

end

/-! ## The calls of the event flag -/

theorem returned_blocked {no : Fin 32} {tmo : Tmo} {e : ER} (h : e ≠ .E_OK) :
    (MlPc.blocked no tmo).returned e = .load (.dec no e) := if_neg h

theorem returned_returned (e : ER) (p : MlPc) : (p.returned e).returned e = p.returned e := by
  cases p with
  | blocked no tmo =>
    by_cases h : e = .E_OK
    · subst h
      rfl
    · rw [returned_blocked h]
      rfl
  | _ => rfl

/-- All of the calls have returned the same. -/
theorem returnAll_eq {ret : List (Tid × ER × Option (BitVec 32))} {e : ER}
    (h : ∀ r ∈ ret, r.2.1 = e) (pc : Tid → MlPc) (u : Tid) :
    returnAll pc ret u = if u ∈ ret.map (·.1) then (pc u).returned e else pc u := by
  induction ret generalizing pc with
  | nil => rfl
  | cons r rest ih =>
    obtain ⟨hr, hrest⟩ := List.forall_mem_cons.1 h
    show returnAll (Function.update pc r.1 ((pc r.1).returned r.2.1)) rest u = _
    rw [ih hrest, hr]
    by_cases hu : u = r.1
    · subst hu
      rw [Function.update_self, returned_returned, ite_self, if_pos (by simp)]
    · rw [Function.update_of_ne hu]
      have hmem : u ∈ (r :: rest).map (·.1) ↔ u ∈ rest.map (·.1) := by
        rw [List.map_cons, List.mem_cons, or_iff_right hu]
      simp only [hmem]

section

variable {s s' : MlSys} {t u : Tid} {no n : Fin 32} {tmo : Tmo}

theorem call_eq {e : FlgEvent} (h : s.call e = some s') :
    ∃ id, FlgSys.step mlFlg s.id e = some id ∧ s.called id = s' := by
  unfold MlSys.call at h
  exact Option.map_eq_some_iff.1 h

/-- `knl_eventflag_cond` for TWF_ORW and a single bit. -/
theorem cond_bit {p : BitVec 32} :
    knlEventflagCond p (bit no) (TWF_ORW ||| TWF_BITCLR) = true ↔ p.getLsbD no = true := by
  unfold knlEventflagCond
  rw [if_pos (by decide), decide_eq_true_iff]
  exact and_bit_ne

theorem mode_bitclr : (TWF_ORW ||| TWF_BITCLR) &&& TWF_BITCLR ≠ 0 := by decide

theorem mode_clr : ¬ (TWF_ORW ||| TWF_BITCLR) &&& TWF_CLR ≠ 0 := by decide

/-- What a waiting task has given. -/
def mlWinfo (no : Fin 32) : FlgWinfo := ⟨bit no, TWF_ORW ||| TWF_BITCLR, bit_ne_zero no⟩

theorem mlWinfo_cond {p : BitVec 32} : (mlWinfo no).cond p = p.getLsbD no := by
  rw [Bool.eq_iff_iff]
  exact cond_bit

theorem mlWinfo_clear {p : BitVec 32} : (mlWinfo no).clear p = p &&& ~~~bit no := by
  unfold FlgWinfo.clear mlWinfo
  dsimp only
  rw [if_pos mode_bitclr, if_neg mode_clr]

/-- A call of tk_wai_flg returns with the bit, fails, or waits. -/
theorem tkWaiFlg_cases {id : FlgSys} (t : Tid) (no : Fin 32) (tmo : Tmo) (ddsp : Bool)
    (hex : id.exists_ = true) :
    (∃ e, e ≠ .E_OK ∧
        id.tkWaiFlg mlFlg t ddsp (bit no) (TWF_ORW ||| TWF_BITCLR) tmo = id.retd t e none) ∨
      id.flgptn.getLsbD no = true ∧
        id.tkWaiFlg mlFlg t ddsp (bit no) (TWF_ORW ||| TWF_BITCLR) tmo =
          { id with flgptn := id.flgptn &&& ~~~bit no }.retd t .E_OK (some id.flgptn) ∨
      id.flgptn.getLsbD no = false ∧
        id.tkWaiFlg mlFlg t ddsp (bit no) (TWF_ORW ||| TWF_BITCLR) tmo =
          { id with
            waitQueue := knlGcbMakeWait true id.priority ⟨t, tmo, mlWinfo no⟩ id.waitQueue } := by
  unfold FlgSys.tkWaiFlg
  rw [dif_neg (bit_ne_zero no), if_neg (by decide)]
  cases ddsp with
  | true => exact Or.inl ⟨.E_CTX, by decide, rfl⟩
  | false =>
    rw [if_neg Bool.false_ne_true, if_neg (by simp [hex]), if_neg (by simp [mlFlg])]
    by_cases hbit : id.flgptn.getLsbD no = true
    · rw [if_pos (cond_bit.2 hbit)]
      refine Or.inr (Or.inl ⟨hbit, ?_⟩)
      dsimp only
      rw [if_pos mode_bitclr, if_neg mode_clr]
    · rw [if_neg fun hc => hbit (cond_bit.1 hc)]
      by_cases hpol : tmo = .TMO_POL
      · rw [if_pos hpol]
        exact Or.inl ⟨.E_TMOUT, by decide, rfl⟩
      · rw [if_neg hpol]
        exact Or.inr (Or.inr ⟨Bool.eq_false_of_not_eq_true hbit, rfl⟩)

/-- A task leaves tk_wai_flg while the others stay where they are. -/
theorem called_retd (id : FlgSys) {e : ER} {p : Option (BitVec 32)} (hret : id.ret = []) :
    s.called (id.retd t e p) =
      { s with id := id, pc := Function.update s.pc t ((s.pc t).returned e) } := by
  have hid : { id.retd t e p with ret := [] } = id := by
    unfold FlgSys.retd
    cases id
    cases hret
    rfl
  have hall : returnAll s.pc (id.retd t e p).ret =
      Function.update s.pc t ((s.pc t).returned e) := by
    unfold FlgSys.retd
    rw [hret]
    rfl
  unfold MlSys.called
  rw [hid, hall]

/-- No task leaves it. -/
theorem called_of_nil (id : FlgSys) (hret : id.ret = []) : s.called id = { s with id := id } := by
  unfold MlSys.called
  cases id
  cases hret
  rfl

theorem go_waiFlg {c : Core} {ddsp : Bool} (hex : s.id.exists_ = true) (hret : s.id.ret = [])
    (hp : s.pc t = .waiFlg no tmo) (hs : s.go c t ddsp = some s') :
    (∃ e, e ≠ .E_OK ∧ s' = s.goto t (.load (.dec no e))) ∨
      s.id.flgptn.getLsbD no = true ∧
        s' = { s with id := { s.id with flgptn := s.id.flgptn &&& ~~~bit no } }.goto t
          (.load (.bts no tmo)) ∨
      s.id.flgptn.getLsbD no = false ∧ waiting t s.id.waitQueue = false ∧
        s' = { s with id := { s.id with
          waitQueue := knlGcbMakeWait true s.id.priority ⟨t, tmo, mlWinfo no⟩ s.id.waitQueue
          } }.goto t (.blocked no tmo) := by
  simp only [MlSys.go, hp, Option.ite_none_right_eq_some] at hs
  obtain ⟨-, hs⟩ := hs
  obtain ⟨id, hid, rfl⟩ := call_eq hs
  simp only [FlgSys.step, Option.ite_none_left_eq_some, Bool.not_eq_true] at hid
  obtain ⟨hw, hid⟩ := hid
  obtain rfl := Option.some.inj hid
  have hw : waiting t s.id.waitQueue = false := hw
  have hpc : ∀ e, Function.update (s.goto t (.blocked no tmo)).pc t
      (((s.goto t (.blocked no tmo)).pc t).returned e) =
        Function.update s.pc t ((MlPc.blocked no tmo).returned e) := by
    intro e
    show Function.update (Function.update s.pc t (.blocked no tmo)) t
      ((Function.update s.pc t (.blocked no tmo) t).returned e) = _
    rw [Function.update_self, Function.update_idem]
  rcases tkWaiFlg_cases t no tmo ddsp hex with ⟨e, he, hid⟩ | ⟨hbit, hid⟩ | ⟨hbit, hid⟩
  · refine Or.inl ⟨e, he, ?_⟩
    show (s.goto t (.blocked no tmo)).called (s.id.tkWaiFlg ..) = _
    rw [hid, called_retd s.id hret, hpc, returned_blocked he]
    rfl
  · refine Or.inr (Or.inl ⟨hbit, ?_⟩)
    show (s.goto t (.blocked no tmo)).called (s.id.tkWaiFlg ..) = _
    rw [hid, called_retd { s.id with flgptn := s.id.flgptn &&& ~~~bit no } hret, hpc]
    rfl
  · refine Or.inr (Or.inr ⟨hbit, hw, ?_⟩)
    show (s.goto t (.blocked no tmo)).called (s.id.tkWaiFlg ..) = _
    rw [hid]
    exact called_of_nil { s.id with
      waitQueue := knlGcbMakeWait true s.id.priority ⟨t, tmo, mlWinfo no⟩ s.id.waitQueue } hret

/-- tk_set_flg lets all of the tasks that it releases go on. -/
theorem go_setFlg {c : Core} {ddsp : Bool} (hex : s.id.exists_ = true) (hret : s.id.ret = [])
    (hp : s.pc t = .setFlg no) (hs : s.go c t ddsp = some s') :
    ∃ g, g = fullScan s.id.waitQueue (s.id.flgptn ||| bit no) ∧
      s' = { s with
        id := { s.id with flgptn := g.flgptn, waitQueue := g.waitQueue }
        pc := fun u =>
          if u ∈ g.released.map (·.1.tsk) then (Function.update s.pc t .out u).returned .E_OK
          else Function.update s.pc t .out u } := by
  simp only [MlSys.go, hp, Option.ite_none_right_eq_some] at hs
  obtain ⟨-, hs⟩ := hs
  obtain ⟨id, hid, rfl⟩ := call_eq hs
  obtain rfl := Option.some.inj hid
  refine ⟨_, rfl, ?_⟩
  show (s.goto t .out).called (s.id.tkSetFlg (bit no)).1 = _
  rw [tkSetFlg_eq_fullScan _ _ hex]
  unfold MlSys.called FlgSys.granted
  dsimp only
  rw [hret, List.nil_append]
  congr 1
  funext u
  rw [returnAll_eq (e := .E_OK) fun r hr => ?_, List.map_map]
  · rfl
  · obtain ⟨x, -, rfl⟩ := List.mem_map.1 hr
    rfl

/-- Every waiting task and every bit: it is left in the pattern, or a task has got it. -/
theorem fullScan_bit {q : List (Waiter FlgWinfo)} {p : BitVec 32}
    (hq : ∀ x ∈ q, ∃ no, x.winfo = mlWinfo no) (hn : p.getLsbD n = true) :
    (fullScan q p).flgptn.getLsbD n = true ∨
      ∃ x ∈ (fullScan q p).released, x.1.winfo = mlWinfo n := by
  induction q generalizing p with
  | nil => exact Or.inl hn
  | cons y queue ih =>
    obtain ⟨⟨no, hy⟩, hrest⟩ := List.forall_mem_cons.1 hq
    unfold fullScan
    by_cases hc : y.winfo.cond p = true
    · rw [if_pos hc]
      dsimp only
      by_cases he : no = n
      · subst he
        exact Or.inr ⟨(y, p), List.mem_cons_self, hy⟩
      · have hleft : (y.winfo.clear p).getLsbD n = true := by
          rw [hy, mlWinfo_clear, getLsbD_clear, hn]
          simp [he]
        rcases ih hrest hleft with h | ⟨x, hx, hw⟩
        · exact Or.inl h
        · exact Or.inr ⟨x, List.mem_cons_of_mem _ hx, hw⟩
    · rw [if_neg hc]
      exact ih hrest hn

theorem fullScan_perm (q : List (Waiter FlgWinfo)) (p : BitVec 32) :
    ((fullScan q p).released.map (·.1) ++ (fullScan q p).waitQueue).Perm q := by
  induction q generalizing p with
  | nil => exact List.Perm.refl _
  | cons y queue ih =>
    unfold fullScan
    split
    · exact (ih _).cons y
    · exact List.perm_middle.trans ((ih p).cons y)

theorem waiting_of_timed {q : List (Waiter FlgWinfo)} (h : timed t q = true) :
    waiting t q = true := by
  obtain ⟨x, hx, he⟩ := List.any_eq_true.1 h
  exact List.any_eq_true.2 ⟨x, hx, (Bool.and_eq_true_iff.1 he).1⟩

/-- A waiting task is released with an error. -/
theorem called_endWait {e : ER} (hret : s.id.ret = []) :
    s.called (s.id.endWait t (some e)) =
      { s with
        id := { s.id with waitQueue := queRemove t s.id.waitQueue }
        pc := Function.update s.pc t ((s.pc t).returned e) } :=
  called_retd { s.id with waitQueue := queRemove t s.id.waitQueue } hret

end

/-! ## The invariant -/

namespace MlPc

/-- The task has one of the locks, or is about to reset its bit. -/
def owns : MlPc → Option (Fin 32)
  | .load (.dec no .E_OK) | .store (.dec no .E_OK) _ | .load (.br no) | .store (.br no) _ => some no
  | _ => none

/-- The call of the task is MLockTmo, which has not got the lock. -/
def clean : MlPc → Bool
  | .load (.inc ..) | .store (.inc ..) _ => true
  | p => p.seeks.isSome || p.failing

end MlPc

/-- The tasks in the queue of the event flag are those that are stopped in tk_wai_flg. -/
structure MlQueue (id : FlgSys) (pc : Tid → MlPc) : Prop where
  exists_ : id.exists_ = true
  ret : id.ret = []
  unsat : id.Unsatisfied
  queue : ∀ x ∈ id.waitQueue, ∃ no tmo, x.winfo = mlWinfo no ∧ pc x.tsk = .blocked no tmo
  queued : ∀ t no tmo, pc t = .blocked no tmo → waiting t id.waitQueue = true
  nodup : (id.waitQueue.map (·.tsk)).Nodup

/-- What a sequence has loaded is still there. -/
structure MlSeq (val : MlWord → BitVec 32) (di : Core → Option Tid) (pc : Tid → MlPc) : Prop where
  masks : ∀ c t, di c = some t → ∃ op, pc t = .store op (val op.word)
  seqs : ∀ t op v, pc t = .store op v → ∃ c, di c = some t
  cores : ∀ c d t, di c = some t → di d = some t → c = d

def MlOwns (held : Tid → Fin 32 → Bool) (pc : Tid → MlPc) (no : Fin 32) (t : Tid) : Prop :=
  held t no = true ∨ (pc t).owns = some no

/-- The bits that are set are those of the locks that tasks have. -/
structure MlOwn (flg : BitVec 32) (held : Tid → Fin 32 → Bool) (pc : Tid → MlPc) : Prop where
  bits : ∀ no : Fin 32, flg.getLsbD no = true ↔ ∃ t, MlOwns held pc no t
  one : ∀ no t u, MlOwns held pc no t → MlOwns held pc no u → t = u
  once : ∀ no t, (pc t).owns = some no → held t no = false

structure MlCount (cfg : TskCfg) (wai : BitVec 32) (pc : Tid → MlPc) : Prop where
  outside : ∀ t, cfg.numTskid ≤ t → pc t = .out
  count : wai.toNat = census cfg.numTskid pc fun p => p.inside.isSome

/-- As long as a lock is free a task can go on to take it, or MUnlock has still to let one go on. -/
def MlWake (s : MlSys) : Prop :=
  ∀ no : Fin 32, s.flg.getLsbD no = false → (∃ t, (s.pc t).seeks = some no) →
    (∃ t, s.CanGo no t) ∨ ∃ t, (s.pc t).unlocking = some no

structure MlInv (cfg : TskCfg) (s : MlSys) : Prop where
  queue : MlQueue s.id s.pc
  seq : MlSeq s.val s.di s.pc
  own : MlOwn s.flg s.held s.pc
  count : MlCount cfg s.wai s.pc
  clean : ∀ t, (s.pc t).clean = true → s.touched t = false
  wake : MlWake s

/-! ### One task moves on -/

section

variable {id : FlgSys} {pc pc' : Tid → MlPc} {t u : Tid} {b : MlPc}

/-- What is the same of the task before and after the move is the same of all. -/
theorem update_congr {β : Type} {f : MlPc → β} (h : f b = f (pc t)) (u : Tid) :
    f (Function.update pc t b u) = f (pc u) := by
  by_cases hu : u = t
  · subst hu
    rw [Function.update_self, h]
  · rw [Function.update_of_ne hu]

theorem MlQueue.update (h : MlQueue id pc) (ha : ∀ no tmo, pc t ≠ .blocked no tmo)
    (hb : ∀ no tmo, b ≠ .blocked no tmo) : MlQueue id (Function.update pc t b) := by
  refine { h with queue := fun x hx => ?_, queued := fun u no tmo hu => ?_ }
  · obtain ⟨no, tmo, hw, hx⟩ := h.queue x hx
    have hne : x.tsk ≠ t := fun he => ha no tmo (he ▸ hx)
    exact ⟨no, tmo, hw, by rwa [Function.update_of_ne hne]⟩
  · by_cases he : u = t
    · subst he
      rw [Function.update_self] at hu
      exact absurd hu (hb no tmo)
    · rw [Function.update_of_ne he] at hu
      exact h.queued u no tmo hu

/-- A task takes bits of the pattern. -/
theorem MlQueue.take (h : MlQueue id pc) (m : BitVec 32) :
    MlQueue { id with flgptn := id.flgptn &&& m } pc :=
  { h with unsat := h.unsat.mono (fun _ hx => hx) (.and _ _) }

/-- A task is queued. -/
theorem MlQueue.wait (h : MlQueue id pc) {no : Fin 32} {tmo : Tmo} (hw : waiting t id.waitQueue = false)
    (hbit : id.flgptn.getLsbD no = false) :
    MlQueue { id with waitQueue := knlGcbMakeWait true id.priority ⟨t, tmo, mlWinfo no⟩ id.waitQueue }
      (Function.update pc t (.blocked no tmo)) := by
  have hne : ∀ x ∈ id.waitQueue, x.tsk ≠ t := fun x hx he => by
    have hin : waiting t id.waitQueue = true := List.any_eq_true.2 ⟨x, hx, beq_iff_eq.2 he⟩
    rw [hw] at hin
    cases hin
  have hperm : (knlGcbMakeWait true id.priority ⟨t, tmo, mlWinfo no⟩ id.waitQueue).Perm
    (⟨t, tmo, mlWinfo no⟩ :: id.waitQueue) := perm_makeWait _ _
  refine ⟨h.exists_, h.ret, fun x hx => ?_, fun x hx => ?_, fun u n tmo' hu => ?_, ?_⟩
  · rcases List.mem_cons.1 (hperm.mem_iff.1 hx) with rfl | hx
    · exact mlWinfo_cond.trans hbit
    · exact h.unsat x hx
  · rcases List.mem_cons.1 (hperm.mem_iff.1 hx) with rfl | hx
    · exact ⟨no, tmo, rfl, Function.update_self _ _ _⟩
    · obtain ⟨n, tmo', hwin, hp⟩ := h.queue x hx
      exact ⟨n, tmo', hwin, by rwa [Function.update_of_ne (hne x hx)]⟩
  · by_cases he : u = t
    · exact List.any_eq_true.2 ⟨_, hperm.mem_iff.2 List.mem_cons_self, beq_iff_eq.2 he.symm⟩
    · rw [Function.update_of_ne he] at hu
      obtain ⟨x, hx, hxu⟩ := List.any_eq_true.1 (h.queued u n tmo' hu)
      exact List.any_eq_true.2 ⟨x, hperm.mem_iff.2 (List.mem_cons_of_mem _ hx), hxu⟩
  · refine (hperm.map _).nodup_iff.2 (List.nodup_cons.2 ⟨fun hin => ?_, h.nodup⟩)
    obtain ⟨x, hx, he⟩ := List.mem_map.1 hin
    exact hne x hx he

/-- A task leaves the queue with an error. -/
theorem MlQueue.leave (h : MlQueue id pc) (hb : ∀ no tmo, b ≠ .blocked no tmo) :
    MlQueue { id with waitQueue := queRemove t id.waitQueue } (Function.update pc t b) := by
  have hmem : ∀ x, x ∈ queRemove t id.waitQueue ↔ x ∈ id.waitQueue ∧ x.tsk ≠ t :=
    fun x => mem_queRemove h.nodup
  refine ⟨h.exists_, h.ret, fun x hx => h.unsat x ((hmem x).1 hx).1, fun x hx => ?_,
    fun u n tmo hu => ?_, h.nodup.sublist (List.eraseP_sublist.map _)⟩
  · obtain ⟨hx, hne⟩ := (hmem x).1 hx
    obtain ⟨n, tmo, hw, hp⟩ := h.queue x hx
    exact ⟨n, tmo, hw, by rwa [Function.update_of_ne hne]⟩
  · by_cases he : u = t
    · subst he
      rw [Function.update_self] at hu
      exact absurd hu (hb n tmo)
    · rw [Function.update_of_ne he] at hu
      obtain ⟨x, hx, hxu⟩ := List.any_eq_true.1 (h.queued u n tmo hu)
      have hne : x.tsk ≠ t := fun hxt => he ((eq_of_beq hxu).symm.trans hxt)
      exact List.any_eq_true.2 ⟨x, (hmem x).2 ⟨hx, hne⟩, hxu⟩

/-- A change of priority at most reorders the queue. -/
theorem MlQueue.chgPri (h : MlQueue id pc) (t : Tid) (priority : Nat) :
    MlQueue (id.chgPri mlFlg t priority) pc := by
  have hperm : (Gcb.knlGcbChangePriority (Function.update id.priority t priority) t id.waitQueue).Perm
    id.waitQueue := perm_changePriority t id.waitQueue
  refine ⟨h.exists_, h.ret, h.unsat.chgPri t priority, fun x hx => h.queue x (hperm.mem_iff.1 hx),
    fun u n tmo hu => ?_, (hperm.map _).nodup_iff.2 h.nodup⟩
  obtain ⟨x, hx, hxu⟩ := List.any_eq_true.1 (h.queued u n tmo hu)
  exact List.any_eq_true.2 ⟨x, hperm.mem_iff.2 hx, hxu⟩

/-- tk_set_flg releases tasks. -/
theorem MlQueue.release (h : MlQueue id pc) (p : BitVec 32) :
    MlQueue { id with
        flgptn := (fullScan id.waitQueue p).flgptn
        waitQueue := (fullScan id.waitQueue p).waitQueue } fun u =>
      if u ∈ (fullScan id.waitQueue p).released.map (·.1.tsk) then (pc u).returned .E_OK
      else pc u := by
  have hperm := fullScan_perm id.waitQueue p
  have hnd := (hperm.map (·.tsk)).nodup_iff.2 h.nodup
  rw [List.map_append, List.map_map] at hnd
  obtain ⟨-, hnd, hdisj⟩ := List.nodup_append.1 hnd
  have hsub : ∀ x ∈ (fullScan id.waitQueue p).waitQueue, x ∈ id.waitQueue := fun x hx =>
    hperm.mem_iff.1 (List.mem_append_right _ hx)
  refine ⟨h.exists_, h.ret, (fullScan_leaves _ _).2, fun x hx => ?_, fun u n tmo hu => ?_, hnd⟩
  · obtain ⟨n, tmo, hw, hp⟩ := h.queue x (hsub x hx)
    have hout : x.tsk ∉ (fullScan id.waitQueue p).released.map (·.1.tsk) := fun hin =>
      hdisj _ hin _ (List.mem_map_of_mem hx) rfl
    exact ⟨n, tmo, hw, by rwa [if_neg hout]⟩
  · split at hu
    · exfalso
      revert hu
      cases pc u <;> simp [MlPc.returned]
    · rename_i hout
      obtain ⟨x, hx, hxu⟩ := List.any_eq_true.1 (h.queued u n tmo hu)
      refine List.any_eq_true.2 ⟨x, ?_, hxu⟩
      rcases List.mem_append.1 (hperm.mem_iff.2 hx) with hin | hin
      · refine absurd ?_ hout
        obtain ⟨y, hy, rfl⟩ := List.mem_map.1 hin
        exact List.mem_map.2 ⟨y, hy, eq_of_beq hxu⟩
      · exact hin

variable {val val' : MlWord → BitVec 32} {di : Core → Option Tid} {c : Core} {op : MlOp}
  {v : BitVec 32}

theorem MlSeq.congr (h : MlSeq val di pc)
    (hs : ∀ u op v, pc' u = .store op v ↔ pc u = .store op v) : MlSeq val di pc' := by
  refine ⟨fun c u hu => ?_, fun u op v hu => h.seqs u op v ((hs u op v).1 hu), h.cores⟩
  obtain ⟨op, hop⟩ := h.masks c u hu
  exact ⟨op, (hs u op _).2 hop⟩

theorem MlSeq.load (h : MlSeq val di pc) (hp : pc t = .load op) (hd : di c = none) :
    MlSeq val (Function.update di c (some t)) (Function.update pc t (.store op (val op.word))) := by
  have hfree : ∀ d, di d ≠ some t := by
    intro d hdt
    obtain ⟨op', hop⟩ := h.masks d t hdt
    rw [hp] at hop
    cases hop
  refine ⟨fun d u hu => ?_, fun u op' v' hu => ?_, fun d d' u hu hu' => ?_⟩
  · by_cases hdc : d = c
    · rw [hdc, Function.update_self] at hu
      obtain rfl : t = u := Option.some.inj hu
      exact ⟨op, Function.update_self _ _ _⟩
    · rw [Function.update_of_ne hdc] at hu
      have hut : u ≠ t := fun he => hfree d (he ▸ hu)
      rw [Function.update_of_ne hut]
      exact h.masks d u hu
  · by_cases hut : u = t
    · exact ⟨c, by rw [hut, Function.update_self]⟩
    · rw [Function.update_of_ne hut] at hu
      obtain ⟨d, hdu⟩ := h.seqs u op' v' hu
      have hdc : d ≠ c := fun he => by
        rw [he, hd] at hdu
        cases hdu
      exact ⟨d, by rw [Function.update_of_ne hdc, hdu]⟩
  · by_cases hdc : d = c
    · by_cases hdc' : d' = c
      · rw [hdc, hdc']
      · rw [hdc, Function.update_self] at hu
        rw [Function.update_of_ne hdc', ← hu] at hu'
        exact absurd hu' (hfree d')
    · rw [Function.update_of_ne hdc] at hu
      by_cases hdc' : d' = c
      · rw [hdc', Function.update_self] at hu'
        rw [← hu'] at hu
        exact absurd hu (hfree d)
      · rw [Function.update_of_ne hdc'] at hu'
        exact h.cores d d' u hu hu'

/-- A store that changes its word finds no other sequence on it. -/
theorem MlSeq.store (h : MlSeq val di pc) (hd : di c = some t) (hb : ∀ op v, b ≠ .store op v)
    (hval : ∀ w, w ≠ op.word → val' w = val w)
    (hex : val' op.word = val op.word ∨
      ∀ u op' v', di c.other = some u → pc u = .store op' v' → op'.word ≠ op.word) :
    MlSeq val' (Function.update di c none) (Function.update pc t b) := by
  refine ⟨fun d u hu => ?_, fun u op' v' hu => ?_, fun d d' u hu hu' => ?_⟩
  · have hdc : d ≠ c := fun he => by
      rw [he, Function.update_self] at hu
      cases hu
    rw [Function.update_of_ne hdc] at hu
    have hut : u ≠ t := fun he => hdc (h.cores d c t (he ▸ hu) hd)
    rw [Function.update_of_ne hut]
    obtain ⟨op', hop⟩ := h.masks d u hu
    refine ⟨op', ?_⟩
    have hsame : val' op'.word = val op'.word := by
      by_cases hw : op'.word = op.word
      · rcases hex with hex | hex
        · rw [hw, hex]
        · exact absurd hw (hex u op' _ (Core.eq_other hdc ▸ hu) hop)
      · exact hval _ hw
    rw [hsame, hop]
  · have hut : u ≠ t := fun he => by
      rw [he, Function.update_self] at hu
      exact hb op' v' hu
    rw [Function.update_of_ne hut] at hu
    obtain ⟨d, hdu⟩ := h.seqs u op' v' hu
    have hdc : d ≠ c := fun he => by
      rw [he, hd] at hdu
      exact hut (Option.some.inj hdu).symm
    exact ⟨d, by rw [Function.update_of_ne hdc, hdu]⟩
  · have hdc : ∀ e, Function.update di c none e = some u → di e = some u := fun e he => by
      by_cases hec : e = c
      · rw [hec, Function.update_self] at he
        cases he
      · rwa [Function.update_of_ne hec] at he
    exact h.cores d d' u (hdc d hu) (hdc d' hu')

variable {flg flg' : BitVec 32} {held held' : Tid → Fin 32 → Bool} {no : Fin 32}

theorem MlSeq.update (h : MlSeq val di pc) (ha : ∀ op v, pc t ≠ .store op v)
    (hb : ∀ op v, b ≠ .store op v) : MlSeq val di (Function.update pc t b) := by
  refine h.congr fun u op v => ?_
  by_cases hut : u = t
  · subst hut
    rw [Function.update_self]
    exact ⟨fun he => absurd he (hb op v), fun he => absurd he (ha op v)⟩
  · rw [Function.update_of_ne hut]

theorem MlOwn.of_iff (h : MlOwn flg held pc)
    (hiff : ∀ n u, MlOwns held' pc' n u ↔ MlOwns held pc n u)
    (once : ∀ n u, (pc' u).owns = some n → held' u n = false) : MlOwn flg held' pc' := by
  refine ⟨fun n => ?_, fun n u w hu hw => h.one n u w ((hiff n u).1 hu) ((hiff n w).1 hw), once⟩
  rw [h.bits n]
  exact exists_congr fun u => (hiff n u).symm

theorem MlOwn.congr (h : MlOwn flg held pc) (ho : ∀ u, (pc' u).owns = (pc u).owns) :
    MlOwn flg held pc' := by
  refine h.of_iff (fun n u => ?_) fun n u hu => h.once n u ((ho u).symm.trans hu)
  unfold MlOwns
  rw [ho]

theorem MlOwn.update (h : MlOwn flg held pc) (ho : b.owns = (pc t).owns) :
    MlOwn flg held (Function.update pc t b) := h.congr (update_congr ho)

/-- MUnlock is called. -/
theorem MlOwn.unlock (h : MlOwn flg held pc) (hp : pc t = .out) (hheld : held t no = true) :
    MlOwn flg (Function.update held t (Function.update (held t) no false))
      (Function.update pc t (.load (.br no))) := by
  refine h.of_iff (fun n u => ?_) fun n u hu => ?_
  · unfold MlOwns
    by_cases hut : u = t
    · subst hut
      rw [Function.update_self, Function.update_self, hp]
      by_cases hn : n = no
      · subst hn
        simp [MlPc.owns, hheld]
      · rw [Function.update_of_ne hn]
        simp [MlPc.owns, Ne.symm hn]
    · rw [Function.update_of_ne hut, Function.update_of_ne hut]
  · by_cases hut : u = t
    · subst hut
      rw [Function.update_self] at hu ⊢
      obtain rfl : no = n := Option.some.inj hu
      exact Function.update_self _ _ _
    · rw [Function.update_of_ne hut] at hu ⊢
      exact h.once n u hu

/-- MLockTmo returns E_OK. -/
theorem MlOwn.locked (h : MlOwn flg held pc) (hp : (pc t).owns = some no) :
    MlOwn flg (Function.update held t (Function.update (held t) no true))
      (Function.update pc t .out) := by
  refine h.of_iff (fun n u => ?_) fun n u hu => ?_
  · unfold MlOwns
    by_cases hut : u = t
    · subst hut
      rw [Function.update_self, Function.update_self, hp]
      by_cases hn : n = no
      · subst hn
        simp
      · rw [Function.update_of_ne hn]
        simp [MlPc.owns, Ne.symm hn]
    · rw [Function.update_of_ne hut, Function.update_of_ne hut]
  · by_cases hut : u = t
    · subst hut
      rw [Function.update_self] at hu
      cases hu
    · rw [Function.update_of_ne hut] at hu ⊢
      exact h.once n u hu

theorem MlOwns.update (hut : u ≠ t) (n : Fin 32) :
    MlOwns held (Function.update pc t b) n u ↔ MlOwns held pc n u := by
  unfold MlOwns
  rw [Function.update_of_ne hut]

/-- A task that moves on has for all but one number what it had. -/
theorem MlOwns.update_of_ne {n : Fin 32} (ha : (pc t).owns ≠ some n) (hb : b.owns ≠ some n) :
    MlOwns held (Function.update pc t b) n u ↔ MlOwns held pc n u := by
  by_cases hut : u = t
  · subst hut
    unfold MlOwns
    rw [Function.update_self]
    simp [ha, hb]
  · exact MlOwns.update hut n

/-- BTS has found the bit clear. -/
theorem MlOwn.set (h : MlOwn flg held pc) (hp : (pc t).owns = none) (hb : b.owns = some no)
    (hclear : flg.getLsbD no = false) :
    MlOwn (flg ||| bit no) held (Function.update pc t b) := by
  have hnone : ∀ u, ¬ MlOwns held pc no u := fun u hu => by
    rw [(h.bits no).2 ⟨u, hu⟩] at hclear
    cases hclear
  have hother : ∀ n u, n ≠ no → (MlOwns held (Function.update pc t b) n u ↔ MlOwns held pc n u) :=
    fun n u hn => MlOwns.update_of_ne (by simp [hp]) (by rw [hb]; simpa using Ne.symm hn)
  have hself : ∀ u, MlOwns held (Function.update pc t b) no u → u = t := fun u hu => by
    by_contra hut
    exact hnone u ((MlOwns.update hut no).1 hu)
  refine ⟨fun n => ?_, fun n u w hu hw => ?_, fun n u hu => ?_⟩
  · rw [getLsbD_set]
    by_cases hn : n = no
    · subst hn
      have hown : MlOwns held (Function.update pc t b) n t := by
        right
        rw [Function.update_self, hb]
      simp only [decide_true, Bool.or_true, true_iff]
      exact ⟨t, hown⟩
    · rw [decide_eq_false (Ne.symm hn), Bool.or_false, h.bits n]
      exact exists_congr fun u => (hother n u hn).symm
  · by_cases hn : n = no
    · subst hn
      rw [hself u hu, hself w hw]
    · exact h.one n u w ((hother n u hn).1 hu) ((hother n w hn).1 hw)
  · by_cases hut : u = t
    · subst hut
      rw [Function.update_self, hb] at hu
      obtain rfl : no = n := Option.some.inj hu
      by_contra hheld
      exact hnone u (Or.inl (by simpa using hheld))
    · rw [Function.update_of_ne hut] at hu
      exact h.once n u hu

/-- BR. -/
theorem MlOwn.reset (h : MlOwn flg held pc) (hp : (pc t).owns = some no) (hb : b.owns = none) :
    MlOwn (flg &&& ~~~bit no) held (Function.update pc t b) := by
  have hother : ∀ n u, n ≠ no → (MlOwns held (Function.update pc t b) n u ↔ MlOwns held pc n u) :=
    fun n u hn => MlOwns.update_of_ne (by rw [hp]; simpa using Ne.symm hn) (by simp [hb])
  have hnone : ∀ u, ¬ MlOwns held (Function.update pc t b) no u := fun u hu => by
    by_cases hut : u = t
    · subst hut
      rcases hu with hheld | howns
      · rw [h.once no u hp] at hheld
        cases hheld
      · rw [Function.update_self, hb] at howns
        cases howns
    · exact hut (h.one no u t ((MlOwns.update hut no).1 hu) (Or.inr hp))
  refine ⟨fun n => ?_, fun n u w hu hw => ?_, fun n u hu => ?_⟩
  · rw [getLsbD_clear]
    by_cases hn : n = no
    · subst hn
      simpa using hnone
    · rw [decide_eq_false (Ne.symm hn), Bool.not_false, Bool.and_true, h.bits n]
      exact exists_congr fun u => (hother n u hn).symm
  · by_cases hn : n = no
    · subst hn
      exact absurd hu (hnone u)
    · exact h.one n u w ((hother n u hn).1 hu) ((hother n w hn).1 hw)
  · by_cases hut : u = t
    · subst hut
      rw [Function.update_self, hb] at hu
      cases hu
    · rw [Function.update_of_ne hut] at hu
      exact h.once n u hu

variable {cfg : TskCfg} {wai : BitVec 32}

theorem MlCount.congr (h : MlCount cfg wai pc)
    (hi : ∀ u, (pc' u).inside.isSome = (pc u).inside.isSome)
    (ho : ∀ u, pc u = .out → cfg.numTskid ≤ u → pc' u = .out) : MlCount cfg wai pc' :=
  ⟨fun u hu => ho u (h.outside u hu) hu, h.count.trans (census_congr fun u _ => hi u).symm⟩

theorem MlCount.outside_update (h : MlCount cfg wai pc) (ht : t < cfg.numTskid) :
    ∀ u, cfg.numTskid ≤ u → Function.update pc t b u = .out := by
  intro u hu
  have hut : u ≠ t := fun he => absurd ht (Nat.not_lt.2 (he ▸ hu))
  rw [Function.update_of_ne hut]
  exact h.outside u hu

/-- The tasks in MLockTmo. -/
theorem inside_update (pc : Tid → MlPc) (ht : t < cfg.numTskid) :
    (census cfg.numTskid (Function.update pc t b) fun p => p.inside.isSome) +
        (pc t).inside.isSome.toNat =
      (census cfg.numTskid pc fun p => p.inside.isSome) + b.inside.isSome.toNat :=
  census_update ht

theorem MlCount.update (h : MlCount cfg wai pc) (ht : t < cfg.numTskid)
    (hi : b.inside.isSome = (pc t).inside.isSome) : MlCount cfg wai (Function.update pc t b) := by
  refine ⟨h.outside_update ht, h.count.trans ?_⟩
  have hcensus := inside_update (b := b) pc ht
  rw [hi] at hcensus
  omega

theorem MlCount.inc (h : MlCount cfg wai pc) (ht : t < cfg.numTskid)
    (hp : (pc t).inside.isSome = false) (hb : b.inside.isSome = true) :
    MlCount cfg (wai + 1) (Function.update pc t b) := by
  refine ⟨h.outside_update ht, ?_⟩
  have hle : (census cfg.numTskid pc fun p => p.inside.isSome) ≤ cfg.numTskid := census_le
  have hcensus := inside_update (b := b) pc ht
  have hsmall := cfg.small
  have hcount := h.count
  rw [hp, hb, Bool.toNat_false, Bool.toNat_true] at hcensus
  have hone : (1 : BitVec 32).toNat = 1 := rfl
  rw [BitVec.toNat_add, hcount, hone]
  omega

theorem MlCount.dec (h : MlCount cfg wai pc) (ht : t < cfg.numTskid)
    (hp : (pc t).inside.isSome = true) (hb : b.inside.isSome = false) :
    MlCount cfg (wai - 1) (Function.update pc t b) := by
  refine ⟨h.outside_update ht, ?_⟩
  have hcensus := inside_update (b := b) pc ht
  have hcount := h.count
  have hlt := wai.isLt
  rw [hp, hb, Bool.toNat_false, Bool.toNat_true] at hcensus
  have hone : (1 : BitVec 32).toNat = 1 := rfl
  rw [BitVec.toNat_sub, hcount, hone]
  omega

end

/-! ### No wake-up is lost -/

section

variable {cfg : TskCfg} {s s' : MlSys} {t u : Tid} {no n : Fin 32} {tmo : Tmo} {b : MlPc} {c : Core}
  {ddsp : Bool}

/-- Where the event flag has the bit nobody who needs it is stopped. -/
theorem canGo_of_flag (h : MlQueue s.id s.pc) (hf : s.id.flgptn.getLsbD n = true)
    (hu : (s.pc u).seeks = some n) : s.CanGo n u := by
  refine ⟨hu, fun tmo hb => ?_, fun tmo _ => and_bit_ne.2 hf⟩
  obtain ⟨x, hx, hxu⟩ := List.any_eq_true.1 (h.queued u n tmo hb)
  obtain ⟨n', tmo', hw, hp⟩ := h.queue x hx
  rw [eq_of_beq hxu, hb] at hp
  obtain ⟨rfl, -⟩ := MlPc.blocked.inj hp
  have hno := h.unsat x hx
  rw [hw, mlWinfo_cond, hf] at hno
  cases hno

/-- A task before BTS can go on. -/
theorem canGo_bts (hu : s.pc u = .load (.bts n tmo)) : s.CanGo n u := by
  refine ⟨by rw [hu]; rfl, fun tmo' hb => ?_, fun tmo' hw => ?_⟩
  · rw [hu] at hb
    cases hb
  · rw [hu] at hw
    cases hw

theorem canGo_congr (h : s.CanGo n u) (hpc : s'.pc u = s.pc u)
    (hf : s.id.flgptn.getLsbD n = true → s'.id.flgptn.getLsbD n = true) : s'.CanGo n u := by
  obtain ⟨hs, hb, hw⟩ := h
  refine ⟨by rw [hpc]; exact hs, by rw [hpc]; exact hb, fun tmo hp => ?_⟩
  rw [hpc] at hp
  exact and_bit_ne.2 (hf (and_bit_ne.1 (hw tmo hp)))

/-- One task moves on to `b`, and the pattern of the event flag loses at most bits for it. -/
theorem MlWake.move (h : MlWake s) (hpc : s'.pc = Function.update s.pc t b)
    (hid : ∀ n : Fin 32, s.id.flgptn.getLsbD n = true →
      s'.id.flgptn.getLsbD n = true ∨ s'.CanGo n t)
    (hflg : ∀ n : Fin 32, s'.flg.getLsbD n = false →
      s.flg.getLsbD n = false ∨ b.unlocking = some n)
    (hseeks : ∀ n, b.seeks = some n → (s.pc t).seeks = some n ∨ s'.CanGo n t)
    (hgo : ∀ n : Fin 32, s'.flg.getLsbD n = false → s.CanGo n t → (∃ u, (s'.pc u).seeks = some n) →
      ∃ u, s'.CanGo n u)
    (hun : ∀ n, (s.pc t).unlocking = some n → b.unlocking = some n) : MlWake s' := by
  have hself : s'.pc t = b := by rw [hpc, Function.update_self]
  have hother : ∀ u, u ≠ t → s'.pc u = s.pc u := fun u hu => by
    rw [hpc, Function.update_of_ne hu]
  intro n hclear hex
  rcases hflg n hclear with hclear' | hb
  swap
  · exact Or.inr ⟨t, by rw [hself, hb]⟩
  by_cases hgot : s'.CanGo n t
  · exact Or.inl ⟨t, hgot⟩
  have hbefore : ∃ u, (s.pc u).seeks = some n := by
    obtain ⟨u, hu⟩ := hex
    by_cases hut : u = t
    · rw [hut, hself] at hu
      exact ⟨t, (hseeks n hu).resolve_right hgot⟩
    · exact ⟨u, by rw [← hother u hut]; exact hu⟩
  rcases h n hclear' hbefore with ⟨u, hu⟩ | ⟨u, hu⟩
  · by_cases hut : u = t
    · exact Or.inl (hgo n hclear (hut ▸ hu) hex)
    · exact Or.inl ⟨u, canGo_congr hu (hother u hut) fun hf => (hid n hf).resolve_right hgot⟩
  · by_cases hut : u = t
    · exact Or.inr ⟨t, by rw [hself]; exact hun n (hut ▸ hu)⟩
    · exact Or.inr ⟨u, by rw [hother u hut]; exact hu⟩

/-- tk_set_flg releases tasks. -/
theorem released_canGo (h : MlQueue s.id s.pc) {g : FlgGrant} {p : BitVec 32}
    (hg : g = fullScan s.id.waitQueue p) (hid : s'.id.flgptn = g.flgptn)
    (hqueue : MlQueue s'.id s'.pc)
    (hpc : ∀ u ∈ g.released.map (·.1.tsk), s'.pc u = (s.pc u).returned .E_OK)
    (hn : p.getLsbD n = true) (hex : ∃ u, (s'.pc u).seeks = some n) : ∃ u, s'.CanGo n u := by
  have hq : ∀ x ∈ s.id.waitQueue, ∃ no, x.winfo = mlWinfo no := fun x hx => by
    obtain ⟨no, tmo, hw, -⟩ := h.queue x hx
    exact ⟨no, hw⟩
  rcases fullScan_bit hq hn with hf | ⟨x, hx, hw⟩
  · obtain ⟨u, hu⟩ := hex
    exact ⟨u, canGo_of_flag hqueue (by rw [hid, hg]; exact hf) hu⟩
  · have hin : x.1 ∈ s.id.waitQueue := (fullScan_perm s.id.waitQueue p).mem_iff.1
      (List.mem_append_left _ (List.mem_map_of_mem hx))
    obtain ⟨n', tmo, hw', hp⟩ := h.queue x.1 hin
    have hn' : n' = n := by
      have heq : bit n' = bit n := congrArg FlgWinfo.waiptn (hw'.symm.trans hw)
      have hbit := getLsbD_bit n' n
      rw [heq, getLsbD_bit] at hbit
      simpa using hbit
    subst hn'
    have hmem : x.1.tsk ∈ g.released.map (·.1.tsk) := by
      rw [hg]
      exact List.mem_map.2 ⟨x, hx, rfl⟩
    have hbts : s'.pc x.1.tsk = .load (.bts n' tmo) := by
      rw [hpc _ hmem, hp]
      rfl
    exact ⟨x.1.tsk, canGo_bts hbts⟩

/-! ### The steps -/

theorem exclusively_store {op : MlOp} {v : BitVec 32} (hp : s.pc t = .store op v)
    (hex : s.exclusively (.go c t ddsp) = true) :
    op.apply v = s.val op.word ∨
      ∀ u op' v', s.di c.other = some u → s.pc u = .store op' v' → op'.word ≠ op.word := by
  simp only [MlSys.exclusively, hp, Bool.or_eq_true, bne_iff_ne, beq_iff_eq] at hex
  rcases hex with hbusy | hsame
  · refine Or.inr fun u op' v' hu hpu hw => hbusy ?_
    unfold MlSys.busy
    rw [hu]
    dsimp only
    rw [hpu]
    exact congrArg some hw
  · exact Or.inl hsame

/-- A sequence stores what it has made of the present value. -/
theorem MlInv.loaded (h : MlInv cfg s) {op : MlOp} {v : BitVec 32} (hp : s.pc t = .store op v) :
    v = s.val op.word := by
  obtain ⟨c, hc⟩ := h.seq.seqs t op v hp
  obtain ⟨op', hop⟩ := h.seq.masks c t hc
  rw [hp] at hop
  obtain ⟨rfl, rfl⟩ := MlPc.store.inj hop
  rfl

theorem clean_update {pc : Tid → MlPc} {touched touched' : Tid → Bool}
    (h : ∀ u, (pc u).clean = true → touched u = false)
    (ht : b.clean = true → touched' t = false) (hother : ∀ u, u ≠ t → touched' u = touched u)
    (u : Tid) (hu : (Function.update pc t b u).clean = true) : touched' u = false := by
  by_cases hut : u = t
  · subst hut
    rw [Function.update_self] at hu
    exact ht hu
  · rw [Function.update_of_ne hut] at hu
    rw [hother u hut]
    exact h u hu

theorem MlInv.mLockTmo (h : MlInv cfg s) (ht : t < cfg.numTskid) (hp : s.pc t = .out) :
    MlInv cfg ({ s with touched := Function.update s.touched t false }.goto t
      (.load (.inc no tmo))) := by
  refine ⟨h.queue.update (by simp [hp]) (by simp), h.seq.update (by simp [hp]) (by simp),
    h.own.update (by rw [hp]; rfl), h.count.update ht (by rw [hp]; rfl),
    clean_update h.clean (fun _ => Function.update_self _ _ _)
      fun u hu => Function.update_of_ne hu _ _, ?_⟩
  refine h.wake.move rfl (fun n hf => Or.inl hf) (fun n hf => Or.inl hf) ?_ ?_ ?_
  · intro n hs
    cases hs
  · intro n _ hgo
    have hs := hgo.1
    rw [hp] at hs
    cases hs
  · intro n hs
    rw [hp] at hs
    cases hs

theorem MlInv.mUnlock (h : MlInv cfg s) (ht : t < cfg.numTskid) (hp : s.pc t = .out)
    (hheld : s.held t no = true) :
    MlInv cfg ({ s with
      held := Function.update s.held t (Function.update (s.held t) no false) }.goto t
        (.load (.br no))) := by
  refine ⟨h.queue.update (by simp [hp]) (by simp), h.seq.update (by simp [hp]) (by simp),
    h.own.unlock hp hheld, h.count.update ht (by rw [hp]; rfl),
    clean_update h.clean (fun hc => by cases hc) fun _ _ => rfl, ?_⟩
  refine h.wake.move rfl (fun n hf => Or.inl hf) (fun n hf => Or.inl hf) ?_ ?_ ?_
  · intro n hs
    cases hs
  · intro n _ hgo
    have hs := hgo.1
    rw [hp] at hs
    cases hs
  · intro n hs
    rw [hp] at hs
    cases hs

theorem MlInv.load (h : MlInv cfg s) (ht : t < cfg.numTskid) {op : MlOp} (hp : s.pc t = .load op)
    (hd : s.di c = none) :
    MlInv cfg ({ s with di := Function.update s.di c (some t) }.goto t
      (.store op (s.val op.word))) := by
  have hseeks : (MlPc.store op (s.val op.word)).seeks = (s.pc t).seeks := by
    rw [hp]
    cases op <;> rfl
  refine ⟨h.queue.update (by simp [hp]) (by simp), h.seq.load hp hd, h.own.update ?_,
    h.count.update ht ?_, clean_update h.clean (fun hc => h.clean t ?_) fun _ _ => rfl, ?_⟩
  · rw [hp]
    cases op with
    | dec no e => cases e <;> rfl
    | _ => rfl
  · rw [hp]
    cases op <;> rfl
  · rw [hp, ← hc]
    cases op <;> rfl
  · refine h.wake.move rfl (fun n hf => Or.inl hf) (fun n hf => Or.inl hf) ?_ ?_ ?_
    · intro n hs
      exact Or.inl (hseeks.symm.trans hs)
    · intro n _ hgo _
      refine ⟨t, ?_, ?_, ?_⟩
      · show (Function.update s.pc t _ t).seeks = some n
        rw [Function.update_self, hseeks]
        exact hgo.1
      · intro tmo hb
        have hb : Function.update s.pc t (.store op (s.val op.word)) t = .blocked n tmo := hb
        rw [Function.update_self] at hb
        cases hb
      · intro tmo hb
        have hb : Function.update s.pc t (.store op (s.val op.word)) t = .waiFlg n tmo := hb
        rw [Function.update_self] at hb
        cases hb
    · intro n hs
      rw [hp] at hs
      cases hs

/-- The store of a sequence: the words. -/
theorem stored_val {op : MlOp} {v : BitVec 32} (w : MlWord) :
    (s.stored c t op v).val w = if w = op.word then op.apply v else s.val w := by
  cases op with
  | dec no e => cases e <;> cases w <;> rfl
  | _ => cases w <;> rfl

theorem stored_di {op : MlOp} {v : BitVec 32} :
    (s.stored c t op v).di = Function.update s.di c none := by
  cases op with
  | dec no e => cases e <;> rfl
  | _ => rfl

theorem MlInv.stored (h : MlInv cfg s) {op : MlOp} {v : BitVec 32} (hp : s.pc t = .store op v)
    (hd : s.di c = some t) (hex : s.exclusively (.go c t ddsp) = true)
    (hb : ∀ op v, b ≠ .store op v) :
    MlSeq (s.stored c t op v).val (s.stored c t op v).di (Function.update s.pc t b) := by
  rw [stored_di]
  refine h.seq.store hd hb (fun w hw => ?_) ((exclusively_store hp hex).imp_left fun hsame => ?_)
  · rw [stored_val, if_neg hw]
  · rw [stored_val, if_pos rfl, hsame]

theorem MlInv.storeInc (h : MlInv cfg s) (ht : t < cfg.numTskid) {v : BitVec 32}
    (hp : s.pc t = .store (.inc no tmo) v) (hd : s.di c = some t)
    (hex : s.exclusively (.go c t ddsp) = true) :
    MlInv cfg ((s.stored c t (.inc no tmo) v).goto t (.load (.bts no tmo))) := by
  have hv : v = s.wai := h.loaded hp
  refine ⟨h.queue.update (by simp [hp]) (by simp), h.stored hp hd hex (by simp),
    h.own.update (by rw [hp]; rfl), ?_,
    clean_update h.clean (fun _ => h.clean t (by rw [hp]; rfl)) fun _ _ => rfl, ?_⟩
  · subst hv
    exact h.count.inc ht (by rw [hp]; rfl) rfl
  · refine h.wake.move rfl (fun n hf => Or.inl hf) (fun n hf => Or.inl hf) ?_ ?_ ?_
    · intro n hs
      obtain rfl : no = n := Option.some.inj hs
      exact Or.inr (canGo_bts (Function.update_self _ _ _))
    · intro n _ hgo
      have hs := hgo.1
      rw [hp] at hs
      cases hs
    · intro n hs
      rw [hp] at hs
      cases hs

theorem MlInv.storeBts (h : MlInv cfg s) (ht : t < cfg.numTskid) {v : BitVec 32}
    (hp : s.pc t = .store (.bts no tmo) v) (hd : s.di c = some t)
    (hex : s.exclusively (.go c t ddsp) = true) :
    MlInv cfg ((s.stored c t (.bts no tmo) v).goto t (MlOp.next v (.bts no tmo))) := by
  have hv : v = s.flg := h.loaded hp
  subst hv
  have hgo : ∀ n : Fin 32, (s.flg ||| bit no).getLsbD n = false → ¬ s.CanGo n t := by
    intro n hclear hgo
    have hs := hgo.1
    rw [hp] at hs
    obtain rfl : no = n := Option.some.inj hs
    rw [getLsbD_set] at hclear
    simp at hclear
  by_cases hbit : s.flg.getLsbD no = true
  · -- the lock is not free
    have hnext : MlOp.next s.flg (.bts no tmo) = .waiFlg no tmo := if_neg (and_bit_ne.2 hbit)
    have hsame : s.flg ||| bit no = s.flg := or_bit hbit
    rw [hnext]
    refine ⟨h.queue.update (by simp [hp]) (by simp), h.stored hp hd hex (by simp), ?_,
      h.count.update ht (by rw [hp]; rfl), clean_update h.clean (fun _ => ?_) (fun u hu => ?_), ?_⟩
    · show MlOwn (s.flg ||| bit no) s.held (Function.update s.pc t (.waiFlg no tmo))
      rw [hsame]
      exact h.own.update (by rw [hp]; rfl)
    · have htouched : s.touched t = false := h.clean t (by rw [hp]; rfl)
      show Function.update s.touched t (s.touched t || s.flg ||| bit no != s.flg) t = false
      rw [Function.update_self, htouched, hsame]
      simp
    · exact Function.update_of_ne hu _ _
    · refine h.wake.move rfl (fun n hf => Or.inl hf) (fun n hf => Or.inl ?_) ?_
        (fun n hf hg => absurd hg (hgo n hf)) ?_
      · have hf : (s.flg ||| bit no).getLsbD n = false := hf
        rwa [hsame] at hf
      · intro n hs
        rw [hp]
        exact Or.inl hs
      · intro n hs
        rw [hp] at hs
        cases hs
  · have hbit : s.flg.getLsbD no = false := Bool.eq_false_of_not_eq_true hbit
    have hnext : MlOp.next s.flg (.bts no tmo) = .load (.dec no .E_OK) := if_pos (and_bit.2 hbit)
    rw [hnext]
    refine ⟨h.queue.update (by simp [hp]) (by simp), h.stored hp hd hex (by simp),
      h.own.set (by rw [hp]; rfl) rfl hbit, h.count.update ht (by rw [hp]; rfl),
      clean_update h.clean (fun hc => by cases hc) (fun u hu => Function.update_of_ne hu _ _), ?_⟩
    refine h.wake.move rfl (fun n hf => Or.inl hf) (fun n hf => Or.inl ?_) ?_
      (fun n hf hg => absurd hg (hgo n hf)) ?_
    · have hf : (s.flg ||| bit no).getLsbD n = false := hf
      rw [getLsbD_set, Bool.or_eq_false_iff] at hf
      exact hf.1
    · intro n hs
      cases hs
    · intro n hs
      rw [hp] at hs
      cases hs

theorem MlInv.storeDec (h : MlInv cfg s) (ht : t < cfg.numTskid) {v : BitVec 32} {e : ER}
    (hp : s.pc t = .store (.dec no e) v) (hd : s.di c = some t)
    (hex : s.exclusively (.go c t ddsp) = true) :
    MlInv cfg ((s.stored c t (.dec no e) v).goto t .out) := by
  have hv : v = s.wai := h.loaded hp
  have hseq := h.stored (b := .out) hp hd hex (by simp)
  have hcount : MlCount cfg (s.wai - 1) (Function.update s.pc t .out) :=
    h.count.dec ht (by rw [hp]; rfl) rfl
  rw [← hv] at hcount
  have hqueue : MlQueue s.id (Function.update s.pc t .out) :=
    h.queue.update (by simp [hp]) (by simp)
  have hclean : ∀ u, (Function.update s.pc t .out u).clean = true → s.touched u = false :=
    clean_update h.clean (fun hc => by cases hc) fun _ _ => rfl
  have hwake : ∀ s' : MlSys, s'.pc = Function.update s.pc t .out → s'.id = s.id →
      s'.flg = s.flg → MlWake s' := by
    intro s' hpc hid hflg
    refine h.wake.move hpc (fun n hf => Or.inl (by rw [hid]; exact hf))
      (fun n hf => Or.inl (by rw [← hflg]; exact hf)) ?_ ?_ ?_
    · intro n hs
      cases hs
    · intro n _ hgo
      have hs := hgo.1
      rw [hp] at hs
      cases hs
    · intro n hs
      rw [hp] at hs
      cases hs
  by_cases he : e = .E_OK
  · subst he
    exact ⟨hqueue, hseq, h.own.locked (by rw [hp]; rfl), hcount, hclean, hwake _ rfl rfl rfl⟩
  · have hown : MlOwn s.flg s.held (Function.update s.pc t .out) := by
      refine h.own.update ?_
      rw [hp]
      cases e <;> first | rfl | exact absurd rfl he
    have hsame : (s.stored c t (.dec no e) v) =
        { s with di := Function.update s.di c none, wai := v - 1 } := by
      cases e <;> first | rfl | exact absurd rfl he
    rw [hsame] at hseq ⊢
    exact ⟨hqueue, hseq, hown, hcount, hclean, hwake _ rfl rfl rfl⟩

theorem MlInv.storeBr (h : MlInv cfg s) (ht : t < cfg.numTskid) {v : BitVec 32}
    (hp : s.pc t = .store (.br no) v) (hd : s.di c = some t)
    (hex : s.exclusively (.go c t ddsp) = true) :
    MlInv cfg ((s.stored c t (.br no) v).goto t (.rdWai no)) := by
  have hv : v = s.flg := h.loaded hp
  subst hv
  refine ⟨h.queue.update (by simp [hp]) (by simp), h.stored hp hd hex (by simp),
    h.own.reset (by rw [hp]; rfl) rfl, h.count.update ht (by rw [hp]; rfl),
    clean_update h.clean (fun hc => by cases hc) (fun u hu => Function.update_of_ne hu _ _), ?_⟩
  · refine h.wake.move rfl (fun n hf => Or.inl hf) (fun n hf => ?_) ?_ ?_ ?_
    · have hf : (s.flg &&& ~~~bit no).getLsbD n = false := hf
      rw [getLsbD_clear, Bool.and_eq_false_iff] at hf
      rcases hf with hf | hf
      · exact Or.inl hf
      · right
        have : no = n := by simpa using hf
        rw [this]
        rfl
    · intro n hs
      cases hs
    · intro n _ hgo
      have hs := hgo.1
      rw [hp] at hs
      cases hs
    · intro n hs
      rw [hp] at hs
      cases hs

theorem MlInv.waiFlg (h : MlInv cfg s) (ht : t < cfg.numTskid) (hp : s.pc t = .waiFlg no tmo)
    (hs : s.go c t ddsp = some s') : MlInv cfg s' := by
  have htouched : s.touched t = false := h.clean t (by rw [hp]; rfl)
  have hnot : ∀ n, (s.pc t).unlocking = some n → False := fun n hu => by
    rw [hp] at hu
    cases hu
  have hseek : ∀ n, s.CanGo n t → n = no ∧ s.id.flgptn.getLsbD no = true := fun n hgo => by
    have hn := hgo.1
    rw [hp] at hn
    obtain rfl : no = n := Option.some.inj hn
    exact ⟨rfl, and_bit_ne.1 (hgo.2.2 tmo hp)⟩
  rcases go_waiFlg h.queue.exists_ h.queue.ret hp hs with
    ⟨e, he, rfl⟩ | ⟨hbit, rfl⟩ | ⟨hbit, hw, rfl⟩
  · -- it fails
    have hqueue : MlQueue s.id (Function.update s.pc t (.load (.dec no e))) :=
      h.queue.update (by simp [hp]) (by simp)
    refine ⟨hqueue, h.seq.update (by simp [hp]) (by simp), h.own.update ?_,
      h.count.update ht (by rw [hp]; rfl), clean_update h.clean (fun _ => htouched) fun _ _ => rfl,
      ?_⟩
    · rw [hp]
      cases e <;> first | rfl | exact absurd rfl he
    · refine h.wake.move rfl (fun n hf => Or.inl hf) (fun n hf => Or.inl hf) ?_ ?_
        fun n hu => (hnot n hu).elim
      · intro n hn
        cases hn
      · intro n _ hgo hex
        obtain ⟨rfl, hf⟩ := hseek n hgo
        obtain ⟨u, hu⟩ := hex
        exact ⟨u, canGo_of_flag hqueue hf hu⟩
  · -- it takes the bit
    have hgo : ∀ s'' : MlSys, s''.pc = Function.update s.pc t (.load (.bts no tmo)) →
        s''.CanGo no t := fun s'' hpc => canGo_bts (by rw [hpc, Function.update_self])
    refine ⟨(h.queue.update (by simp [hp]) (by simp)).take _,
      h.seq.update (by simp [hp]) (by simp), h.own.update (by rw [hp]; rfl),
      h.count.update ht (by rw [hp]; rfl), clean_update h.clean (fun _ => htouched) fun _ _ => rfl,
      ?_⟩
    refine h.wake.move rfl (fun n hf => ?_) (fun n hf => Or.inl hf) ?_ ?_
      fun n hu => (hnot n hu).elim
    · by_cases hn : no = n
      · subst hn
        exact Or.inr (hgo _ rfl)
      · left
        show (s.id.flgptn &&& ~~~bit no).getLsbD n = true
        rw [getLsbD_clear, hf, decide_eq_false hn]
        rfl
    · intro n hn
      obtain rfl : no = n := Option.some.inj hn
      exact Or.inr (hgo _ rfl)
    · intro n _ hn _
      obtain ⟨rfl, -⟩ := hseek n hn
      exact ⟨t, hgo _ rfl⟩
  · -- it waits
    refine ⟨h.queue.wait hw hbit, h.seq.update (by simp [hp]) (by simp),
      h.own.update (by rw [hp]; rfl), h.count.update ht (by rw [hp]; rfl),
      clean_update h.clean (fun _ => htouched) fun _ _ => rfl, ?_⟩
    refine h.wake.move rfl (fun n hf => Or.inl hf) (fun n hf => Or.inl hf) ?_ ?_
      fun n hu => (hnot n hu).elim
    · intro n hn
      rw [hp]
      exact Or.inl hn
    · intro n _ hgo
      obtain ⟨rfl, hf⟩ := hseek n hgo
      rw [hbit] at hf
      cases hf

/-- With no task in MLockTmo there is nobody to wake. -/
theorem MlCount.not_seeks {pc : Tid → MlPc} {wai : BitVec 32} (h : MlCount cfg wai pc)
    (hzero : wai = 0) : (pc u).seeks ≠ some n := by
  intro hu
  have hin : (pc u).inside.isSome = true := by
    revert hu
    cases pc u with
    | load op => cases op <;> simp [MlPc.seeks, MlPc.inside]
    | store op v => cases op <;> simp [MlPc.seeks, MlPc.inside]
    | _ => simp [MlPc.seeks, MlPc.inside]
  have hlt : u < cfg.numTskid := by
    by_contra hge
    rw [h.outside u (Nat.not_lt.1 hge)] at hu
    cases hu
  have hpos : 0 < census cfg.numTskid pc fun p => p.inside.isSome := census_pos.2 ⟨u, hlt, hin⟩
  have hcount := h.count
  rw [hzero] at hcount
  have : (0 : BitVec 32).toNat = 0 := rfl
  omega

theorem MlInv.rdWai (h : MlInv cfg s) (ht : t < cfg.numTskid) (hp : s.pc t = .rdWai no) :
    MlInv cfg (s.goto t (if s.wai = 0 then .out else .setFlg no)) := by
  by_cases hzero : s.wai = 0
  · rw [if_pos hzero]
    have hcount : MlCount cfg s.wai (Function.update s.pc t .out) :=
      h.count.update ht (by rw [hp]; rfl)
    exact ⟨h.queue.update (by simp [hp]) (by simp), h.seq.update (by simp [hp]) (by simp),
      h.own.update (by rw [hp]; rfl), hcount,
      clean_update h.clean (fun hc => by cases hc) fun _ _ => rfl,
      fun n _ ⟨u, hu⟩ => absurd hu (hcount.not_seeks hzero)⟩
  · rw [if_neg hzero]
    refine ⟨h.queue.update (by simp [hp]) (by simp), h.seq.update (by simp [hp]) (by simp),
      h.own.update (by rw [hp]; rfl), h.count.update ht (by rw [hp]; rfl),
      clean_update h.clean (fun hc => by cases hc) fun _ _ => rfl, ?_⟩
    refine h.wake.move rfl (fun n hf => Or.inl hf) (fun n hf => Or.inl hf) ?_ ?_ ?_
    · intro n hn
      cases hn
    · intro n _ hgo
      have hn := hgo.1
      rw [hp] at hn
      cases hn
    · intro n hn
      rw [hp] at hn
      exact hn

/-- A task that tk_wai_flg lets go on keeps its place in MLockTmo. -/
theorem returned_same {p : MlPc} :
    (p.returned .E_OK).seeks = p.seeks ∧ (p.returned .E_OK).inside = p.inside ∧
      (p.returned .E_OK).owns = p.owns ∧ (p.returned .E_OK).unlocking = p.unlocking ∧
      ((p.returned .E_OK).clean = p.clean) ∧
      ∀ op v, p.returned .E_OK = .store op v ↔ p = .store op v := by
  cases p <;> simp [MlPc.returned, MlPc.seeks, MlPc.inside, MlPc.owns, MlPc.unlocking, MlPc.clean]

theorem MlInv.setFlg (h : MlInv cfg s) (ht : t < cfg.numTskid) (hp : s.pc t = .setFlg no)
    (hs : s.go c t ddsp = some s') :
    MlInv cfg s' ∧ ((∃ u, (s'.pc u).seeks = some no) → ∃ u, s'.CanGo no u) := by
  obtain ⟨g, hg, rfl⟩ := go_setFlg h.queue.exists_ h.queue.ret hp hs
  -- MUnlock returns, and then the released tasks go on
  have hqueue : MlQueue s.id (Function.update s.pc t .out) :=
    h.queue.update (by simp [hp]) (by simp)
  have hqueue' := hqueue.release (s.id.flgptn ||| bit no)
  rw [← hg] at hqueue'
  have hcount : MlCount cfg s.wai (Function.update s.pc t .out) :=
    h.count.update ht (by rw [hp]; rfl)
  have hlift : ∀ {β : Type} (f : MlPc → β), (∀ p, f (p.returned .E_OK) = f p) → ∀ u,
      f (if u ∈ g.released.map (·.1.tsk) then (Function.update s.pc t .out u).returned .E_OK
        else Function.update s.pc t .out u) = f (Function.update s.pc t .out u) := by
    intro β f hf u
    split
    · exact hf _
    · rfl
  have hgo : ∀ n : Fin 32, (s.id.flgptn ||| bit no).getLsbD n = true →
      (∃ u, (if u ∈ g.released.map (·.1.tsk) then (Function.update s.pc t .out u).returned .E_OK
        else Function.update s.pc t .out u).seeks = some n) →
      ∃ u, ({ s with
        id := { s.id with flgptn := g.flgptn, waitQueue := g.waitQueue }
        pc := fun u =>
          if u ∈ g.released.map (·.1.tsk) then (Function.update s.pc t .out u).returned .E_OK
          else Function.update s.pc t .out u } : MlSys).CanGo n u := by
    intro n hn hex
    exact released_canGo (s := s.goto t .out) hqueue hg rfl hqueue' (fun u hu => if_pos hu) hn hex
  refine ⟨⟨hqueue', ?_, ?_, ?_, fun u hu => ?_, ?_⟩, fun hex => hgo no ?_ hex⟩
  · have hseq : MlSeq s.val s.di (Function.update s.pc t .out) :=
      h.seq.update (by simp [hp]) (by simp)
    refine hseq.congr fun u op v => ?_
    dsimp only
    split
    · exact returned_same.2.2.2.2.2 op v
    · rfl
  · have hown : MlOwn s.flg s.held (Function.update s.pc t .out) :=
      h.own.update (by rw [hp]; rfl)
    exact hown.congr (hlift MlPc.owns fun p => returned_same.2.2.1)
  · refine hcount.congr (hlift (fun p => p.inside.isSome) fun p => ?_) fun u hu _ => ?_
    · rw [returned_same.2.1]
    · dsimp only
      rw [hu]
      split <;> rfl
  · have hout : MlPc.out.clean = true → s.touched t = false := fun hc => by cases hc
    refine clean_update h.clean hout (fun _ _ => rfl) u ?_
    rw [← hu]
    exact (hlift MlPc.clean (fun p => returned_same.2.2.2.2.1) u).symm
  · intro n hclear hex
    by_cases hn : (s.id.flgptn ||| bit no).getLsbD n = true
    · exact Or.inl (hgo n hn hex)
    · have hn : (s.id.flgptn ||| bit no).getLsbD n = false := Bool.eq_false_of_not_eq_true hn
      rw [getLsbD_set, Bool.or_eq_false_iff] at hn
      obtain ⟨hoff, hne⟩ := hn
      have hne : no ≠ n := by simpa using hne
      have hstay : ∀ u, u ≠ t → (∀ tmo, s.pc u ≠ .blocked n tmo) →
          ((s.pc u).seeks = some n ∨ (s.pc u).unlocking = some n) →
          (if u ∈ g.released.map (·.1.tsk) then (Function.update s.pc t .out u).returned .E_OK
            else Function.update s.pc t .out u) = s.pc u := by
        intro u hut hb hor
        rw [Function.update_of_ne hut]
        split
        · revert hb hor
          cases s.pc u <;> simp [MlPc.returned, MlPc.seeks, MlPc.unlocking]
        · rfl
      have hbefore : ∃ u, (s.pc u).seeks = some n := by
        obtain ⟨u, hu⟩ := hex
        have hu : (Function.update s.pc t .out u).seeks = some n := by
          rw [← hlift MlPc.seeks (fun p => returned_same.1) u]
          exact hu
        by_cases hut : u = t
        · rw [hut, Function.update_self] at hu
          cases hu
        · rw [Function.update_of_ne hut] at hu
          exact ⟨u, hu⟩
      rcases h.wake n hclear hbefore with ⟨u, hu⟩ | ⟨u, hu⟩
      · have hut : u ≠ t := fun he => by
          have hseek := hu.1
          rw [he, hp] at hseek
          cases hseek
        refine Or.inl ⟨u, canGo_congr hu (hstay u hut hu.2.1 (Or.inl hu.1)) fun hf => ?_⟩
        rw [hoff] at hf
        cases hf
      · have hut : u ≠ t := fun he => by
          rw [he, hp] at hu
          exact hne (Option.some.inj hu)
        have hb : ∀ tmo, s.pc u ≠ .blocked n tmo := fun tmo hb => by
          rw [hb] at hu
          cases hu
        refine Or.inr ⟨u, ?_⟩
        rw [← hu]
        exact congrArg MlPc.unlocking (hstay u hut hb (Or.inr hu))
  · rw [getLsbD_set]
    simp

/-- A timeout or a forced release. -/
theorem MlInv.leave (h : MlInv cfg s) {e : ER} (he : e ≠ .E_OK)
    (hw : waiting t s.id.waitQueue = true) :
    MlInv cfg (s.called (s.id.endWait t (some e))) := by
  rw [called_endWait h.queue.ret]
  obtain ⟨x, hx, hxt⟩ := List.any_eq_true.1 hw
  obtain ⟨no, tmo, -, hp⟩ := h.queue.queue x hx
  rw [eq_of_beq hxt] at hp
  have ht : t < cfg.numTskid := by
    by_contra hge
    rw [h.count.outside t (Nat.not_lt.1 hge)] at hp
    cases hp
  have hret : (s.pc t).returned e = .load (.dec no e) := by rw [hp, returned_blocked he]
  rw [hret]
  refine ⟨h.queue.leave (by simp), h.seq.update (by simp [hp]) (by simp), h.own.update ?_,
    h.count.update ht (by rw [hp]; rfl),
    clean_update h.clean (fun _ => h.clean t (by rw [hp]; rfl)) fun _ _ => rfl, ?_⟩
  · rw [hp]
    cases e <;> first | rfl | exact absurd rfl he
  · refine h.wake.move rfl (fun n hf => Or.inl hf) (fun n hf => Or.inl hf) ?_ ?_ ?_
    · intro n hn
      cases hn
    · intro n _ hgo
      have hn := hgo.1
      rw [hp] at hn
      obtain rfl : no = n := Option.some.inj hn
      exact absurd hp (hgo.2.1 tmo)
    · intro n hn
      rw [hp] at hn
      cases hn

theorem MlInv.chgPri (h : MlInv cfg s) (t : Tid) (priority : Nat) :
    MlInv cfg (s.called (s.id.chgPri mlFlg t priority)) := by
  have hqueue := h.queue.chgPri t priority
  rw [called_of_nil _ hqueue.ret]
  exact ⟨hqueue, h.seq, h.own, h.count, h.clean, h.wake⟩

theorem mlInv_step (h : MlInv cfg s) {e : MlEvent} (hex : s.exclusively e = true)
    (hs : s.step cfg e = some s') : MlInv cfg s' := by
  cases e with
  | mLockTmo t no tmo =>
    simp only [MlSys.step, Option.ite_none_right_eq_some] at hs
    obtain ⟨⟨ht, hp⟩, hs⟩ := hs
    obtain rfl := Option.some.inj hs
    exact h.mLockTmo ht hp
  | mUnlock t no =>
    simp only [MlSys.step, Option.ite_none_right_eq_some] at hs
    obtain ⟨⟨ht, hp, hheld⟩, hs⟩ := hs
    obtain rfl := Option.some.inj hs
    exact h.mUnlock ht hp hheld
  | go c t ddsp =>
    simp only [MlSys.step, Option.ite_none_right_eq_some] at hs
    obtain ⟨ht, hs⟩ := hs
    cases hp : s.pc t with
    | out => simp [MlSys.go, hp] at hs
    | blocked no tmo => simp [MlSys.go, hp] at hs
    | load op =>
      simp only [MlSys.go, hp, Option.ite_none_right_eq_some] at hs
      obtain ⟨hd, hs⟩ := hs
      obtain rfl := Option.some.inj hs
      exact h.load ht hp hd
    | store op v =>
      simp only [MlSys.go, hp, Option.ite_none_right_eq_some] at hs
      obtain ⟨hd, hs⟩ := hs
      obtain rfl := Option.some.inj hs
      cases op with
      | inc no tmo => exact h.storeInc ht hp hd hex
      | bts no tmo => exact h.storeBts ht hp hd hex
      | dec no e => exact h.storeDec ht hp hd hex
      | br no => exact h.storeBr ht hp hd hex
    | waiFlg no tmo => exact h.waiFlg ht hp hs
    | rdWai no =>
      simp only [MlSys.go, hp, Option.ite_none_right_eq_some] at hs
      obtain ⟨-, hs⟩ := hs
      obtain rfl := Option.some.inj hs
      exact h.rdWai ht hp
    | setFlg no => exact (h.setFlg ht hp hs).1
  | timeout t =>
    obtain ⟨id, hid, rfl⟩ := call_eq hs
    simp only [FlgSys.step, Option.ite_none_right_eq_some] at hid
    obtain ⟨hw, hid⟩ := hid
    obtain rfl := Option.some.inj hid
    exact h.leave (by decide) (waiting_of_timed hw)
  | tkRelWai t =>
    obtain ⟨id, hid, rfl⟩ := call_eq hs
    simp only [FlgSys.step, Option.ite_none_right_eq_some] at hid
    obtain ⟨hw, hid⟩ := hid
    obtain rfl := Option.some.inj hid
    exact h.leave (by decide) hw
  | chgPri t priority =>
    obtain ⟨id, hid, rfl⟩ := call_eq hs
    obtain rfl := Option.some.inj hid
    exact h.chgPri t priority

/-- What CreateMLock leaves. -/
theorem mlInv_created (priority : Tid → Nat) : MlInv cfg (MlSys.created priority) := by
  have hnone : ∀ no, ¬ ∃ t, MlOwns (fun _ _ => false) (fun _ => MlPc.out) no t := by
    rintro no ⟨t, ho | ho⟩
    · cases ho
    · cases ho
  refine ⟨⟨rfl, rfl, fun x hx => (List.not_mem_nil hx).elim, fun x hx => (List.not_mem_nil hx).elim,
      ?_, List.nodup_nil⟩, ⟨?_, ?_, ?_⟩, ⟨?_, ?_, ?_⟩, ⟨fun _ _ => rfl, ?_⟩, fun _ _ => rfl, ?_⟩
  · intro t no tmo hp
    cases hp
  · intro c t hd
    cases hd
  · intro t op v hp
    cases hp
  · intro c d t hd
    cases hd
  · intro no
    exact iff_of_false (by simp [MlSys.created]) (hnone no)
  · intro no t u ho
    exact absurd ⟨t, ho⟩ (hnone no)
  · intro no t ho
    cases ho
  · exact (census_eq_zero fun _ _ => rfl).symm
  · rintro no - ⟨t, hs⟩
    cases hs

theorem mlInv_of_exclusively
    (h : (mlMachine cfg).ReachableIf (fun s e => s.exclusively e = true) s) : MlInv cfg s := by
  refine h.invariant (MlInv cfg) ?_ fun s e s' hinv hex hs => mlInv_step hinv hex hs
  rintro s ⟨priority, rfl⟩
  exact mlInv_created priority

/-- MUnlock returns: tk_set_flg has released a task or set the bit, or nobody is in MLockTmo. -/
theorem MlInv.unlocks (h : MlInv cfg s) (hu : (s.pc t).unlocking = some no)
    (hs : s.step cfg (.go c t ddsp) = some s') (hout : s'.pc t = .out)
    (hex : ∃ u, (s'.pc u).seeks = some no) : ∃ u, s'.CanGo no u := by
  simp only [MlSys.step, Option.ite_none_right_eq_some] at hs
  obtain ⟨ht, hs⟩ := hs
  cases hp : s.pc t with
  | rdWai n =>
    simp only [MlSys.go, hp, Option.ite_none_right_eq_some] at hs
    obtain ⟨-, hs⟩ := hs
    obtain rfl := Option.some.inj hs
    have hpc : Function.update s.pc t (if s.wai = 0 then .out else .setFlg n) t = .out := hout
    rw [Function.update_self] at hpc
    have hzero : s.wai = 0 := by
      by_contra hne
      rw [if_neg hne] at hpc
      cases hpc
    obtain ⟨u, hu⟩ := hex
    exact absurd hu ((h.rdWai ht hp).count.not_seeks hzero)
  | setFlg n =>
    rw [hp] at hu
    obtain rfl : n = no := Option.some.inj hu
    exact (h.setFlg ht hp hs).2 hex
  | _ =>
    rw [hp] at hu
    cases hu

/-- What the locks promise holds as long as INC, DEC, BTS and BR are operated exclusively. -/
theorem mlOk_of_exclusively
    (h : (mlMachine cfg).ReachableIf (fun s e => s.exclusively e = true) s) : MlOk cfg s := by
  have hinv := mlInv_of_exclusively h
  refine ⟨fun no t u ht hu => hinv.own.one no t u (Or.inl ht) (Or.inl hu), fun t hf => ?_,
    hinv.count.count, fun c t ddsp no s' hu hs hout hex => hinv.unlocks hu hs hout hex,
    fun no hclear hno hex => ?_⟩
  · refine hinv.clean t ?_
    cases hp : s.pc t with
    | load op =>
      rw [hp] at hf
      cases op <;> simp_all [MlPc.failing, MlPc.clean]
    | store op v =>
      rw [hp] at hf
      cases op <;> simp_all [MlPc.failing, MlPc.clean]
    | _ =>
      rw [hp] at hf
      cases hf
  · rcases hinv.wake no (and_bit.1 hclear) hex with hgo | ⟨t, hu⟩
    · exact hgo
    · exact absurd hu (hno t)

end

/-- Two tasks. -/
def mlCfg : TskCfg := { numTskid := 2, small := by decide }

/-- The first one has lock 3, the second one waits for it with a timeout, and is released. -/
def mlTrace : List MlEvent :=
  [.mLockTmo 0 3 .TMO_FEVR] ++ List.replicate 6 (.go .core0 0 false) ++
  [.mLockTmo 1 3 (.after 5)] ++ List.replicate 5 (.go .core1 1 false) ++
  [.mUnlock 0 3] ++ List.replicate 4 (.go .core0 0 false)

theorem mlOk_of_exclusively_released : ∃ s,
    (mlMachine mlCfg).ReachableIf (fun s e => s.exclusively e = true) s ∧ MlOk mlCfg s ∧
      s.pc 0 = .out ∧ s.pc 1 = .load (.bts 3 (.after 5)) := by
  have sound : ∀ s e, MlSys.exclusively s e = true → MlSys.exclusively s e = true :=
    fun _ _ h => h
  obtain ⟨s, hr, hp⟩ := Lts.reachable_of_exec (L := mlMachine mlCfg)
    (p := fun s => decide (s.pc 0 = .out ∧ s.pc 1 = .load (.bts 3 (.after 5)))) sound mlTrace
    ⟨fun t => t, rfl⟩ (by decide +kernel)
  exact ⟨s, hr, mlOk_of_exclusively hr, of_decide_eq_true hp⟩

/-- BTS on both cores: each of them loads the word before the other one stores it. -/
def mlRace : List MlEvent :=
  [.mLockTmo 0 0 .TMO_FEVR, .go .core0 0 false, .go .core0 0 false,
    .mLockTmo 1 0 .TMO_FEVR, .go .core1 1 false, .go .core1 1 false,
    .go .core0 0 false, .go .core1 1 false, .go .core0 0 false, .go .core1 1 false,
    .go .core0 0 false, .go .core0 0 false, .go .core1 1 false, .go .core1 1 false]

/-- Both of the tasks have got lock 0. -/
theorem not_mlOk : ¬ ∀ s, (mlMachine mlCfg).Reachable s → MlOk mlCfg s := by
  intro hall
  obtain ⟨s, hr, hp⟩ := Lts.reachable_of_trace (L := mlMachine mlCfg)
    (p := fun s => s.held 0 0 && s.held 1 0) mlRace ⟨fun t => t, rfl⟩ (by decide +kernel)
  rw [Bool.and_eq_true] at hp
  exact absurd ((hall s hr).exclusive 0 0 1 hp.1 hp.2) (by decide)

end Mtk3Smp
