import Mtk3Smp.Mem.PoolProps
import Mtk3Smp.Lib.KeyOrder

/-!
# Waiting for a block of a pool

Which tasks wait at a variable size pool, and in which order `knl_mpl_wakeup` serves them. Its loop
ends where the first task in the queue asks for more than the largest free area has; the other
calls that change the free areas or the queue either run the loop or leave the head alone.
-/

namespace Mtk3Smp

open Qmem

/-- The first waiting task asks for more than the largest free area has. -/
def HeadWaits (p : MplCfg) (s : MplSys) : Prop :=
  ∀ w, s.waitQueue.head? = some w → p.knlMaxFreeSize s.mem < w.blksz

/-- The wait queue when an event gives blocks out: a task that has left it is gone, and one whose
priority has changed has moved. -/
def MplSys.lineUp (p : MplCfg) (s : MplSys) : MplEvent → List MplWaiter
  | .timeout t | .tkRelWai t | .tkTerTsk t => s.waitQueue.eraseP (·.tsk == t)
  | .chgPri t priority =>
    match p.tpri, s.waitQueue.find? (·.tsk == t) with
    | true, some x =>
      insertTpri (Function.update s.priority t priority) x (s.waitQueue.eraseP (·.tsk == t))
    | _, _ => s.waitQueue
  | .tkDelMpl => if s.exists_ then [] else s.waitQueue
  | _ => s.waitQueue

/-- `served` are the first ones of the line, and each of them gets a block in its turn. -/
structure Served (p : MplCfg) (s : MplSys) (e : MplEvent) (t : MplSys)
    (served : List MplWaiter) : Prop where
  line : s.lineUp p e = served ++ t.waitQueue
  /-- no other tk_get_mpl returns E_OK -/
  ret : ∃ before after, t.ret = s.ret ++ before ++ served.map (fun w => (w.tsk, .E_OK)) ++ after ∧
    (∀ x ∈ before, x.2 ≠ .E_OK) ∧
    ∀ x ∈ after, x.2 = .E_OK → ∃ ddsp blk, e = .tkRelMpl x.1 ddsp blk
  live : ∃ (blks : List Nat) (kept : List (Nat × Nat)), blks.length = served.length ∧
    kept.Sublist s.live ∧ t.live = (blks.zip (served.map (·.req))).reverse ++ kept

/-- Blocks go to the tasks in the order of the queue; a newcomer gets one at once only where it
would stand before the head. -/
def ServesInOrder (p : MplCfg) (s : MplSys) (e : MplEvent) (t : MplSys) : Prop :=
  match e with
  | .tkGetMpl self _ blksz tmout =>
    (t.waitQueue = s.waitQueue ∧ ∃ er, t.ret = s.ret ++ [(self, er)] ∧
      (er = .E_OK → s.isTop p self = true)) ∨
    t = s.makeWait p ⟨self, roundSize blksz, blksz.toNat, tmout⟩
  | _ => ∃ served, Served p s e t served

section

variable {p : MplCfg} {s t : MplSys} {m : Qmem} {w : MplWaiter} {ws : List MplWaiter}

theorem insertTpri_eq (priority : Tid → Nat) (w : MplWaiter) (ws : List MplWaiter) :
    MplSys.insertTpri priority w ws = KeyOrder.insert (fun x => priority x.tsk) w ws := by
  induction ws with
  | nil => rfl
  | cons q rest ih =>
    unfold MplSys.insertTpri
    by_cases hlt : priority w.tsk < priority q.tsk
    · rw [if_pos hlt]
      exact (@KeyOrder.insert_cons_of_lt _ _ _ (fun x : MplWaiter => priority x.tsk) _ _ _ hlt).symm
    · rw [if_neg hlt, ih]
      exact (@KeyOrder.insert_cons_of_le _ _ _ (fun x : MplWaiter => priority x.tsk) _ _ _
        (not_lt.1 hlt)).symm

/-- Getting a block makes no free area larger. -/
theorem MplInv.maxFreeSize_get (ok : p.Placed) (h : MplInv p s) {size blk : Nat}
    (hmod : size % 8 = 0) (hmin : MIN_FRAGMENT ≤ size)
    (hget : p.knlGetBlk s.mem size = some (blk, m)) :
    p.knlMaxFreeSize m ≤ p.knlMaxFreeSize s.mem := by
  obtain ⟨as, cs, rep, -⟩ := h.mem
  obtain ⟨as', cs', rep', hle⟩ := rep.getBlk_frees (MplCfg.pool_sound ok) hmod hmin hget
  have hold := MplCfg.maxFreeSize_largest rep
  rcases (MplCfg.maxFreeSize_largest rep').2 with ⟨-, hzero⟩ | ⟨x, hx, hsz⟩
  · rw [hzero]
    exact Nat.zero_le _
  · obtain ⟨y, hy, hxy⟩ := hle x hx
    have := hold.1 y hy
    omega

/-! ## The loop -/

theorem headWaits_wakeupLoop : HeadWaits p (MplSys.wakeupLoop p ws s) := by
  induction ws generalizing s with
  | nil => exact fun w hw => by cases hw
  | cons top rest ih =>
    unfold MplSys.wakeupLoop
    by_cases small : p.knlMaxFreeSize s.mem < top.blksz
    · rw [if_pos small]
      intro w hw
      obtain rfl : top = w := Option.some.inj hw
      exact small
    · rw [if_neg small]
      split
      · exact ih
      · exact ih

/-- What the loop does: `served` get a block each, and the others stay. -/
structure Wakes (ws : List MplWaiter) (s t : MplSys) (served : List MplWaiter) : Prop where
  line : ws = served ++ t.waitQueue
  ret : t.ret = s.ret ++ served.map fun w => (w.tsk, .E_OK)
  live : ∃ blks : List Nat, blks.length = served.length ∧
    t.live = (blks.zip (served.map (·.req))).reverse ++ s.live

theorem wakeupLoop_wakes (ok : p.Placed) (h : MplInv p s) (hws : ∀ w ∈ ws, w.Fits) :
    ∃ served, Wakes ws s (MplSys.wakeupLoop p ws s) served := by
  induction ws generalizing s with
  | nil => exact ⟨[], by simp [MplSys.wakeupLoop], by simp [MplSys.wakeupLoop], [], rfl, rfl⟩
  | cons top rest ih =>
    unfold MplSys.wakeupLoop
    by_cases small : p.knlMaxFreeSize s.mem < top.blksz
    · rw [if_pos small]
      exact ⟨[], by simp, by simp, [], rfl, rfl⟩
    · rw [if_neg small]
      have htop := hws top List.mem_cons_self
      cases hget : p.knlGetBlk s.mem top.blksz with
      | none => exact absurd hget (h.served htop (by omega))
      | some r =>
        have hgot := h.mem.get (MplCfg.pool_sound ok) htop.1 htop.2.1 htop.2.2 hget
        obtain ⟨served, wakes⟩ := ih ((h.moved hgot).retd top.tsk .E_OK)
          fun w hw => hws w (List.mem_cons_of_mem _ hw)
        obtain ⟨blks, hlen, hlive⟩ := wakes.live
        refine ⟨top :: served, ?_, ?_, r.1 :: blks, by simp [hlen], ?_⟩
        · rw [List.cons_append, ← wakes.line]
        · rw [wakes.ret]
          simp [MplSys.retd]
        · rw [hlive]
          simp [MplSys.retd]

theorem MplInv.wakes (ok : p.Placed) (h : MplInv p s) :
    ∃ served, Wakes s.waitQueue s (s.knlMplWakeup p) served :=
  wakeupLoop_wakes ok h h.waiters

/-! ## The calls -/

/-- A task that has to wait: either it goes to the head, or the head stays. -/
theorem HeadWaits.makeWait (h : HeadWaits p s)
    (hw : s.isTop p w.tsk = true → p.knlMaxFreeSize s.mem < w.blksz) :
    HeadWaits p (s.makeWait p w) := by
  intro x hx
  unfold MplSys.makeWait at hx
  cases hq : s.waitQueue with
  | nil =>
    have hxw : x = w := by
      rw [hq] at hx
      cases htpri : p.tpri <;> simp [htpri, MplSys.insertTpri] at hx <;> exact hx.symm
    rw [hxw]
    exact hw (by simp [MplSys.isTop, hq])
  | cons y rest =>
    rw [hq] at hx
    have hhead : s.waitQueue.head? = some y := by rw [hq]; rfl
    cases htpri : p.tpri with
    | false =>
      obtain rfl : y = x := by simpa [htpri] using hx
      exact h y hhead
    | true =>
      rw [htpri, if_pos rfl, insertTpri_eq] at hx
      by_cases hlt : s.priority w.tsk < s.priority y.tsk
      · rw [@KeyOrder.insert_cons_of_lt _ _ _ (fun x : MplWaiter => s.priority x.tsk) _ _ _ hlt] at hx
        obtain rfl : w = x := Option.some.inj hx
        exact hw (by simp [MplSys.isTop, hq, htpri, hlt])
      · rw [@KeyOrder.insert_cons_of_le _ _ _ (fun x : MplWaiter => s.priority x.tsk) _ _ _
          (not_lt.1 hlt)] at hx
        obtain rfl : y = x := Option.some.inj hx
        exact h y hhead

theorem HeadWaits.tkGetMpl (ok : p.Placed) (inv : MplInv p s) (h : HeadWaits p s) (self : Tid)
    (ddsp : Bool) (blksz : Int) (tmout : Tmo) :
    HeadWaits p (s.tkGetMpl p self ddsp blksz tmout) := by
  obtain ⟨hmod, hmin, hreq⟩ := MplCfg.roundSize_ok blksz
  unfold MplSys.tkGetMpl
  split
  · exact h
  split
  · exact h
  split
  · exact h
  split
  · exact h
  split
  · rename_i blk m hget
    split at hget
    · intro w hw
      exact Nat.lt_of_le_of_lt (inv.maxFreeSize_get ok hmod hmin hget) (h w hw)
    · cases hget
  · rename_i hnone
    have hsmall : s.isTop p self = true → p.knlMaxFreeSize s.mem < roundSize blksz := by
      intro htop
      rw [if_pos htop] at hnone
      by_contra hle
      have hfits : MplWaiter.Fits ⟨self, roundSize blksz, blksz.toNat, tmout⟩ := ⟨hmod, hmin, hreq⟩
      exact inv.served hfits (not_lt.1 hle) hnone
    cases tmout with
    | TMO_POL => exact h
    | TMO_FEVR => exact h.makeWait hsmall
    | after ms => exact h.makeWait hsmall

theorem HeadWaits.tkRelMpl (h : HeadWaits p s) (self : Tid) (ddsp : Bool) (blk : Nat) :
    HeadWaits p (s.tkRelMpl p self ddsp blk) := by
  unfold MplSys.tkRelMpl
  split
  · exact h
  split
  · exact h
  split
  · exact h
  split
  · exact h
  · exact headWaits_wakeupLoop

theorem HeadWaits.chgPri (h : HeadWaits p s) (t : Tid) (priority : Nat) :
    HeadWaits p (s.chgPri p t priority) := by
  unfold MplSys.chgPri
  dsimp only
  split
  · exact headWaits_wakeupLoop
  · exact h

/-- What a task writes into its block is not in the free queue. -/
theorem maxFreeSize_store (inv : MplInv p s) {blk a next prev : Nat}
    (hs : MplSys.step p s (.store blk a next prev) = some t) :
    p.knlMaxFreeSize t.mem = p.knlMaxFreeSize s.mem := by
  dsimp only [MplSys.step] at hs
  split at hs
  · rename_i hin
    obtain rfl := Option.some.inj hs
    obtain ⟨x, hx, hb⟩ := List.any_eq_true.1 hin
    simp only [Bool.and_eq_true, beq_iff_eq, decide_eq_true_eq] at hb
    obtain ⟨as, cs, rep, live⟩ := inv.mem
    obtain ⟨b, hbm, hu, hblk, hle⟩ := live.area hx
    have hstore : ∀ n, n < b.blk ∨ b.blk + b.sz ≤ n →
        ((s.mem.setNext a next).setPrev a prev).next n = s.mem.next n ∧
        ((s.mem.setNext a next).setPrev a prev).prev n = s.mem.prev n := by
      intro n hn
      have hne : n ≠ a := by omega
      exact ⟨Function.update_of_ne hne _ _, Function.update_of_ne hne _ _⟩
    have rep' := rep.fill hbm hu hstore
    have h1 := MplCfg.maxFreeSize_largest rep
    have h2 := MplCfg.maxFreeSize_largest rep'
    show p.knlMaxFreeSize ((s.mem.setNext a next).setPrev a prev) = p.knlMaxFreeSize s.mem
    rcases h1.2 with ⟨hnil, hz⟩ | ⟨y, hy, hsz⟩
    · rcases h2.2 with ⟨-, hz'⟩ | ⟨y', hy', -⟩
      · rw [hz, hz']
      · rw [hnil] at hy'
        cases hy'
    · rcases h2.2 with ⟨hnil, -⟩ | ⟨y', hy', hsz'⟩
      · rw [hnil] at hy
        cases hy
      · have := h1.1 y' hy'
        have := h2.1 y hy
        omega
  · cases hs

theorem headWaits_step (ok : p.Placed) (inv : MplInv p s) (h : HeadWaits p s) {e : MplEvent}
    (hs : MplSys.step p s e = some t) : HeadWaits p t := by
  cases e with
  | tkGetMpl self ddsp blksz tmout =>
    simp only [MplSys.step, Option.ite_none_left_eq_some] at hs
    obtain rfl := Option.some.inj hs.2
    exact h.tkGetMpl ok inv self ddsp blksz tmout
  | tkRelMpl self ddsp blk =>
    simp only [MplSys.step, Option.ite_none_right_eq_some] at hs
    obtain rfl := Option.some.inj hs.2
    exact h.tkRelMpl self ddsp blk
  | timeout t =>
    simp only [MplSys.step, Option.ite_none_right_eq_some] at hs
    obtain rfl := Option.some.inj hs.2
    exact headWaits_wakeupLoop
  | tkRelWai t =>
    simp only [MplSys.step, Option.ite_none_right_eq_some] at hs
    obtain rfl := Option.some.inj hs.2
    exact headWaits_wakeupLoop
  | tkTerTsk t =>
    simp only [MplSys.step, Option.ite_none_right_eq_some] at hs
    obtain rfl := Option.some.inj hs.2
    exact headWaits_wakeupLoop
  | chgPri t priority =>
    obtain rfl := Option.some.inj hs
    exact h.chgPri t priority
  | tkDelMpl =>
    obtain rfl := Option.some.inj hs
    unfold MplSys.tkDelMpl
    split
    · exact h
    · exact fun w hw => by cases hw
  | store blk a next prev =>
    intro w hw
    rw [maxFreeSize_store inv hs]
    simp only [MplSys.step, Option.ite_none_right_eq_some] at hs
    obtain rfl := Option.some.inj hs.2
    exact h w hw

theorem headWaits_of_reachable (ok : p.Placed) (h : (mplMachine p).Reachable s) :
    HeadWaits p s := by
  have hboth := h.invariant (fun s => MplInv p s ∧ HeadWaits p s) ?_
    fun s e t hinv _ hs => ⟨mplInv_step ok hinv.1 hs, headWaits_step ok hinv.1 hinv.2 hs⟩
  · exact hboth.2
  · rintro s hinit
    refine ⟨mplInv_of_reachable ok ⟨s, hinit, .refl s⟩, ?_⟩
    obtain ⟨-, m, priority, rfl⟩ := hinit
    exact fun w hw => by cases hw

/-! ## The order -/

theorem Served.of_wakes {e : MplEvent} {s₀ : MplSys} {served : List MplWaiter}
    (wakes : Wakes s₀.waitQueue s₀ t served) (hline : s.lineUp p e = s₀.waitQueue)
    (hlive : s₀.live.Sublist s.live) {before : List (Tid × ER)} (hret : s₀.ret = s.ret ++ before)
    (hbefore : ∀ x ∈ before, x.2 ≠ .E_OK) : Served p s e t served := by
  obtain ⟨blks, hlen, hl⟩ := wakes.live
  refine ⟨hline.trans wakes.line, ⟨before, [], ?_, hbefore, fun x hx => by cases hx⟩,
    blks, s₀.live, hlen, hlive, hl⟩
  rw [wakes.ret, hret, List.append_nil]

/-- An event that gives out no block. -/
theorem Served.none {e : MplEvent} (hline : s.lineUp p e = t.waitQueue)
    (hlive : t.live.Sublist s.live) {ret : List (Tid × ER)} (hret : t.ret = s.ret ++ ret)
    (hno : ∀ x ∈ ret, x.2 ≠ .E_OK) : Served p s e t [] :=
  ⟨hline, ⟨ret, [], by simp [hret], hno, fun x hx => by cases hx⟩, [], t.live, rfl, hlive, rfl⟩

theorem served_endWait (ok : p.Placed) (inv : MplInv p s) (u : Tid) {er : Option ER}
    (her : er ≠ some .E_OK) {e : MplEvent}
    (hline : s.lineUp p e = s.waitQueue.eraseP (·.tsk == u)) :
    ∃ served, Served p s e (s.endWait p u er) served := by
  have hq : MplInv p { s with waitQueue := s.waitQueue.eraseP (·.tsk == u) } :=
    inv.queue fun w hw => inv.waiters w (List.mem_of_mem_eraseP hw)
  unfold MplSys.endWait
  cases er with
  | none =>
    obtain ⟨served, wakes⟩ := hq.wakes ok
    exact ⟨served, .of_wakes wakes hline (List.Sublist.refl _) (List.append_nil _).symm
      fun x hx => by cases hx⟩
  | some er =>
    obtain ⟨served, wakes⟩ := (hq.retd u er).wakes ok
    refine ⟨served, .of_wakes wakes hline (List.Sublist.refl _) rfl fun x hx => ?_⟩
    rw [List.mem_singleton.1 hx]
    exact fun hok => her (hok ▸ rfl)

theorem served_tkRelMpl (ok : p.Placed) (inv : MplInv p s) (self : Tid) (ddsp : Bool) {blk : Nat}
    (hlive : s.isLive blk = true) :
    ∃ served, Served p s (.tkRelMpl self ddsp blk) (s.tkRelMpl p self ddsp blk) served := by
  have herr : ∀ er : ER, er ≠ .E_OK →
      ∃ served, Served p s (.tkRelMpl self ddsp blk) (s.retd self er) served := fun er her =>
    ⟨[], .none rfl (List.Sublist.refl _) rfl fun x hx => by rw [List.mem_singleton.1 hx]; exact her⟩
  unfold MplSys.tkRelMpl
  split
  · exact herr _ (by simp)
  split
  · exact herr _ (by simp)
  split
  · exact herr _ (by simp)
  split
  · exact herr _ (by simp)
  rename_i m hrel
  unfold MplCfg.knlRelBlk at hrel
  split at hrel
  · cases hrel
  obtain rfl := Option.some.inj hrel
  have hmem : ∃ x ∈ s.live, x.1 = blk := by simpa [MplSys.isLive] using hlive
  obtain ⟨x, hx, rfl⟩ := hmem
  have hrel := inv.mem.rel (MplCfg.pool_sound ok) hx fun hfix => by cases hfix
  obtain ⟨served, wakes⟩ := (inv.moved hrel).wakes ok
  obtain ⟨blks, hlen, hl⟩ := wakes.live
  refine ⟨served, wakes.line, ⟨[], [(self, .E_OK)], ?_, by simp, fun y hy _ => ?_⟩,
    blks, _, hlen, List.eraseP_sublist, hl⟩
  · show _ ++ _ = _
    rw [wakes.ret, List.append_nil]
  · rw [List.mem_singleton.1 hy]
    exact ⟨ddsp, x.1, rfl⟩

theorem served_chgPri (ok : p.Placed) (inv : MplInv p s) (u : Tid) (priority : Nat) :
    ∃ served, Served p s (.chgPri u priority) (s.chgPri p u priority) served := by
  have hinv := inv.chgPri ok u priority
  unfold MplSys.chgPri
  dsimp only
  cases htpri : p.tpri with
  | false =>
    exact ⟨[], .none (by simp [MplSys.lineUp, htpri]) (List.Sublist.refl _)
      (List.append_nil _).symm fun x hx => by cases hx⟩
  | true =>
    cases hfind : s.waitQueue.find? (·.tsk == u) with
    | none =>
      exact ⟨[], .none (by simp [MplSys.lineUp, htpri, hfind]) (List.Sublist.refl _)
        (List.append_nil _).symm fun x hx => by cases hx⟩
    | some x =>
      let s₀ : MplSys :=
        { s with
          priority := Function.update s.priority u priority
          waitQueue := MplSys.insertTpri (Function.update s.priority u priority) x
            (s.waitQueue.eraseP (·.tsk == u)) }
      have h₀ : MplInv p s₀ := by
        refine ⟨fun y hy => ?_, inv.mem⟩
        rcases mem_insertTpri.1 hy with rfl | hy
        · exact inv.waiters _ (List.mem_of_find?_eq_some hfind)
        · exact inv.waiters y (List.mem_of_mem_eraseP hy)
      obtain ⟨served, wakes⟩ := h₀.wakes ok
      exact ⟨served, .of_wakes wakes (by simp [MplSys.lineUp, htpri, hfind, s₀])
        (List.Sublist.refl _) (List.append_nil _).symm fun x hx => by cases hx⟩

theorem servesInOrder_tkGetMpl (self : Tid) (ddsp : Bool) (blksz : Int) (tmout : Tmo) :
    ServesInOrder p s (.tkGetMpl self ddsp blksz tmout) (s.tkGetMpl p self ddsp blksz tmout) := by
  have herr : ∀ er : ER, er ≠ .E_OK →
      ServesInOrder p s (.tkGetMpl self ddsp blksz tmout) (s.retd self er) := fun er her =>
    .inl ⟨rfl, er, rfl, fun hok => absurd hok her⟩
  unfold MplSys.tkGetMpl
  split
  · exact herr _ (by simp)
  split
  · exact herr _ (by simp)
  split
  · exact herr _ (by simp)
  split
  · exact herr _ (by simp)
  split
  · rename_i blk m hget
    split at hget
    · rename_i htop
      exact .inl ⟨rfl, .E_OK, rfl, fun _ => htop⟩
    · cases hget
  · cases tmout with
    | TMO_POL => exact herr _ (by simp)
    | TMO_FEVR => exact .inr rfl
    | after ms => exact .inr rfl

theorem servesInOrder_step (ok : p.Placed) (inv : MplInv p s) {e : MplEvent}
    (hs : MplSys.step p s e = some t) : ServesInOrder p s e t := by
  cases e with
  | tkGetMpl self ddsp blksz tmout =>
    simp only [MplSys.step, Option.ite_none_left_eq_some] at hs
    obtain rfl := Option.some.inj hs.2
    exact servesInOrder_tkGetMpl self ddsp blksz tmout
  | tkRelMpl self ddsp blk =>
    simp only [MplSys.step, Option.ite_none_right_eq_some] at hs
    obtain rfl := Option.some.inj hs.2
    exact served_tkRelMpl ok inv self ddsp hs.1.2
  | timeout u =>
    simp only [MplSys.step, Option.ite_none_right_eq_some] at hs
    obtain rfl := Option.some.inj hs.2
    exact served_endWait ok inv u (by simp) rfl
  | tkRelWai u =>
    simp only [MplSys.step, Option.ite_none_right_eq_some] at hs
    obtain rfl := Option.some.inj hs.2
    exact served_endWait ok inv u (by simp) rfl
  | tkTerTsk u =>
    simp only [MplSys.step, Option.ite_none_right_eq_some] at hs
    obtain rfl := Option.some.inj hs.2
    exact served_endWait ok inv u (by simp) rfl
  | chgPri u priority =>
    obtain rfl := Option.some.inj hs
    exact served_chgPri ok inv u priority
  | tkDelMpl =>
    obtain rfl := Option.some.inj hs
    unfold MplSys.tkDelMpl
    by_cases hex : s.exists_ = true
    · rw [if_neg (by simp [hex])]
      refine ⟨[], .none (by simp [MplSys.lineUp, hex]) (List.Sublist.refl _) rfl fun x hx => ?_⟩
      obtain ⟨y, -, rfl⟩ := List.mem_map.1 hx
      simp
    · rw [if_pos (by simpa using hex)]
      exact ⟨[], .none (by simp [MplSys.lineUp, hex]) (List.Sublist.refl _)
        (List.append_nil _).symm fun x hx => by cases hx⟩
  | store blk a next prev =>
    simp only [MplSys.step, Option.ite_none_right_eq_some] at hs
    obtain rfl := Option.some.inj hs.2
    exact ⟨[], .none rfl (List.Sublist.refl _) (List.append_nil _).symm fun x hx => by cases hx⟩

end

theorem pool_waits (p : MplCfg) (ok : p.Placed) {s : MplSys} (h : (mplMachine p).Reachable s) :
    HeadWaits p s ∧ ∀ e t, (mplMachine p).step s e = some t → ServesInOrder p s e t :=
  ⟨headWaits_of_reachable ok h, fun _ _ hs => servesInOrder_step ok (mplInv_of_reachable ok h) hs⟩

/-- A pool of 64 bytes: task 3 waits behind task 2, whose timeout lets it have its block. -/
theorem pool_waits_timeout :
    ∃ (s t : MplSys), s.waitQueue.map (·.tsk) = [2, 3] ∧ t.waitQueue.map (·.tsk) = [] ∧
      HeadWaits ⟨true, false, 64, 1024, 512⟩ s ∧
      ServesInOrder ⟨true, false, 64, 1024, 512⟩ s (.timeout 2) t := by
  let p : MplCfg := ⟨true, false, 64, 1024, 512⟩
  have ok : p.Placed := ⟨by decide, by decide, by decide, by decide, by decide⟩
  let es : List MplEvent := [.tkGetMpl 0 false 24 .TMO_POL, .tkGetMpl 2 false 48 (.after 5),
    .tkGetMpl 3 false 10 .TMO_FEVR]
  have trace : (((mplMachine p).exec (fun _ _ => true)
      (MplSys.created p ⟨fun _ => 0, fun _ => 0⟩ fun t => t) es).any fun s =>
        s.waitQueue.map (·.tsk) == [2, 3] &&
          (MplSys.step p s (.timeout 2)).any fun t => t.waitQueue.map (·.tsk) == []) = true := by
    decide +kernel
  obtain ⟨s, hs, hp⟩ := Lts.reachable_of_trace (L := mplMachine p) es
    ⟨⟨by decide, by decide⟩, ⟨fun _ => 0, fun _ => 0⟩, fun t => t, rfl⟩ trace
  simp only [Bool.and_eq_true, beq_iff_eq, Option.any_eq_true] at hp
  obtain ⟨hq, t, ht, hnil⟩ := hp
  have hsafe := pool_waits p ok hs
  exact ⟨s, t, hq, hnil, hsafe.1, hsafe.2 _ t ht⟩

end Mtk3Smp
