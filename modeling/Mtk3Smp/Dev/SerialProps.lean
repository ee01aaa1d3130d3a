import Mtk3Smp.Dev.Serial

/-!
# What the rings of the serial driver keep

Every byte received without error has been read, is in the ring, or was met by a full ring, and
every byte written has gone to the UART, is in the ring, or is with the handler. A task that
waits for its flag finds its ring empty (full), unless the handler is about to set the flag.
-/

namespace Mtk3Smp

open Gcb

/-! ## The rings -/

theorem serNext_eq {i : Nat} (h : i < DEVCONF_SER_BUFFSIZE) :
    serNext i = (i + 1) % DEVCONF_SER_BUFFSIZE := by
  unfold serNext
  split
  · rw [show i + 1 = DEVCONF_SER_BUFFSIZE by omega, Nat.mod_self]
  · rw [Nat.mod_eq_of_lt (by omega)]

theorem serNext_lt (i : Nat) : serNext i < DEVCONF_SER_BUFFSIZE := by
  unfold serNext
  split
  · decide
  · omega

namespace SerBuff

variable {b : SerBuff} {x : UInt8}

/-- The indices are inside the buffer. -/
structure Bounded (b : SerBuff) : Prop where
  top : b.top < DEVCONF_SER_BUFFSIZE
  tail : b.tail < DEVCONF_SER_BUFFSIZE

theorem Bounded.count_lt (h : b.Bounded) : b.count < DEVCONF_SER_BUFFSIZE := by
  have htop := h.top
  have htail := h.tail
  unfold count
  split <;> omega

theorem Bounded.tail_add_count (h : b.Bounded) :
    (b.tail + b.count) % DEVCONF_SER_BUFFSIZE = b.top := by
  have htop := h.top
  have htail := h.tail
  rw [Cyclic.index_eq htail h.count_lt]
  unfold count
  split <;> split <;> omega

theorem contents_empty (h : b.top = b.tail) : b.contents = [] := by
  have hcount : b.count = 0 := by
    unfold count
    rw [if_neg (by omega)]
    omega
  rw [contents, hcount, Cyclic.read_zero]

/-- A byte goes to the end of the ring. -/
theorem Bounded.store (h : b.Bounded) (hroom : serNext b.top ≠ b.tail) :
    (b.store x (serNext b.top)).Bounded ∧
      (b.store x (serNext b.top)).contents = b.contents ++ [x] := by
  have htop := h.top
  have htail := h.tail
  have hcount : (b.store x (serNext b.top)).count = b.count + 1 := by
    show (if serNext b.top < b.tail then serNext b.top + DEVCONF_SER_BUFFSIZE - b.tail
      else serNext b.top - b.tail) =
      (if b.top < b.tail then b.top + DEVCONF_SER_BUFFSIZE - b.tail else b.top - b.tail) + 1
    by_cases hwrap : b.top + 1 ≥ DEVCONF_SER_BUFFSIZE
    · rw [serNext, if_pos hwrap] at hroom ⊢
      split <;> split <;> omega
    · rw [serNext, if_neg hwrap] at hroom ⊢
      split <;> split <;> omega
  have hlt : b.count + 1 < DEVCONF_SER_BUFFSIZE := by
    have hb : (b.store x (serNext b.top)).Bounded := ⟨serNext_lt b.top, htail⟩
    rw [← hcount]
    exact hb.count_lt
  refine ⟨⟨serNext_lt b.top, htail⟩, ?_⟩
  rw [contents, hcount]
  show Cyclic.read DEVCONF_SER_BUFFSIZE (Function.update b.data b.top x) b.tail (b.count + 1) = _
  rw [Cyclic.read_concat htail h.count_lt, h.tail_add_count, Function.update_self]
  conv_lhs => rw [← h.tail_add_count]
  rw [Cyclic.read_update htail h.count_lt]
  rfl

/-- The oldest byte leaves the ring. -/
theorem Bounded.pop (h : b.Bounded) (hne : b.top ≠ b.tail) :
    ({ b with tail := serNext b.tail } : SerBuff).Bounded ∧
      b.contents = b.data b.tail :: ({ b with tail := serNext b.tail } : SerBuff).contents := by
  have htop := h.top
  have htail := h.tail
  have hcount : b.count = ({ b with tail := serNext b.tail } : SerBuff).count + 1 := by
    show b.count = (if b.top < serNext b.tail then b.top + DEVCONF_SER_BUFFSIZE - serNext b.tail
      else b.top - serNext b.tail) + 1
    unfold count serNext
    split <;> split <;> split <;> omega
  refine ⟨⟨htop, serNext_lt b.tail⟩, ?_⟩
  have hlt := h.count_lt
  rw [contents, hcount, Cyclic.read_cons htail (by omega), ← serNext_eq htail]
  rfl

end SerBuff

/-! ## A flag that one task waits for -/

/-- Bit 0 of the flag is set. -/
def FlgSys.rung (f : FlgSys) : Prop := f.flgptn &&& 1 ≠ 0

/-- The only task that waits for the flag is `t`, for bit 0, which is not set then. -/
structure OneWaiter (f : FlgSys) (t : Tid) : Prop where
  exists_ : f.exists_ = true
  queue : f.waitQueue = [] ∨ ∃ x, f.waitQueue = [x] ∧ x.tsk = t ∧ x.winfo.waiptn = 1 ∧
    x.winfo.wfmode = TWF_ORW ||| TWF_BITCLR
  unset : f.waitQueue ≠ [] → ¬ f.rung

namespace OneWaiter

variable {f g : FlgSys} {t : Tid} {w : FlgWinfo} {p : BitVec 32}

theorem created (priority : Tid → Nat) : OneWaiter (FlgSys.created serCflg priority) t where
  exists_ := rfl
  queue := .inl rfl
  unset h := absurd rfl h

theorem queue_nil (h : OneWaiter f t) (hw : waiting t f.waitQueue = false) : f.waitQueue = [] := by
  rcases h.queue with hq | ⟨x, hq, ht, -⟩
  · exact hq
  · rw [hq] at hw
    simp [waiting, ht] at hw

theorem cond_iff (hp : w.waiptn = 1) (hm : w.wfmode = TWF_ORW ||| TWF_BITCLR) :
    w.cond p = true ↔ p &&& 1 ≠ 0 := by
  unfold FlgWinfo.cond knlEventflagCond
  rw [hp, hm, if_pos (by decide)]
  exact decide_eq_true_iff

/-- tk_set_flg: the task goes on, or the bit stays set. -/
theorem tkSetFlg (h : OneWaiter f t) : OneWaiter (f.tkSetFlg 1).1 t ∧
    (f.tkSetFlg 1).1.waitQueue = [] ∧ (f.waitQueue = [] → (f.tkSetFlg 1).1.rung) := by
  have hset : ((f.flgptn ||| 1) &&& 1 : BitVec 32) ≠ 0 := by
    have hbit : ((f.flgptn ||| 1) &&& 1 : BitVec 32) = 1 := by
      ext i
      simp +contextual
    rw [hbit]
    decide
  have heq := tkSetFlg_eq_fullScan f 1 h.exists_
  rcases h.queue with hq | ⟨x, hq, ht, hp, hm⟩
  · rw [heq, hq, fullScan]
    exact ⟨⟨h.exists_, .inl rfl, fun hne => absurd rfl hne⟩, rfl, fun _ => hset⟩
  · rw [heq, hq, fullScan, if_pos ((cond_iff hp hm).2 hset), fullScan]
    exact ⟨⟨h.exists_, .inl rfl, fun hne => absurd rfl hne⟩, rfl, fun hc => by cases hc⟩

/-- tk_clr_flg -/
theorem tkClrFlg (h : OneWaiter f t) : OneWaiter (f.tkClrFlg 0).1 t ∧
    (f.tkClrFlg 0).1.waitQueue = f.waitQueue := by
  have heq : f.tkClrFlg 0 = ({ f with flgptn := f.flgptn &&& 0 }, .E_OK) := by
    unfold FlgSys.tkClrFlg
    rw [h.exists_]
    rfl
  rw [heq]
  refine ⟨⟨h.exists_, h.queue, fun _ hr => hr ?_⟩, rfl⟩
  show (f.flgptn &&& 0) &&& 1 = 0
  simp

/-- A return without a wait. -/
theorem retd (h : OneWaiter f t) (v : Tid) (e : ER) (x : Option (BitVec 32)) :
    OneWaiter (f.retd v e x) t :=
  ⟨h.exists_, h.queue, h.unset⟩

/-- tk_wai_flg: the task waits only when the bit is not set. -/
theorem tkWaiFlg (h : OneWaiter f t) (hq : f.waitQueue = []) (ddsp : Bool) (tmo : Tmo) :
    OneWaiter (f.tkWaiFlg serCflg t ddsp 1 (TWF_ORW ||| TWF_BITCLR) tmo) t ∧
      ((f.tkWaiFlg serCflg t ddsp 1 (TWF_ORW ||| TWF_BITCLR) tmo).waitQueue ≠ [] → ¬ f.rung) := by
  unfold FlgSys.tkWaiFlg
  rw [dif_neg (by decide), if_neg (by decide)]
  split
  · exact ⟨h.retd _ _ _, fun hne => absurd hq hne⟩
  · rw [if_neg (show ¬ (!f.exists_) = true by rw [h.exists_]; decide), if_neg fun hc => hc.2 hq]
    split
    · exact ⟨⟨h.exists_, .inl hq, fun hne => absurd hq hne⟩, fun hne => absurd hq hne⟩
    · rename_i hcond
      have hunset : ¬ f.rung := fun hr => hcond ((cond_iff (w := ⟨1, _, by decide⟩) rfl rfl).2 hr)
      split
      · exact ⟨h.retd _ _ _, fun hne => absurd hq hne⟩
      · refine ⟨⟨h.exists_, ?_, fun _ => hunset⟩, fun _ => hunset⟩
        rw [hq]
        exact .inr ⟨_, rfl, rfl, rfl, rfl⟩

/-- The task leaves the queue. -/
theorem endWait (h : OneWaiter f t) (v : Tid) (e : ER) : OneWaiter (f.endWait v (some e)) t ∧
    ((f.endWait v (some e)).waitQueue = [] ∨ (f.endWait v (some e)).waitQueue = f.waitQueue) := by
  have hqueue : queRemove v f.waitQueue = [] ∨ queRemove v f.waitQueue = f.waitQueue := by
    rcases h.queue with hq | ⟨x, hq, -⟩
    · rw [hq]
      exact .inl rfl
    · rw [hq]
      by_cases hx : x.tsk = v
      · exact .inl (by simp [queRemove, hx])
      · exact .inr (by simp [queRemove, hx])
  refine ⟨?_, hqueue⟩
  rcases hqueue with hq | hq
  · exact ⟨h.exists_, .inl hq, fun hne => absurd hq hne⟩
  · have hsame : (f.endWait v (some e)).waitQueue = f.waitQueue := hq
    refine ⟨h.exists_, ?_, ?_⟩
    · rw [hsame]
      exact h.queue
    · rw [hsame]
      exact h.unset

/-- The wait ends without the flag, or a priority changes. -/
theorem external {e : FlgEvent} (h : OneWaiter f t) (he : SerSys.external e = true)
    (hs : FlgSys.step serCflg f e = some g) : OneWaiter g t ∧
      (g.waitQueue = [] ∨ g.waitQueue = f.waitQueue) ∧ (g.rung ↔ f.rung) := by
  cases e with
  | timeout v =>
    simp only [FlgSys.step, Option.ite_none_right_eq_some] at hs
    obtain rfl := Option.some.inj hs.2
    exact ⟨(h.endWait v _).1, (h.endWait v _).2, Iff.rfl⟩
  | tkRelWai v =>
    simp only [FlgSys.step, Option.ite_none_right_eq_some] at hs
    obtain rfl := Option.some.inj hs.2
    exact ⟨(h.endWait v _).1, (h.endWait v _).2, Iff.rfl⟩
  | chgPri v priority =>
    obtain rfl := Option.some.inj hs
    exact ⟨⟨h.exists_, h.queue, h.unset⟩, .inr rfl, Iff.rfl⟩
  | _ => cases he

end OneWaiter

end Mtk3Smp
