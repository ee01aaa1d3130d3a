import Mtk3Smp.Ipc.RendezvousWaits
import Mtk3Smp.Lib.Monitor

/-!
# The conversation of a caller with those who accept its call

What happens to one caller, and to one task that accepts, goes by a protocol: a message is accepted
once and as it was sent, under a number that is answered once, by a reply that the caller gets as
it is or by a forwarding, from which the message of that goes on in its place.
-/

namespace Mtk3Smp

/-- Where the conversation of a caller is. -/
inductive CallTurn
  | idle
  /-- a message waits to be accepted -/
  | sent (msg : List UInt8)
  /-- the call has been accepted under this number -/
  | meeting (rdvno : Nat)
  | forwarded
  | replied (msg : List UInt8)
  | broken
  deriving DecidableEq

/-- tk_cal_por may return an error: it has sent nothing, its message has not been accepted, or
the rendezvous has broken up. -/
def CallTurn.fails : CallTurn → Bool
  | .idle | .sent _ | .broken => true
  | _ => false

def CallTurn.next (c : Tid) (x : CallTurn) : RdvRecord → Option CallTurn
  | .sent t msg =>
    if t = c then (if x = .idle ∨ x = .forwarded then some (.sent msg) else none) else some x
  | .accepted n t _ msg =>
    if t = c then (if x = .sent msg then some (.meeting n) else none) else some x
  | .forwarded n =>
    if getTcbRdvno n = c then (if x = .meeting n then some .forwarded else none) else some x
  | .replied n msg =>
    if getTcbRdvno n = c then (if x = .meeting n then some (.replied msg) else none) else some x
  | .broken n =>
    if getTcbRdvno n = c then (if x = .meeting n then some .broken else none) else some x
  | .calRet t (.ok msg) =>
    if t = c then (if x = .replied msg then some .idle else none) else some x
  | .calRet t (.error _) => if t = c then (if x.fails then some .idle else none) else some x
  | .terminated t => if t = c then some .idle else some x
  | .acpRet _ _ => some x

def callProtocol (c : Tid) : Monitor CallTurn RdvRecord :=
  { start := .idle, next := CallTurn.next c }

/-- Where a task is that accepts calls. -/
inductive AcceptTurn
  | idle
  | got (rdvno : Nat) (msg : List UInt8)
  deriving DecidableEq

def AcceptTurn.next (a : Tid) (x : AcceptTurn) : RdvRecord → Option AcceptTurn
  | .accepted n _ t msg =>
    if t = a then (if x = .idle then some (.got n msg) else none) else some x
  | .acpRet t (.ok r) => if t = a then (if x = .got r.1 r.2 then some .idle else none) else some x
  | .acpRet t (.error _) => if t = a then (if x = .idle then some .idle else none) else some x
  | .terminated t => if t = a then some .idle else some x
  | _ => some x

def acceptProtocol (a : Tid) : Monitor AcceptTurn RdvRecord :=
  { start := .idle, next := AcceptTurn.next a }

/-- A record that is about the conversations of `t`. -/
def RdvRecord.About (t : Tid) : RdvRecord → Prop
  | .sent c _ | .calRet c _ => c = t
  | .accepted _ c a _ => c = t ∨ a = t
  | .replied n _ | .forwarded n | .broken n => getTcbRdvno n = t
  | .acpRet a _ => a = t
  | .terminated u => u = t

/-- A task, its blocking call and its frame, with where its conversations are. -/
inductive TaskTalks : Option PorWait → Option PorCall → PorFrame → CallTurn → AcceptTurn → Prop
  | out (f : PorFrame) : TaskTalks none none f .idle .idle
  | calling (p : Nat) (b : Bool) (calptn : BitVec 32) (n : Nat) (f : PorFrame)
    (h : f.ercd = .E_TMOUT) :
    TaskTalks (some (.cal p b calptn n)) (some .cal) f (.sent (f.msg.read n)) .idle
  | meeting (n m : Nat) (f : PorFrame) (h : f.ercd = .E_TMOUT) :
    TaskTalks (some (.rdv n m)) (some .cal) f (.meeting n) .idle
  | replied (f : PorFrame) (h : f.ercd = .E_OK) :
    TaskTalks none (some .cal) f (.replied (f.msg.read f.msgsz)) .idle
  | failed (f : PorFrame) (x : CallTurn) (h : f.ercd ≠ .E_OK) (hx : x.fails = true) :
    TaskTalks none (some .cal) f x .idle
  | accepting (p : Nat) (acpptn : BitVec 32) (f : PorFrame) (h : f.ercd = .E_TMOUT) :
    TaskTalks (some (.acp p acpptn)) (some .acp) f .idle .idle
  | accepted (f : PorFrame) (h : f.ercd = .E_OK) :
    TaskTalks none (some .acp) f .idle (.got f.rdvno (f.msg.read f.msgsz))
  | refused (f : PorFrame) (h : f.ercd ≠ .E_OK) : TaskTalks none (some .acp) f .idle .idle

/-- What a state says about the conversations of a task. -/
def Talks (wait : Tid → Option PorWait) (call : Tid → Option PorCall) (frame : Tid → PorFrame)
    (log : List RdvRecord) (t : Tid) : Prop :=
  ∃ x y, (callProtocol t).after log = some x ∧ (acceptProtocol t).after log = some y ∧
    TaskTalks (wait t) (call t) (frame t) x y

section

variable {wait : Tid → Option PorWait} {call : Tid → Option PorCall} {frame : Tid → PorFrame}
  {log : List RdvRecord} {t : Tid} {r : RdvRecord}

theorem CallTurn.next_other (h : ¬ r.About t) (x : CallTurn) : x.next t r = some x := by
  cases r with
  | sent c msg => exact if_neg h
  | accepted n c a msg => exact if_neg fun he => h (.inl he)
  | calRet c r => cases r <;> exact if_neg h
  | acpRet a r => rfl
  | _ => exact if_neg h

theorem AcceptTurn.next_other (h : ¬ r.About t) (y : AcceptTurn) : y.next t r = some y := by
  cases r with
  | accepted n c a msg => exact if_neg fun he => h (.inr he)
  | acpRet a r => cases r <;> exact if_neg h
  | terminated u => exact if_neg h
  | _ => rfl

/-- The conversations of a task go on only with what is about it. -/
theorem after_other (h : ¬ r.About t) :
    (callProtocol t).after (r :: log) = (callProtocol t).after log ∧
      (acceptProtocol t).after (r :: log) = (acceptProtocol t).after log :=
  ⟨Monitor.after_cons_other (CallTurn.next_other h),
    Monitor.after_cons_other (AcceptTurn.next_other h)⟩

theorem Talks.other (h : Talks wait call frame log t) (hr : ¬ r.About t) :
    Talks wait call frame (r :: log) t := by
  obtain ⟨x, y, hx, hy, ht⟩ := h
  obtain ⟨hcall, haccept⟩ := @after_other log t r hr
  exact ⟨x, y, hcall.trans hx, haccept.trans hy, ht⟩

/-- Only `t` changes. -/
theorem talks_of_ne {wait' : Tid → Option PorWait} {call' : Tid → Option PorCall}
    {frame' : Tid → PorFrame} (h : ∀ u, u ≠ t → Talks wait call frame log u)
    (hw : ∀ u, u ≠ t → wait' u = wait u) (hc : ∀ u, u ≠ t → call' u = call u)
    (hf : ∀ u, u ≠ t → frame' u = frame u) (ht : Talks wait' call' frame' log t) :
    ∀ u, Talks wait' call' frame' log u := by
  intro u
  by_cases hu : u = t
  · rw [hu]
    exact ht
  · obtain ⟨x, y, hx, hy, hux⟩ := h u hu
    refine ⟨x, y, hx, hy, ?_⟩
    rw [hw u hu, hc u hu, hf u hu]
    exact hux

/-- The task `a` accepts the message that `c` has sent. -/
theorem talks_accept {c a : Tid} {rdvno m : Nat} {msg : List UInt8}
    {wait' : Tid → Option PorWait} {frame' : Tid → PorFrame}
    (h : ∀ u, u ≠ c → u ≠ a → Talks wait call frame log u) (hac : a ≠ c)
    (hsent : (callProtocol c).after log = some (.sent msg))
    (hidle : (acceptProtocol c).after log = some .idle) (hcall : call c = some .cal)
    (hcall' : (callProtocol a).after log = some .idle)
    (hidle' : (acceptProtocol a).after log = some .idle) (haccept : call a = some .acp)
    (hwc : wait' c = some (.rdv rdvno m)) (hwa : wait' a = none)
    (hw : ∀ u, u ≠ c → u ≠ a → wait' u = wait u) (hfc : (frame' c).ercd = .E_TMOUT)
    (hfa : (frame' a).ercd = .E_OK ∧ (frame' a).rdvno = rdvno ∧
      (frame' a).msg.read (frame' a).msgsz = msg)
    (hf : ∀ u, u ≠ c → u ≠ a → frame' u = frame u) :
    ∀ u, Talks wait' call frame' (.accepted rdvno c a msg :: log) u := by
  intro u
  by_cases huc : u = c
  · subst huc
    refine ⟨.meeting rdvno, .idle, Monitor.after_cons hsent ?_, Monitor.after_cons hidle ?_, ?_⟩
    · exact (if_pos rfl).trans (if_pos rfl)
    · exact if_neg hac
    · rw [hwc, hcall]
      exact .meeting rdvno m _ hfc
  by_cases hua : u = a
  · subst hua
    refine ⟨.idle, .got rdvno msg, Monitor.after_cons hcall' ?_,
      Monitor.after_cons hidle' ?_, ?_⟩
    · exact if_neg (Ne.symm huc)
    · exact (if_pos rfl).trans (if_pos rfl)
    · obtain ⟨he, hno, hmsg⟩ := hfa
      rw [hwa, haccept, ← hno, ← hmsg]
      exact .accepted _ he
  · obtain ⟨x, y, hx, hy, hux⟩ := (h u huc hua).other (r := .accepted rdvno c a msg)
      (fun hr => hr.elim (fun he => huc he.symm) fun he => hua he.symm)
    refine ⟨x, y, hx, hy, ?_⟩
    rw [hw u huc hua, hf u huc hua]
    exact hux

/-- A task that waits has its conversations as its wait has them. -/
theorem Talks.calling {p n : Nat} {b : Bool} {calptn : BitVec 32} (h : Talks wait call frame log t)
    (hw : wait t = some (.cal p b calptn n)) :
    (callProtocol t).after log = some (.sent ((frame t).msg.read n)) ∧
      (acceptProtocol t).after log = some .idle ∧ call t = some .cal ∧
      (frame t).ercd = .E_TMOUT := by
  obtain ⟨x, y, hx, hy, ht⟩ := h
  rw [hw] at ht
  generalize hf : frame t = f at ht
  generalize hc : call t = k at ht
  cases ht with
  | calling p b calptn n f he => exact ⟨hx, hy, rfl, he⟩

theorem Talks.meeting {n m : Nat} (h : Talks wait call frame log t)
    (hw : wait t = some (.rdv n m)) :
    (callProtocol t).after log = some (.meeting n) ∧
      (acceptProtocol t).after log = some .idle ∧ call t = some .cal ∧
      (frame t).ercd = .E_TMOUT := by
  obtain ⟨x, y, hx, hy, ht⟩ := h
  rw [hw] at ht
  generalize hf : frame t = f at ht
  generalize hc : call t = k at ht
  cases ht with
  | meeting n m f he => exact ⟨hx, hy, rfl, he⟩

theorem Talks.accepting {p : Nat} {acpptn : BitVec 32} (h : Talks wait call frame log t)
    (hw : wait t = some (.acp p acpptn)) :
    (callProtocol t).after log = some .idle ∧ (acceptProtocol t).after log = some .idle ∧
      call t = some .acp ∧ (frame t).ercd = .E_TMOUT := by
  obtain ⟨x, y, hx, hy, ht⟩ := h
  rw [hw] at ht
  generalize hf : frame t = f at ht
  generalize hc : call t = k at ht
  cases ht with
  | accepting p acpptn f he => exact ⟨hx, hy, rfl, he⟩

theorem Talks.out (h : Talks wait call frame log t) (hw : wait t = none) (hc : call t = none) :
    (callProtocol t).after log = some .idle ∧ (acceptProtocol t).after log = some .idle := by
  obtain ⟨x, y, hx, hy, ht⟩ := h
  rw [hw, hc] at ht
  generalize hf : frame t = f at ht
  cases ht with
  | out f => exact ⟨hx, hy⟩

/-- A wait for a message to be accepted, or to accept one, is over without either. -/
theorem Talks.stop {w : PorWait} (h : Talks wait call frame log t) (hw : wait t = some w)
    (hq : w.que ≠ none) (f : PorFrame) (hf : f.ercd ≠ .E_OK) :
    ∃ x y, (callProtocol t).after log = some x ∧ (acceptProtocol t).after log = some y ∧
      TaskTalks none (call t) f x y := by
  cases w with
  | cal p b calptn n =>
    obtain ⟨hx, hy, hc, -⟩ := h.calling hw
    exact ⟨_, _, hx, hy, hc ▸ .failed f _ hf rfl⟩
  | acp p acpptn =>
    obtain ⟨hx, hy, hc, -⟩ := h.accepting hw
    exact ⟨_, _, hx, hy, hc ▸ .refused f hf⟩
  | rdv n m => exact absurd rfl hq

end

@[simp] theorem MsgArea.read_knlMemcpy (dst src : MsgArea) (n : Nat) :
    (dst.knlMemcpy src n).read n = src.read n := by
  unfold MsgArea.read
  refine List.map_congr_left fun i hi => ?_
  exact if_pos (List.mem_range.1 hi)

namespace RdvSys

variable (s : RdvSys)

theorem copyTo_frame (t : Tid) (src : MsgArea) (n : Nat) :
    (s.copyTo t src n).frame = Function.update s.frame t
      { s.frame t with msg := (s.frame t).msg.knlMemcpy src n } := by
  unfold copyTo
  split
  · rfl
  · rename_i hn
    have hzero : n = 0 := Nat.eq_zero_of_not_pos hn
    have hsame : (s.frame t).msg.knlMemcpy src n = (s.frame t).msg := by
      funext i
      exact if_neg (by rw [hzero]; exact Nat.not_lt_zero i)
    rw [hsame]
    exact (Function.update_eq_self t s.frame).symm

@[simp] theorem copyTo_log (t : Tid) (src : MsgArea) (n : Nat) :
    (s.copyTo t src n).log = s.log := by
  unfold copyTo
  split <;> rfl

/-- What the task that accepts finds in its frame. -/
theorem sendMessage_frame (tcb : Tid) (rdvno : Nat) (caller : Tid) (msg : MsgArea) (n : Nat) :
    (s.sendMessage tcb rdvno caller msg n).frame = Function.update s.frame tcb
      { ercd := .E_OK, msgsz := n, rdvno, msg := (s.frame tcb).msg.knlMemcpy msg n } := by
  unfold sendMessage release setErcd setFrame logged knlWaitRelease queRemove
  dsimp only
  rw [copyTo_frame]
  simp only [Function.update_self, Function.update_idem]

theorem sendMessage_log (tcb : Tid) (rdvno : Nat) (caller : Tid) (msg : MsgArea) (n : Nat) :
    (s.sendMessage tcb rdvno caller msg n).log =
      .accepted rdvno caller tcb (msg.read n) :: s.log := by
  unfold sendMessage release setErcd setFrame logged knlWaitRelease queRemove
  dsimp only
  rw [copyTo_frame, copyTo_log]
  simp only [Function.update_self, MsgArea.read_knlMemcpy]

end RdvSys

end Mtk3Smp
