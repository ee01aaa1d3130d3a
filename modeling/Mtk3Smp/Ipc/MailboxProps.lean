import Mtk3Smp.Ipc.Mailbox
import Mathlib.Data.List.Induction

/-!
# What a mailbox keeps

First the abstract box, whose history decides what it holds; then the links in memory, which
follow the box as long as nobody else writes the header of a queued message.
-/

namespace Mtk3Smp

open Gcb

section

variable {mpri : Bool} {log : List MbxLog} {b b' : Box} {q : List Posted} {x y : Posted} {m : PkMsg}

/-! ## The box -/

theorem Posted.Before.rank_le (h : x.Before mpri y) : x.rank mpri ≤ y.rank mpri := by
  rcases h with h | ⟨h, -⟩
  · exact h.le
  · exact h.le

/-- The last one posted goes behind those of its rank. -/
theorem before_insert (h : q.Pairwise (Posted.Before mpri)) (hnum : ∀ y ∈ q, y.num < x.num) :
    (KeyOrder.insert (Posted.rank mpri) x q).Pairwise (Posted.Before mpri) := by
  induction q with
  | nil => exact List.pairwise_singleton _ _
  | cons y q ih =>
    obtain ⟨hy, hq⟩ := List.pairwise_cons.1 h
    by_cases hlt : x.rank mpri < y.rank mpri
    · rw [KeyOrder.insert_cons_of_lt hlt]
      refine List.pairwise_cons.2 ⟨fun z hz => .inl ?_, h⟩
      rcases List.mem_cons.1 hz with rfl | hz
      · exact hlt
      · exact hlt.trans_le (hy z hz).rank_le
    · rw [KeyOrder.insert_cons_of_le (not_lt.1 hlt)]
      refine List.pairwise_cons.2 ⟨fun z hz => ?_, ih hq fun z hz => hnum z (List.mem_cons_of_mem _ hz)⟩
      rcases KeyOrder.mem_insert.1 hz with rfl | hz
      · rcases (not_lt.1 hlt).lt_or_eq with hlt' | heq
        · exact .inl hlt'
        · exact .inr ⟨heq, hnum y List.mem_cons_self⟩
      · exact hy z hz

/-- What the log of a box says of what it holds. -/
structure BoxOk (mpri : Bool) (log : List MbxLog) (b : Box) : Prop where
  nums : ∀ x ∈ b.queue, x.num < b.posted
  order : b.queue.Pairwise (Posted.Before mpri)
  once : (sent log).Perm (received log ++ b.queue.map (·.pkMsg))
  fifo : mpri = false → sent log = received log ++ b.queue.map (·.pkMsg)
  length : b.queue.length ≤ log.length

theorem sent_snd (log : List MbxLog) (m : PkMsg) (pri : Int) :
    sent (log ++ [.snd m pri]) = sent log ++ [m] := by simp [sent]

theorem sent_rcv (log : List MbxLog) (t : Tid) (m : PkMsg) :
    sent (log ++ [.rcv t m]) = sent log := by simp [sent]

theorem received_snd (log : List MbxLog) (m : PkMsg) (pri : Int) :
    received (log ++ [.snd m pri]) = received log := by simp [received]

theorem received_rcv (log : List MbxLog) (t : Tid) (m : PkMsg) :
    received (log ++ [.rcv t m]) = received log ++ [m] := by simp [received]

theorem BoxOk.snd (h : BoxOk mpri log b) (m : PkMsg) (pri : Int) :
    BoxOk mpri (log ++ [.snd m pri])
      ⟨KeyOrder.insert (Posted.rank mpri) ⟨b.posted, m, pri⟩ b.queue, b.posted + 1⟩ := by
  have hperm : (KeyOrder.insert (Posted.rank mpri) ⟨b.posted, m, pri⟩ b.queue).Perm
    (⟨b.posted, m, pri⟩ :: b.queue) := KeyOrder.perm_insert _ _
  refine ⟨fun x hx => ?_, before_insert h.order h.nums, ?_, fun hm => ?_, ?_⟩
  · rcases KeyOrder.mem_insert.1 hx with rfl | hx
    · exact Nat.lt_succ_self _
    · exact Nat.lt_succ_of_lt (h.nums x hx)
  · rw [sent_snd, received_snd]
    have hmap := hperm.map (·.pkMsg)
    refine (List.perm_append_singleton m (sent log)).trans ?_
    refine (h.once.cons m).trans ?_
    exact List.perm_middle.symm.trans (hmap.symm.append_left _)
  · have hall : ∀ y ∈ b.queue, y.rank mpri ≤ Posted.rank mpri ⟨b.posted, m, pri⟩ := by
      intro y _
      rw [hm]
      exact le_rfl
    rw [sent_snd, received_snd, KeyOrder.insert_of_le hall, h.fifo hm]
    simp
  · have := hperm.length_eq
    have := h.length
    simp only [List.length_append, List.length_cons, List.length_nil] at *
    omega

theorem BoxOk.rcv (h : BoxOk mpri log b) {rest : List Posted} (hq : b.queue = x :: rest)
    (t : Tid) : BoxOk mpri (log ++ [.rcv t x.pkMsg]) ⟨rest, b.posted⟩ := by
  have hmem : ∀ y ∈ rest, y ∈ b.queue := fun y hy => by rw [hq]; exact List.mem_cons_of_mem _ hy
  have horder := h.order
  have honce := h.once
  have hfifo := h.fifo
  have hlen := h.length
  rw [hq] at horder honce hfifo hlen
  refine ⟨fun y hy => h.nums y (hmem y hy), (List.pairwise_cons.1 horder).2, ?_, fun hm => ?_, ?_⟩
  · rw [sent_rcv, received_rcv, List.append_assoc]
    exact honce
  · rw [sent_rcv, received_rcv, List.append_assoc]
    exact hfifo hm
  · simp only [List.length_append, List.length_cons, List.length_nil] at *
    omega

theorem replay_concat (log : List MbxLog) (e : MbxLog) :
    replay mpri (log ++ [e]) = (replay mpri log).bind fun b => b.apply mpri e := by
  simp [replay, List.foldlM_append]

/-- A log that a box can have ends in what its last entry does. -/
theorem replay_concat_some {e : MbxLog} (h : replay mpri (log ++ [e]) = some b') :
    ∃ b, replay mpri log = some b ∧ b.apply mpri e = some b' := by
  rw [replay_concat] at h
  exact Option.bind_eq_some_iff.1 h

theorem apply_rcv {t : Tid} (h : b.apply mpri (.rcv t m) = some b') :
    ∃ x rest, b.queue = x :: rest ∧ x.pkMsg = m ∧ b' = ⟨rest, b.posted⟩ := by
  unfold Box.apply at h
  cases hq : b.queue with
  | nil => simp [hq] at h
  | cons x rest =>
    simp only [hq, Option.ite_none_right_eq_some] at h
    exact ⟨x, rest, rfl, h.1, (Option.some.inj h.2).symm⟩

theorem boxOk_of_replay (h : replay mpri log = some b) : BoxOk mpri log b := by
  induction log using List.reverseRecOn generalizing b with
  | nil =>
    obtain rfl := Option.some.inj h
    exact ⟨by simp, List.Pairwise.nil, List.Perm.refl _, fun _ => rfl, le_rfl⟩
  | append_singleton log e ih =>
    obtain ⟨b₀, h₀, he⟩ := replay_concat_some h
    cases e with
    | snd m pri =>
      obtain rfl := Option.some.inj he
      exact (ih h₀).snd m pri
    | rcv t m =>
      obtain ⟨x, rest, hq, rfl, rfl⟩ := apply_rcv he
      exact (ih h₀).rcv hq t

theorem replay_prefix {pre post : List MbxLog} (h : replay mpri (pre ++ post) = some b) :
    ∃ b₀, replay mpri pre = some b₀ := by
  induction post using List.reverseRecOn generalizing b with
  | nil => exact ⟨b, by rwa [List.append_nil] at h⟩
  | append_singleton post e ih =>
    rw [← List.append_assoc] at h
    obtain ⟨b₁, h₁, -⟩ := replay_concat_some h
    exact ih h₁

/-- Whatever has been received was the first one to be received. -/
theorem replay_order (h : replay mpri log = some b) {pre post : List MbxLog} {t : Tid}
    (hlog : log = pre ++ .rcv t m :: post) :
    ∃ b₀ x rest, replay mpri pre = some b₀ ∧ b₀.queue = x :: rest ∧ x.pkMsg = m ∧
      ∀ y ∈ rest, x.Before mpri y := by
  rw [hlog, List.append_cons] at h
  obtain ⟨b₁, h₁⟩ := replay_prefix h
  obtain ⟨b₀, h₀, he⟩ := replay_concat_some h₁
  obtain ⟨x, rest, hq, hx, -⟩ := apply_rcv he
  have horder := (boxOk_of_replay h₀).order
  rw [hq] at horder
  exact ⟨b₀, x, rest, h₀, hq, hx, (List.pairwise_cons.1 horder).1⟩

end

/-! ## The mailbox is the box -/

/-- The links hold the box `b`. -/
structure MbxInv (c : Cmbx) (s : MbxSys) (b : Box) : Prop where
  replays : replay c.mpri s.log = some b
  chain : SChain s.msgque s.mqHead (b.queue.map (·.pkMsg))
  nodup : (b.queue.map (·.pkMsg)).Nodup
  /-- only a mailbox without TA_MPRI keeps `mq_tail` -/
  tail : c.mpri = false → ∀ m, (b.queue.map (·.pkMsg)).getLast? = some m → s.mqTail = m
  pris : ∀ x ∈ b.queue, s.msgpri x.pkMsg = x.msgpri
  exclusive : s.mqHead ≠ none → s.waitQueue = []

section

variable {c : Cmbx} {s s' : MbxSys} {b : Box} {m : PkMsg} {x : Posted} {r : List Posted}
  {prev : Option PkMsg}

/-- A message is queued if it is in the box. -/
theorem MbxInv.mem_of_queued (h : MbxInv c s b) :
    m ∈ b.queue.map (·.pkMsg) ↔ s.queued m := by
  have hcount := (boxOk_of_replay h.replays).once.count_eq m
  rw [List.count_append] at hcount
  unfold MbxSys.queued
  rw [← List.count_pos_iff]
  omega

theorem MbxInv.empty (h : MbxInv c s b) (hw : s.waitQueue ≠ []) : b.queue = [] := by
  have hnone : s.mqHead = none := by
    by_contra hne
    exact hw (h.exclusive hne)
  have hchain := h.chain.eq_head?
  rw [hnone] at hchain
  exact List.map_eq_nil_iff.1 (List.head?_eq_none_iff.1 hchain.symm)

/-! ### Sending -/

/-- Where the loop of `knl_queue_insert_mpri` ends: behind all that are not less urgent. -/
theorem mpriLoop_spec (hchain : SChain s.msgque (s.nextmsg prev) (r.map (·.pkMsg)))
    (hpri : ∀ y ∈ r, s.msgpri y.pkMsg = y.msgpri) {fuel : Nat} (hfuel : r.length < fuel)
    (x : Posted) :
    ∃ l r', r = l ++ r' ∧ KeyOrder.insert (Posted.rank true) x r = l ++ x :: r' ∧
      s.mpriLoop x.msgpri fuel prev =
        some (((l.map (·.pkMsg)).getLast?).or prev, (r'.map (·.pkMsg)).head?) := by
  induction r generalizing prev fuel with
  | nil =>
    cases fuel with
    | zero => cases hfuel
    | succ fuel =>
      have hnone : s.nextmsg prev = none := hchain
      exact ⟨[], [], rfl, rfl, by simp [MbxSys.mpriLoop, hnone]⟩
  | cons y r ih =>
    cases fuel with
    | zero => cases hfuel
    | succ fuel =>
      obtain ⟨hhead, hrest⟩ := hchain
      have hy := hpri y List.mem_cons_self
      by_cases hlt : x.msgpri < y.msgpri
      · refine ⟨[], y :: r, rfl, KeyOrder.insert_cons_of_lt hlt, ?_⟩
        simp [MbxSys.mpriLoop, hhead, hy, hlt]
      · have hfuel : r.length < fuel := by
          simp only [List.length_cons] at hfuel
          omega
        have hrest : SChain s.msgque (s.nextmsg (some y.pkMsg)) (r.map (·.pkMsg)) := hrest
        obtain ⟨l, r', rfl, hins, hloop⟩ := ih hrest
          (fun z hz => hpri z (List.mem_cons_of_mem _ hz)) hfuel
        refine ⟨y :: l, r', rfl, ?_, ?_⟩
        · have hle : y.rank true ≤ x.rank true := not_lt.1 hlt
          rw [KeyOrder.insert_cons_of_le hle, hins]
          rfl
        · simp only [MbxSys.mpriLoop, hhead, hy, if_neg hlt, hloop]
          rw [List.map_cons, List.getLast?_cons]
          cases (l.map (·.pkMsg)).getLast? <;> rfl

/-- The writes of both ways to connect a message. -/
theorem linkBehind_eq (s : MbxSys) (prev nxt : Option PkMsg) (m : PkMsg) :
    (s.setNextmsg nxt (some m)).setNextmsg (some m) prev =
      { s with
        msgque := linkBehind s.msgque prev m nxt
        mqHead := if prev = none then some m else s.mqHead } := by
  cases prev with
  | none => rfl
  | some p => rfl

/-- A message that is not queued comes into the chain where the box puts it. -/
theorem MbxInv.connect (h : MbxInv c s b) (hm : ¬ s.queued m) {l r : List Posted} (tail : PkMsg)
    (hsplit : b.queue = l ++ r)
    (hins : KeyOrder.insert (Posted.rank c.mpri) ⟨b.posted, m, s.msgpri m⟩ b.queue =
      l ++ ⟨b.posted, m, s.msgpri m⟩ :: r)
    (htail : c.mpri = false → r = [] ∧ tail = m) (hwait : s.waitQueue = []) :
    MbxInv c
      { s with
        msgque := linkBehind s.msgque (l.map (·.pkMsg)).getLast? m (r.map (·.pkMsg)).head?
        mqHead := if (l.map (·.pkMsg)).getLast? = none then some m else s.mqHead
        mqTail := tail
        log := s.log ++ [.snd m (s.msgpri m)] }
      ⟨l ++ ⟨b.posted, m, s.msgpri m⟩ :: r, b.posted + 1⟩ := by
  have hmap : b.queue.map (·.pkMsg) = l.map (·.pkMsg) ++ r.map (·.pkMsg) := by
    rw [hsplit, List.map_append]
  have hnot : m ∉ l.map (·.pkMsg) ++ r.map (·.pkMsg) := by
    rw [← hmap]
    exact fun hx => hm (h.mem_of_queued.1 hx)
  have hnd := h.nodup
  have hchain := h.chain
  rw [hmap] at hnd hchain
  have hnew : (l ++ ⟨b.posted, m, s.msgpri m⟩ :: r).map (·.pkMsg) =
      l.map (·.pkMsg) ++ m :: r.map (·.pkMsg) := by simp
  refine ⟨?_, ?_, ?_, fun hmp m' hlast => ?_, fun y hy => ?_, fun _ => hwait⟩
  · rw [replay_concat, h.replays]
    show some _ = some _
    rw [hins]
  · rw [hnew]
    exact hchain.link hnd hnot
  · rw [hnew]
    exact List.nodup_middle.2 (List.nodup_cons.2 ⟨hnot, hnd⟩)
  · obtain ⟨rfl, rfl⟩ := htail hmp
    rw [hnew, List.map_nil, List.getLast?_concat] at hlast
    exact Option.some.inj hlast
  · have hy' : y = ⟨b.posted, m, s.msgpri m⟩ ∨ y ∈ b.queue := by
      rw [hsplit]
      simp only [List.mem_append, List.mem_cons] at hy ⊢
      tauto
    rcases hy' with rfl | hy'
    · rfl
    · exact h.pris y hy'

/-- tk_snd_mbx returns, and what it does is what the box does. -/
theorem MbxInv.tkSndMbx (h : MbxInv c s b) (hm : ¬ s.queued m) :
    ∃ r b', s.tkSndMbx c m = some r ∧ MbxInv c r.1 b' := by
  unfold MbxSys.tkSndMbx
  by_cases hex : (!s.exists_) = true
  · rw [if_pos hex]
    exact ⟨_, b, rfl, h⟩
  rw [if_neg hex]
  by_cases hpri : c.mpri = true ∧ s.msgpri m ≤ 0
  · rw [if_pos hpri]
    exact ⟨_, b, rfl, h⟩
  rw [if_neg hpri]
  dsimp only
  cases hw : s.waitQueue with
  | cons tcb queue =>
    -- nothing is queued: the message is posted and received at once
    have hnil := h.empty (by simp [hw])
    have hhead : s.mqHead = none := by
      have := h.chain.eq_head?
      rwa [hnil] at this
    have hreplay : replay c.mpri (s.log ++ [.snd m (s.msgpri m)] ++ [.rcv tcb.tsk m]) =
        some ⟨[], b.posted + 1⟩ := by
      rw [replay_concat, replay_concat, h.replays]
      simp [Box.apply, hnil, KeyOrder.insert_nil]
    exact ⟨_, ⟨[], b.posted + 1⟩, rfl,
      { replays := hreplay, chain := hhead, nodup := List.nodup_nil
        tail := fun _ m' hlast => by cases hlast
        pris := fun y hy => by cases hy
        exclusive := fun hne => absurd hhead hne }⟩
  | nil =>
    have hlen := (boxOk_of_replay h.replays).length
    cases hmp : c.mpri with
    | true =>
      have hchain : SChain s.msgque (s.nextmsg none) (b.queue.map (·.pkMsg)) := h.chain
      obtain ⟨l, r, hsplit, hins, hloop⟩ := mpriLoop_spec hchain h.pris
        (Nat.lt_succ_of_le hlen) ⟨b.posted, m, s.msgpri m⟩
      rw [Option.or_none] at hloop
      have hconn := h.connect hm s.mqTail hsplit (by rw [hmp]; exact hins)
        (fun hf => by rw [hmp] at hf; cases hf) hw
      refine ⟨(_, .E_OK), _, ?_, hconn⟩
      rw [if_pos rfl]
      unfold MbxSys.knlQueueInsertMpri
      rw [hloop]
      simp [linkBehind_eq]
    | false =>
      have hall : ∀ y ∈ b.queue,
          Posted.rank c.mpri y ≤ Posted.rank c.mpri ⟨b.posted, m, s.msgpri m⟩ := by
        intro y _
        rw [hmp]
        exact le_rfl
      have hconn := h.connect hm (r := []) m (List.append_nil _).symm
        (KeyOrder.insert_of_le hall) (fun _ => ⟨rfl, rfl⟩) hw
      have hend : s.connectEnd m =
          { s with
            msgque := linkBehind s.msgque (b.queue.map (·.pkMsg)).getLast? m none
            mqHead := if (b.queue.map (·.pkMsg)).getLast? = none then some m else s.mqHead
            mqTail := m } := by
        have hchain := h.chain.eq_head?
        unfold MbxSys.connectEnd
        cases hlast : (b.queue.map (·.pkMsg)).getLast? with
        | none =>
          have hnil : s.mqHead = none := by
            rw [hchain, List.getLast?_eq_none_iff.1 hlast]
            rfl
          simp [MbxSys.setNextmsg, hnil, linkBehind]
        | some m' =>
          have hne : s.mqHead ≠ none := by
            rw [hchain]
            intro hnil
            rw [List.head?_eq_none_iff.1 hnil] at hlast
            cases hlast
          obtain ⟨a, ha⟩ := Option.ne_none_iff_exists'.1 hne
          simp [MbxSys.setNextmsg, ha, linkBehind, h.tail hmp m' hlast]
      refine ⟨({ s.connectEnd m with log := s.log ++ [.snd m (s.msgpri m)] }, .E_OK), ?_, rfl, ?_⟩
      rotate_left
      · rw [hend]
        exact hconn

/-! ### The other calls -/

theorem MbxInv.tkRcvMbx (h : MbxInv c s b) (self : Tid) (ddsp : Bool) (tmout : Tmo) :
    ∃ b', MbxInv c (s.tkRcvMbx c self ddsp tmout) b' := by
  have hfail : ∀ e, MbxInv c (s.fail self e) b := fun e => { h with }
  unfold MbxSys.tkRcvMbx
  split
  · exact ⟨b, hfail _⟩
  split
  · exact ⟨b, hfail _⟩
  have hhead := h.chain.eq_head?
  cases hq : s.mqHead with
  | none =>
    dsimp only
    split
    · exact ⟨b, hfail _⟩
    · have hchain := h.chain
      rw [hq] at hchain
      exact ⟨b, { h with chain := hchain, exclusive := fun hne => absurd rfl hne }⟩
  | some msg =>
    have hchain := h.chain
    have hnd := h.nodup
    have htail := h.tail
    have hpris := h.pris
    obtain ⟨queue, posted⟩ := b
    cases queue with
    | nil =>
      rw [hq] at hhead
      cases hhead
    | cons x rest =>
      obtain ⟨hx, hrest⟩ := hchain
      obtain rfl : x.pkMsg = msg := Option.some.inj (hx.symm.trans hq)
      refine ⟨⟨rest, posted⟩, ?_, hrest, (List.nodup_cons.1 hnd).2, fun hmp m' hlast => ?_,
        fun y hy => hpris y (List.mem_cons_of_mem _ hy), fun _ => h.exclusive (by simp [hq])⟩
      · rw [replay_concat, h.replays]
        simp [Box.apply]
      · refine htail hmp m' ?_
        rw [List.map_cons, List.getLast?_cons, hlast]
        rfl

theorem MbxInv.endWait (h : MbxInv c s b) (t : Tid) (e : Option ER) :
    MbxInv c (s.endWait t e) b := by
  have hq : s.mqHead ≠ none → queRemove t s.waitQueue = [] := fun hne => by
    rw [h.exclusive hne]
    rfl
  cases e with
  | none => exact { h with exclusive := hq }
  | some e => exact { h with exclusive := hq }

theorem MbxInv.chgPri (h : MbxInv c s b) (t : Tid) (priority : Nat) :
    MbxInv c (s.chgPri c t priority) b := by
  unfold MbxSys.chgPri
  dsimp only
  split
  · refine { h with exclusive := fun hne => ?_ }
    show Gcb.knlGcbChangePriority _ t s.waitQueue = []
    rw [h.exclusive hne]
    rfl
  · exact { h with }

theorem MbxInv.tkDelMbx (h : MbxInv c s b) : MbxInv c s.tkDelMbx b := by
  unfold MbxSys.tkDelMbx
  split
  · exact h
  · exact { h with exclusive := fun _ => rfl }

/-- Other code writes the header of a message that is not queued. -/
theorem MbxInv.store (h : MbxInv c s b) (hm : ¬ s.queued m) (msgque : Option PkMsg)
    (msgpri : Int) :
    MbxInv c
      { s with
        msgque := Function.update s.msgque m msgque
        msgpri := Function.update s.msgpri m msgpri } b := by
  have hne : ∀ a ∈ b.queue.map (·.pkMsg), a ≠ m := fun a ha he => hm (h.mem_of_queued.1 (he ▸ ha))
  refine { h with chain := h.chain.congr fun a ha => ?_, pris := fun y hy => ?_ }
  · exact Function.update_of_ne (hne a ha) _ _
  · have := hne y.pkMsg (List.mem_map_of_mem hy)
    show Function.update s.msgpri m msgpri y.pkMsg = y.msgpri
    rw [Function.update_of_ne this]
    exact h.pris y hy

theorem mbxInv_step (h : MbxInv c s b) {e : MbxEvent} (hown : MbxOwned s e)
    (hs : MbxSys.step c s e = some s') : ∃ b', MbxInv c s' b' := by
  cases e with
  | tkSndMbx pkMsg =>
    obtain ⟨r, b', hr, hinv⟩ := h.tkSndMbx hown
    simp only [MbxSys.step, hr, Option.map_some] at hs
    obtain rfl := Option.some.inj hs
    exact ⟨b', hinv⟩
  | tkRcvMbx self ddsp tmout =>
    simp only [MbxSys.step, Option.ite_none_left_eq_some] at hs
    obtain rfl := Option.some.inj hs.2
    exact h.tkRcvMbx self ddsp tmout
  | timeout t =>
    simp only [MbxSys.step, Option.ite_none_right_eq_some] at hs
    obtain rfl := Option.some.inj hs.2
    exact ⟨b, h.endWait t _⟩
  | tkRelWai t =>
    simp only [MbxSys.step, Option.ite_none_right_eq_some] at hs
    obtain rfl := Option.some.inj hs.2
    exact ⟨b, h.endWait t _⟩
  | tkTerTsk t =>
    simp only [MbxSys.step, Option.ite_none_right_eq_some] at hs
    obtain rfl := Option.some.inj hs.2
    exact ⟨b, h.endWait t _⟩
  | chgPri t priority =>
    obtain rfl := Option.some.inj hs
    exact ⟨b, h.chgPri t priority⟩
  | tkDelMbx =>
    obtain rfl := Option.some.inj hs
    exact ⟨b, h.tkDelMbx⟩
  | store pkMsg msgque msgpri =>
    obtain rfl := Option.some.inj hs
    exact ⟨b, h.store hown msgque msgpri⟩

theorem mbxInv_of_reachable (h : (mbxMachine c).ReachableIf MbxOwned s) : ∃ b, MbxInv c s b := by
  refine h.invariant (fun s => ∃ b, MbxInv c s b) ?_ fun s e t hinv hown hs => ?_
  · rintro s ⟨mqTail, msgque, msgpri, priority, rfl⟩
    exact ⟨⟨[], 0⟩,
      { replays := rfl, chain := rfl, nodup := List.nodup_nil
        tail := fun _ m hlast => by cases hlast
        pris := fun y hy => by cases hy
        exclusive := fun _ => rfl }⟩
  · obtain ⟨b, hb⟩ := hinv
    exact mbxInv_step hb hown hs

end

theorem mbxOk_of_owned (c : Cmbx) {s : MbxSys} (h : (mbxMachine c).ReachableIf MbxOwned s) :
    MbxOk c s := by
  obtain ⟨b, hinv⟩ := mbxInv_of_reachable h
  have box := boxOk_of_replay hinv.replays
  refine ⟨⟨b, hinv.replays, hinv.chain, box.order, box.once, box.fifo⟩,
    fun pre t m post hlog => replay_order hinv.replays hlog, hinv.exclusive, fun m hm => ?_⟩
  obtain ⟨r, b', hr, -⟩ := hinv.tkSndMbx hm
  rw [hr]
  rfl

/-- Three messages in a TA_MPRI mailbox, one of them sent to a task that waits. -/
theorem mbxOk_of_owned_mpri :
    ∃ s : MbxSys, received s.log = [8, 24, 16] ∧ s.mqHead = none ∧ MbxOk ⟨true, true⟩ s := by
  let c : Cmbx := ⟨true, true⟩
  let start := MbxSys.created 0 (fun _ => none) (fun m => if m = 16 then 5 else 3) fun t => t
  let es : List MbxEvent := [.tkRcvMbx 1 false (.after 5), .tkSndMbx 8, .tkSndMbx 16, .tkSndMbx 24,
    .store 8 (some 8) 0, .tkRcvMbx 2 false .TMO_POL, .tkRcvMbx 1 false .TMO_FEVR]
  have trace : (((mbxMachine c).exec (fun s e => decide (MbxOwned s e)) start es).any fun s =>
      received s.log == [8, 24, 16] && s.mqHead == none) = true := by
    decide +kernel
  obtain ⟨s, hs, hp⟩ := Lts.reachable_of_exec (L := mbxMachine c)
    (fun _ _ h => of_decide_eq_true h) es ⟨0, _, _, _, rfl⟩ trace
  simp only [Bool.and_eq_true, beq_iff_eq] at hp
  exact ⟨s, hp.1, hp.2, mbxOk_of_owned c hs⟩

/-- A message that is sent again while it is queued becomes its own successor: it is received as
often as one likes. -/
theorem not_mbxOk : ¬ ∀ c s, (mbxMachine c).Reachable s → MbxOk c s := by
  intro hall
  let c : Cmbx := ⟨false, false⟩
  let start := MbxSys.created 0 (fun _ => none) (fun _ => 1) fun t => t
  let es : List MbxEvent := [.tkSndMbx 8, .tkSndMbx 8, .tkRcvMbx 1 false .TMO_POL,
    .tkRcvMbx 1 false .TMO_POL, .tkRcvMbx 1 false .TMO_POL]
  have trace : (((mbxMachine c).exec (fun _ _ => true) start es).any fun s =>
      (sent s.log).length == 2 && (received s.log).length == 3) = true := by
    decide +kernel
  obtain ⟨s, hs, hp⟩ := Lts.reachable_of_trace (L := mbxMachine c) es ⟨0, _, _, _, rfl⟩ trace
  simp only [Bool.and_eq_true, beq_iff_eq] at hp
  obtain ⟨b, -, -, -, once, -⟩ := (hall c s hs).box
  have := once.length_eq
  rw [List.length_append] at this
  omega

end Mtk3Smp
