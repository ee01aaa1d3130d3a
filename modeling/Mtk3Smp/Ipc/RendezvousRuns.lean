import Mtk3Smp.Ipc.RendezvousFits
import Mtk3Smp.Ipc.RendezvousTalks

/-!
# Runs of the rendezvous ports

Every order of calls, of timeouts and forced releases, of deletions and changes of priority.
-/

namespace Mtk3Smp

/-- Who waits at the ports. -/
structure RdvWaits (s : RdvSys) : Prop where
  callers : ∀ p t, t ∈ (s.porcb p).callQueue ↔
    ∃ tpri calptn n, s.wait t = some (.cal p tpri calptn n)
  acceptors : ∀ p t, t ∈ (s.porcb p).acceptQueue ↔ ∃ acpptn, s.wait t = some (.acp p acpptn)
  once : ∀ p, (s.porcb p).callQueue.Nodup ∧ (s.porcb p).acceptQueue.Nodup
  closed : ∀ p, (s.porcb p).exists_ = false →
    (s.porcb p).callQueue = [] ∧ (s.porcb p).acceptQueue = []
  sorted : ∀ p, (s.porcb p).tpri = true → KeyOrder.Sorted s.priority (s.porcb p).callQueue
  /-- no two tasks wait that could meet -/
  apart : ∀ p, ∀ c ∈ (s.porcb p).callQueue, ∀ a ∈ (s.porcb p).acceptQueue,
    s.ptn c &&& s.ptn a = 0
  /-- the timer does not end a rendezvous -/
  patient : ∀ t n m, s.wait t = some (.rdv n m) → s.tmout t = .TMO_FEVR

theorem rendezvous_waits {k : RdvCfg} {s : RdvSys} (hr : (rdvMachine k).Reachable s) :
    RdvWaits s := by
  have h := RdvPlaces.of_reachable hr
  have hempty : ∀ q : PorQue, (s.porcb q.porid).exists_ = false → porQue s.porcb q = [] := by
    intro q hclosed
    refine List.eq_nil_iff_forall_not_mem.2 fun t ht => ?_
    obtain ⟨w, hw, hq⟩ := (h.queued.mem q t).1 ht
    exact h.que_of_closed hclosed hw hq rfl
  refine
    { callers := fun p t => RdvSys.mem_callQueue h.queued
      acceptors := fun p t => RdvSys.mem_acceptQueue h.queued
      once := fun p => ⟨h.queued.nodup (.call p), h.queued.nodup (.accept p)⟩
      closed := fun p hp => ⟨hempty (.call p) hp, hempty (.accept p) hp⟩
      sorted := h.sorted
      apart := fun p c hc a ha => ?_
      patient := h.patient }
  obtain ⟨tpri, calptn, n, hwc⟩ := (RdvSys.mem_callQueue h.queued).1 hc
  obtain ⟨acpptn, hwa⟩ := (RdvSys.mem_acceptQueue h.queued).1 ha
  rw [RdvSys.ptn_cal hwc, RdvSys.ptn_acp hwa]
  exact h.queued.apart p c a tpri calptn acpptn n hwc hwa

/-- Two tasks call a port, one with a bit that the task waiting there does not accept, and one at
a port with TA_TPRI and a higher priority than another. -/
theorem rendezvous_waits_three : ∃ s, (rdvMachine ⟨4, by decide, 2⟩).Reachable s ∧
    (s.porcb 2).callQueue = [3, 1] ∧ (s.porcb 2).acceptQueue = [2] ∧ RdvWaits s := by
  obtain ⟨s, reach, hp⟩ := @Lts.reachable_of_trace _ _ (rdvMachine ⟨4, by decide, 2⟩)
    (fun s => (s.porcb 2).callQueue = [3, 1] ∧ (s.porcb 2).acceptQueue = [2])
    (.boot ⟨4, by decide, 2⟩ fun t => 9 - t)
    [.tkCrePor false 8 8, .tkCrePor true 8 4, .tkAcpPor 2 2 4 (fun _ => 0) .TMO_FEVR,
      .tkCalPor 1 2 3 (fun _ => 1) 2 .TMO_FEVR, .tkCalPor 3 2 1 (fun _ => 2) 3 .TMO_FEVR,
      .tkCalPor 0 1 1 (fun _ => 3) 1 .TMO_FEVR]
    ⟨_, rfl⟩ (by decide +kernel)
  obtain ⟨hcall, haccept⟩ := of_decide_eq_true hp
  exact ⟨s, reach, hcall, haccept, rendezvous_waits reach⟩

/-- What rendezvous numbers are good for. -/
structure RdvNumbersRight (k : RdvCfg) (s : RdvSys) : Prop where
  /-- a call that is accepted is answered once, or its caller still waits for that -/
  answered : ∀ n, acceptedUnder n s.log = answersTo n s.log + openUnder n (s.wait (getTcbRdvno n))
  /-- a number leads back to its task -/
  owner : ∀ t, t < k.numTskid → ∀ n ∈ rdvnosOf t s.log, k.chkRdvno n = true ∧ getTcbRdvno n = t
  /-- the answer is awaited to the last number of the task -/
  awaited : ∀ t n m, s.wait t = some (.rdv n m) → (rdvnosOf t s.log).head? = some n
  /-- the numbers of a task differ as long as it has had no more calls accepted than there are -/
  differ : ∀ t, t < k.numTskid →
    ((rdvnosOf t s.log).Nodup ↔ (rdvnosOf t s.log).length ≤ 2 ^ 16)

/-- The first 2^16 numbers of a task differ, and after that they come again. -/
theorem nodup_rdvnoOf {t : Tid} {n : Nat} :
    ((List.range n).map (rdvnoOf t)).Nodup ↔ n ≤ 2 ^ 16 := by
  rw [List.nodup_map_iff_inj_on List.nodup_range]
  constructor
  · intro hinj
    by_contra hlt
    have hmem : ∀ i, i ≤ 2 ^ 16 → i ∈ List.range n := fun i hi =>
      List.mem_range.2 (Nat.lt_of_le_of_lt hi (not_le.1 hlt))
    have hsame : rdvnoOf t 0 = rdvnoOf t (2 ^ 16) := by
      unfold rdvnoOf RDVNO_SHIFT
      omega
    exact absurd (hinj 0 (hmem 0 (Nat.zero_le _)) (2 ^ 16) (hmem _ le_rfl) hsame) (by decide)
  · intro hle i hi j hj hij
    have hmod := rdvnoOf_inj hij
    rw [List.mem_range] at hi hj
    rwa [Nat.mod_eq_of_lt (hi.trans_le hle), Nat.mod_eq_of_lt (hj.trans_le hle)] at hmod

/-- CHECK_RDVNO passes the numbers that tasks have got. -/
theorem chkRdvno_rdvnoOf {k : RdvCfg} {t : Tid} (ht : t < k.numTskid) (i : Nat) :
    k.chkRdvno (rdvnoOf t i) = true := by
  have hid : ∀ id : Nat, id < 2 ^ 16 → (id + i * 2 ^ 16) % 2 ^ 32 % 2 ^ 16 = id := by omega
  unfold RdvCfg.chkRdvno knlGetTskidRdvno rdvnoOf tskid RDVNO_SHIFT
  rw [hid (t + 1) (Nat.lt_of_le_of_lt ht k.small)]
  exact decide_eq_true ⟨Nat.succ_pos t, ht⟩

theorem rendezvous_numbers {k : RdvCfg} {s : RdvSys} (hr : (rdvMachine k).Reachable s) :
    RdvNumbersRight k s := by
  have h := RdvNumbersIn.of_reachable hr
  refine ⟨h.balance, fun t ht n hn => ?_, fun t n m hw => (h.newest t n m hw).2, fun t ht => ?_⟩
  · rw [h.given t ht, List.mem_reverse] at hn
    obtain ⟨i, -, rfl⟩ := List.mem_map.1 hn
    exact ⟨chkRdvno_rdvnoOf ht i, getTcbRdvno_rdvnoOf ht i⟩
  · have hnodup : (rdvnosOf t s.log).Nodup ↔
        ((List.range (rdvnosOf t s.log).length).map (rdvnoOf t)).Nodup := by
      conv_lhs => rw [h.given t ht]
      exact List.nodup_reverse
    exact hnodup.trans nodup_rdvnoOf

/-- A call that is accepted, forwarded to another port, accepted there and replied to. -/
theorem rendezvous_numbers_forward : ∃ s, (rdvMachine ⟨4, by decide, 2⟩).Reachable s ∧
    rdvnosOf 0 s.log = [65537, 1] ∧ answersTo 1 s.log = 1 ∧ answersTo 65537 s.log = 1 ∧
      RdvNumbersRight ⟨4, by decide, 2⟩ s := by
  obtain ⟨s, reach, hp⟩ := @Lts.reachable_of_trace _ _ (rdvMachine ⟨4, by decide, 2⟩)
    (fun s => rdvnosOf 0 s.log = [65537, 1] ∧ answersTo 1 s.log = 1 ∧ answersTo 65537 s.log = 1)
    (.boot ⟨4, by decide, 2⟩ fun _ => 1)
    [.tkCrePor false 8 8, .tkCrePor true 8 4, .tkAcpPor 1 1 1 (fun _ => 0) .TMO_FEVR,
      .tkCalPor 0 1 3 (fun _ => 7) 2 .TMO_FEVR, .tkFwdPor 2 1 1 (fun _ => 8) 3,
      .tkAcpPor 2 2 1 (fun _ => 0) .TMO_FEVR, .tkRplRdv 65537 (fun _ => 9) 1]
    ⟨_, rfl⟩ (by decide +kernel)
  obtain ⟨hnos, hone, htwo⟩ := of_decide_eq_true hp
  exact ⟨s, reach, hnos, hone, htwo, rendezvous_numbers reach⟩

/-- Whatever calls, forwardings and replies write to the message area of a blocking call, it is no
more than the port that was called has promised. -/
theorem rendezvous_fits {k : RdvCfg} {s : RdvSys} (hr : (rdvMachine k).Reachable s) :
    (∀ t n room, (t, n, room) ∈ s.written → n ≤ room) ∧
      ∀ t w, s.wait t = some w → w.Room s.porcb (s.room t) := by
  have h := RdvFits.of_reachable hr
  exact ⟨fun t n room hx => h.written (t, n, room) hx, h.waits⟩

/-- The caller of a port with room for 8 bytes gets 3 from a forwarding and 4 as the reply of the
port to which its call has gone. -/
theorem rendezvous_fits_forward : ∃ s, (rdvMachine ⟨4, by decide, 2⟩).Reachable s ∧
    s.written = [(0, 4, 8), (2, 3, 8), (0, 3, 8), (1, 2, 8)] ∧
      (∀ t n room, (t, n, room) ∈ s.written → n ≤ room) ∧
      ∀ t w, s.wait t = some w → w.Room s.porcb (s.room t) := by
  obtain ⟨s, reach, hp⟩ := @Lts.reachable_of_trace _ _ (rdvMachine ⟨4, by decide, 2⟩)
    (fun s => s.written = [(0, 4, 8), (2, 3, 8), (0, 3, 8), (1, 2, 8)])
    (.boot ⟨4, by decide, 2⟩ fun _ => 1)
    [.tkCrePor false 8 8, .tkCrePor true 8 4, .tkAcpPor 1 1 1 (fun _ => 0) .TMO_FEVR,
      .tkCalPor 0 1 3 (fun _ => 7) 2 .TMO_FEVR, .tkFwdPor 2 1 1 (fun _ => 8) 3,
      .tkAcpPor 2 2 1 (fun _ => 0) .TMO_FEVR, .tkRplRdv 65537 (fun _ => 9) 4]
    ⟨_, rfl⟩ (by decide +kernel)
  exact ⟨s, reach, of_decide_eq_true hp, rendezvous_fits reach⟩

/-- The history of every task goes by the protocol, as a caller and as one that accepts calls. -/
theorem rendezvous_protocol {k : RdvCfg} {s : RdvSys} (hr : (rdvMachine k).Reachable s) (t : Tid) :
    ((callProtocol t).after s.log).isSome ∧ ((acceptProtocol t).after s.log).isSome := by
  obtain ⟨x, y, hx, hy, -⟩ := RdvTalks.of_reachable hr t
  rw [hx, hy]
  exact ⟨rfl, rfl⟩

/-- The caller has its reply and is about to return it, and the second task that accepts has
returned the message of the forwarding. -/
theorem rendezvous_protocol_forward : ∃ s, (rdvMachine ⟨4, by decide, 2⟩).Reachable s ∧
    (callProtocol 0).after s.log = some (.replied [9]) ∧
      (acceptProtocol 1).after s.log = some (.got 1 [7, 7]) ∧
      (acceptProtocol 2).after s.log = some .idle ∧
      ((callProtocol 2).after s.log).isSome ∧ ((acceptProtocol 2).after s.log).isSome := by
  obtain ⟨s, reach, hp⟩ := @Lts.reachable_of_trace _ _ (rdvMachine ⟨4, by decide, 2⟩)
    (fun s => (callProtocol 0).after s.log = some (.replied [9]) ∧
      (acceptProtocol 1).after s.log = some (.got 1 [7, 7]) ∧
      (acceptProtocol 2).after s.log = some .idle)
    (.boot ⟨4, by decide, 2⟩ fun _ => 1)
    [.tkCrePor false 8 8, .tkCrePor true 8 4, .tkAcpPor 1 1 1 (fun _ => 0) .TMO_FEVR,
      .tkCalPor 0 1 3 (fun _ => 7) 2 .TMO_FEVR, .tkFwdPor 2 1 1 (fun _ => 8) 3,
      .tkAcpPor 2 2 1 (fun _ => 0) .TMO_FEVR, .ret 2, .tkRplRdv 65537 (fun _ => 9) 1]
    ⟨_, rfl⟩ (by decide +kernel)
  obtain ⟨hcall, hone, htwo⟩ := of_decide_eq_true hp
  exact ⟨s, reach, hcall, hone, htwo, rendezvous_protocol reach 2⟩

end Mtk3Smp
