import Mtk3Smp.Mem.HeapSizes
import Mtk3Smp.Ipc.MessageBufferProps

/-!
# The size of a new message buffer

tk_cre_mbf (`messagebuf.c`) with the 32-bit arithmetic of its sizes, over the heap that its
buffer comes from, and the places where `knl_msg_to_mbf` writes.
-/

namespace Mtk3Smp

open Qmem

def TA_TPRI : UInt32 := 0x1
def TA_USERBUF : UInt32 := 0x20
def TA_DSNAME : UInt32 := 0x40

def VALID_MBFATR : UInt32 := TA_TPRI ||| TA_USERBUF ||| TA_DSNAME

/-- T_CMBF: `bufsz` is a SZ and `maxmsz` an INT. -/
structure Tcmbf where
  exinf : Nat
  mbfatr : UInt32
  bufsz : Int
  maxmsz : Int
  bufptr : Nat

/-- What tk_cre_mbf writes into the MBFCB: `bufsz`, `frbufsz`, `head` and `tail` are W. -/
structure MbfRecord where
  exinf : Nat
  mbfatr : UInt32
  buffer : Nat
  bufsz : Int
  frbufsz : Int
  maxmsz : Int
  head : Int
  tail : Int

inductive CreMbfErr
  | E_RSATR | E_PAR | E_NOMEM | E_LIMIT
  deriving DecidableEq, Repr

/-- `(W)ROUNDSZ(sz)` (`messagebuf.h`) -/
def ROUNDSZ32 (sz : Int) : Int := toW ((toUW sz + 3) % 2 ^ 32 / 4 * 4 : Nat)

/-- tk_cre_mbf: what it records, and memory; `room`: there is a free control block. -/
def tkCreMbf32 (k : HeapCfg) (m : Qmem) (room : Bool) (pk : Tcmbf) :
    Except CreMbfErr MbfRecord × Qmem :=
  if pk.mbfatr &&& ~~~VALID_MBFATR ≠ 0 then (.error .E_RSATR, m)
  else if pk.bufsz < 0 ∨ pk.maxmsz ≤ 0 then (.error .E_PAR, m)
  else
    let bufsz := ROUNDSZ32 pk.bufsz
    let msgbuf : Except CreMbfErr (Nat × Qmem) :=
      if 0 < bufsz then
        if pk.mbfatr &&& TA_USERBUF ≠ 0 then
          if bufsz ≠ pk.bufsz then .error .E_PAR else .ok (pk.bufptr, m)
        else
          match k.knlImalloc32 m bufsz with
          | none => .error .E_NOMEM
          | some r => .ok r
      else .ok (NULL, m)
    match msgbuf with
    | .error e => (.error e, m)
    | .ok (msgbuf, m) =>
      if room then
        (.ok { exinf := pk.exinf, mbfatr := pk.mbfatr, buffer := msgbuf, bufsz, frbufsz := bufsz
               maxmsz := pk.maxmsz, head := 0, tail := 0 }, m)
      else
        (.error .E_LIMIT,
          if msgbuf ≠ NULL ∧ pk.mbfatr &&& TA_USERBUF = 0 then k.knlIfree m msgbuf else m)

/-- The offsets and lengths of what `knl_msg_to_mbf` writes. -/
def msgWrites (m : Mbfcb) (msgsz : Nat) : List (Nat × Nat) :=
  let tail := m.tail + HEADERSZ
  let tail := if m.bufsz ≤ tail then 0 else tail
  let remsz := m.bufsz - tail
  (m.tail, HEADERSZ) ::
    if remsz < msgsz then [(tail, remsz), (0, msgsz - remsz)] else [(tail, msgsz)]

/-- The heap has a used area of at least `n` bytes at `ptr`, beside those of the live blocks. -/
def Allocated (k : HeapCfg) (m : Qmem) (live : List (Nat × Nat)) (ptr n : Nat) : Prop :=
  n = 0 ∨ HeapInv k { mem := m, live := (ptr, n) :: live }

/-- The sizes recorded, as UW, are those of allocated memory, and what fits is written there. -/
structure RecordFits (k : HeapCfg) (m : Qmem) (live : List (Nat × Nat)) (cb : MbfRecord) :
    Prop where
  bufsz : Allocated k m live cb.buffer (toUW cb.bufsz)
  frbufsz : Allocated k m live cb.buffer (toUW cb.frbufsz)
  /-- in every state of the buffer -/
  sends : ∀ tpri buffer priority s, mbfMachine.RunIf (fun _ _ => True)
    (.created tpri (toUW cb.bufsz) cb.maxmsz.toNat buffer priority) s →
      ∀ msg : Msg, msg.length ≤ cb.maxmsz.toNat → knlMbfFree s.cb msg.length = true →
        (∀ w ∈ msgWrites s.cb msg.length, w.1 + w.2 ≤ toUW cb.bufsz) ∧
          ∀ a, toUW cb.bufsz ≤ a → (knlMsgToMbf s.cb msg).buffer a = s.cb.buffer a

section

variable {k : HeapCfg} {s : HeapSys} {pk : Tcmbf} {m : Qmem} {cb : MbfRecord} {room : Bool}

/-- Nothing else is written. -/
theorem knlMsgToMbf_frame (m : Mbfcb) (msg : Msg) {a : Nat}
    (h : ∀ w ∈ msgWrites m msg.length, a < w.1 ∨ w.1 + w.2 ≤ a) :
    (knlMsgToMbf m msg).buffer a = m.buffer a := by
  have hput : ∀ {b : Nat → UInt8} {pos : Nat} {xs : List UInt8},
      a < pos ∨ pos + xs.length ≤ a → Cyclic.put b pos xs a = b a := by
    intro b pos xs hout
    rcases hout with hlt | hle
    · exact Cyclic.put_of_lt hlt
    · exact Cyclic.put_of_ge hle
  unfold knlMsgToMbf
  unfold msgWrites at h
  dsimp only at h ⊢
  generalize (if m.bufsz ≤ m.tail + HEADERSZ then 0 else m.tail + HEADERSZ) = tail at h ⊢
  have hhead := h _ List.mem_cons_self
  have hbody := fun w hw => h w (List.mem_cons_of_mem _ hw)
  split
  · rename_i hwrap
    rw [if_pos hwrap] at hbody
    have h1 := hbody (tail, m.bufsz - tail) (by simp)
    have h2 := hbody (0, msg.length - (m.bufsz - tail)) (by simp)
    dsimp only
    rw [hput (by rw [List.length_drop]; exact h2),
      hput (by rw [List.length_take, Nat.min_eq_left (Nat.le_of_lt hwrap)]; exact h1),
      hput hhead]
  · rename_i hfit
    rw [if_neg hfit] at hbody
    have h1 := hbody (tail, msg.length) (by simp)
    dsimp only
    rw [hput h1, hput hhead]

/-- Where a message fits, it is written into the buffer. -/
theorem Ring.writes_inside {m : Mbfcb} {msgs : List Msg} (r : Ring m msgs) {msgsz : Nat}
    (hlt : msgsz < 2 ^ 31) (hfree : knlMbfFree m msgsz = true) :
    ∀ w ∈ msgWrites m msgsz, w.1 + w.2 ≤ m.bufsz := by
  have hroom := (r.free_iff hlt).1 hfree
  have hsize : 0 < m.bufsz := by
    unfold HEADERSZ at hroom
    omega
  have htail : m.tail < m.bufsz := by
    rw [r.tail]
    exact Nat.mod_lt _ hsize
  have h4 : 4 ∣ m.tail := by
    rw [r.tail]
    exact dvd_mod_of_dvd (Nat.dvd_add r.head_dvd (dvd_spans _)) r.dvd
  have hdvd := r.dvd
  intro w hw
  unfold msgWrites at hw
  dsimp only at hw
  rcases List.mem_cons.1 hw with rfl | hw
  · show m.tail + 4 ≤ m.bufsz
    omega
  · have hstart : (if m.bufsz ≤ m.tail + HEADERSZ then 0 else m.tail + HEADERSZ) < m.bufsz := by
      split
      · exact hsize
      · omega
    have hlen : msgsz ≤ m.bufsz := by
      unfold HEADERSZ at hroom
      omega
    generalize (if m.bufsz ≤ m.tail + HEADERSZ then 0 else m.tail + HEADERSZ) = tail at hw hstart
    split at hw
    · simp only [List.mem_cons, List.not_mem_nil, or_false] at hw
      rcases hw with rfl | rfl
      · dsimp only
        omega
      · dsimp only
        omega
    · obtain rfl := List.mem_singleton.1 hw
      dsimp only
      omega

/-! ## The size over a run -/

theorem bufsz_knlMbfToMsg (m : Mbfcb) : (knlMbfToMsg m).2.bufsz = m.bufsz := by
  unfold knlMbfToMsg
  dsimp only
  generalize (if m.bufsz ≤ m.head + HEADERSZ then 0 else m.head + HEADERSZ) = head
  split <;> rfl

theorem bufsz_wakeupLoop (q : List Sender) (t : MbfSys) :
    (MbfSys.wakeupLoop q t).cb.bufsz = t.cb.bufsz := by
  induction q generalizing t with
  | nil => rfl
  | cons top rest ih =>
    unfold MbfSys.wakeupLoop
    split
    · rfl
    · rw [ih]
      exact knlMsgToMbf_bufsz t.cb top.msg

theorem bufsz_knlMbfWakeup (t : MbfSys) : t.knlMbfWakeup.cb.bufsz = t.cb.bufsz :=
  bufsz_wakeupLoop t.sendQueue t

theorem bufsz_tkSndMbf (t : MbfSys) (self : Option Tid) (ddsp : Bool) (msg : Msg) (tmout : Tmo) :
    (t.tkSndMbf self ddsp msg tmout).cb.bufsz = t.cb.bufsz := by
  unfold MbfSys.tkSndMbf
  dsimp only
  split; · rfl
  split; · rfl
  split; · rfl
  split; · rfl
  split
  · rfl
  · split
    · exact knlMsgToMbf_bufsz t.cb msg
    · split <;> rfl

theorem bufsz_tkRcvMbf (t : MbfSys) (self : Tid) (ddsp : Bool) (tmout : Tmo) :
    (t.tkRcvMbf self ddsp tmout).cb.bufsz = t.cb.bufsz := by
  unfold MbfSys.tkRcvMbf
  dsimp only
  split; · rfl
  split; · rfl
  split
  · rw [bufsz_knlMbfWakeup]
    exact bufsz_knlMbfToMsg t.cb
  · split
    · rw [bufsz_knlMbfWakeup]
      rfl
    · split <;> rfl

theorem bufsz_endWait (t : MbfSys) (tsk : Tid) (e : Option ER) :
    (t.endWait tsk e).cb.bufsz = t.cb.bufsz := by
  unfold MbfSys.endWait
  split
  · rw [bufsz_knlMbfWakeup]
    cases e <;> rfl
  · split
    · cases e <;> rfl
    · rfl

theorem bufsz_chgPri (t : MbfSys) (tsk : Tid) (priority : Nat) :
    (t.chgPri tsk priority).cb.bufsz = t.cb.bufsz := by
  unfold MbfSys.chgPri
  dsimp only
  split
  · exact bufsz_knlMbfWakeup _
  · rfl

theorem bufsz_step {t u : MbfSys} {e : MbfEvent} (h : t.step e = some u) :
    u.cb.bufsz = t.cb.bufsz := by
  cases e with
  | tkSndMbf self ddsp msg tmout =>
    simp only [MbfSys.step] at h
    split at h
    · cases h
    · cases h
      exact bufsz_tkSndMbf t ..
  | tkRcvMbf self ddsp tmout =>
    simp only [MbfSys.step] at h
    split at h
    · cases h
    · cases h
      exact bufsz_tkRcvMbf t ..
  | timeout tsk =>
    obtain ⟨-, hu⟩ := Option.ite_none_right_eq_some.1 h
    cases hu
    exact bufsz_endWait t ..
  | tkRelWai tsk =>
    obtain ⟨-, hu⟩ := Option.ite_none_right_eq_some.1 h
    cases hu
    exact bufsz_endWait t ..
  | tkTerTsk tsk =>
    obtain ⟨-, hu⟩ := Option.ite_none_right_eq_some.1 h
    cases hu
    exact bufsz_endWait t ..
  | chgPri tsk priority =>
    cases h
    exact bufsz_chgPri t ..
  | tkDelMbf =>
    cases h
    unfold MbfSys.tkDelMbf
    split <;> rfl

/-! ## The creation -/

theorem roundsz32_fits (hpos : 0 ≤ pk.bufsz) (hfit : pk.bufsz ≤ MAX_ALLOCATE) :
    ROUNDSZ32 pk.bufsz = (ROUNDSZ pk.bufsz.toNat : Nat) ∧
      ROUNDSZ pk.bufsz.toNat ≤ MAX_ALLOCATE := by
  unfold ROUNDSZ32 toW toUW ROUNDSZ
  unfold MAX_ALLOCATE at *
  omega

/-- Beyond that the size recorded is, as UW, no memory that a heap has. -/
theorem roundsz32_wraps {sz : Int} (hbig : MAX_ALLOCATE < sz) (hmax : sz < 2 ^ 31) :
    toUW (ROUNDSZ32 sz) = 2 ^ 31 ∨ toUW (ROUNDSZ32 sz) = 2 ^ 31 - 4 := by
  unfold ROUNDSZ32 toW toUW
  unfold MAX_ALLOCATE at hbig
  omega

/-- What an accepted creation records. -/
theorem tkCreMbf32_ok (huser : pk.mbfatr &&& TA_USERBUF = 0)
    (hcre : tkCreMbf32 k s.mem room pk = (.ok cb, m)) :
    0 ≤ pk.bufsz ∧ 0 < pk.maxmsz ∧ cb.bufsz = ROUNDSZ32 pk.bufsz ∧
      cb.frbufsz = ROUNDSZ32 pk.bufsz ∧ cb.maxmsz = pk.maxmsz ∧
      (0 < ROUNDSZ32 pk.bufsz ∧ k.knlImalloc32 s.mem (ROUNDSZ32 pk.bufsz) = some (cb.buffer, m) ∨
        ROUNDSZ32 pk.bufsz ≤ 0 ∧ cb.buffer = NULL ∧ m = s.mem) := by
  unfold tkCreMbf32 at hcre
  split at hcre
  · cases hcre
  split at hcre
  · cases hcre
  rename_i hpar
  simp only [not_or, Int.not_lt, Int.not_le] at hpar
  refine ⟨hpar.1, hpar.2, ?_⟩
  dsimp only at hcre
  by_cases hpos : 0 < ROUNDSZ32 pk.bufsz
  · rw [if_pos hpos, if_neg (fun hne => hne huser)] at hcre
    cases halloc : k.knlImalloc32 s.mem (ROUNDSZ32 pk.bufsz) with
    | none =>
      rw [halloc] at hcre
      cases hcre
    | some r =>
      rw [halloc] at hcre
      dsimp only at hcre
      split at hcre
      · cases hcre
        exact ⟨rfl, rfl, rfl, .inl ⟨hpos, rfl⟩⟩
      · cases hcre
  · rw [if_neg hpos] at hcre
    dsimp only at hcre
    split at hcre
    · cases hcre
      exact ⟨rfl, rfl, rfl, .inr ⟨Int.not_lt.1 hpos, rfl, rfl⟩⟩
    · cases hcre

/-- Allocated memory lies in the heap. -/
theorem Allocated.lt (ok : k.Ok) {live : List (Nat × Nat)} {ptr n : Nat}
    (h : Allocated k m live ptr n) : n = 0 ∨ ptr + n < 2 ^ 31 ∧ 16 ≤ ptr := by
  rcases h with h | h
  · exact .inl h
  · obtain ⟨-, hlow, hhigh⟩ := HeapInv.place ok h (x := (ptr, n)) List.mem_cons_self
    have := ok.lt
    have := ok.order.limit
    have := ok.order.top
    have := ok.order.freeque
    unfold QUEUESZ at hlow
    exact .inr ⟨by omega, by omega⟩

/-- What an accepted creation without TA_USERBUF records is allocated exactly when the size is
at most `MAX_ALLOCATE`. -/
theorem recordFits_iff (k : HeapCfg) (ok : k.Ok) {s : HeapSys}
    (hs : (heapMachine k).Reachable s) {pk : Tcmbf} (hmax : pk.bufsz < 2 ^ 31)
    (hmsz : pk.maxmsz < 2 ^ 31) (huser : pk.mbfatr &&& TA_USERBUF = 0) {room : Bool}
    {cb : MbfRecord} {m : Qmem} (hcre : tkCreMbf32 k s.mem room pk = (.ok cb, m)) :
    RecordFits k m s.live cb ↔ pk.bufsz ≤ MAX_ALLOCATE := by
  obtain ⟨hpos, hmpos, hbufsz, hfr, hmaxmsz, hbuf⟩ := tkCreMbf32_ok huser hcre
  constructor
  · intro fits
    have hlt := fits.bufsz.lt ok
    rw [hbufsz] at hlt
    by_contra hbig
    have hwrap := roundsz32_wraps (Int.not_le.1 hbig) hmax
    omega
  · intro hfit
    obtain ⟨hround, hle⟩ := roundsz32_fits hpos hfit
    have hn31 : ROUNDSZ pk.bufsz.toNat < 2 ^ 31 := Nat.lt_of_le_of_lt hle (by decide)
    rw [hround] at hbufsz hfr hbuf
    have huw : toUW ((ROUNDSZ pk.bufsz.toNat : Nat) : Int) = ROUNDSZ pk.bufsz.toNat :=
      toUW_of_lt (by omega)
    have hdvd := dvd_roundsz pk.bufsz.toNat
    generalize ROUNDSZ pk.bufsz.toNat = n at *
    have hinv := heapInv_of_reachable ok hs
    have halloc : Allocated k m s.live cb.buffer n := by
      rcases hbuf with ⟨-, hsome⟩ | ⟨hzero, -⟩
      · right
        have hrep := hinv
        obtain ⟨as, cs, rep, -⟩ := hrep
        rw [knlImalloc32_eq ok rep (by omega)] at hsome
        have hgot := hinv.malloc ok hsome
        rwa [Int.toNat_natCast] at hgot
      · left
        omega
    refine ⟨?_, ?_, ?_⟩
    · rw [hbufsz, huw]
      exact halloc
    · rw [hfr, huw]
      exact halloc
    · rw [hbufsz, huw, hmaxmsz]
      intro tpri buffer priority t run msg hmsg hfree
      have reach : mbfMachine.Reachable t :=
        ⟨_, ⟨tpri, n, _, buffer, priority, rfl, hdvd, hn31, by omega, by omega⟩, run⟩
      have hsize : t.cb.bufsz = n :=
        run.invariant (fun u => u.cb.bufsz = n) (fun u e v hu _ hv => (bufsz_step hv).trans hu) rfl
      obtain ⟨msgs, flow⟩ := (mbfInv_reachable reach).flow
      have hin := flow.ring.writes_inside (by omega) hfree
      rw [← hsize]
      refine ⟨hin, fun a ha => knlMsgToMbf_frame t.cb msg fun w hw => .inr ?_⟩
      exact Nat.le_trans (hin w hw) ha

end

/-- A heap of 96 bytes. -/
def smallHeap : HeapCfg := ⟨4, 128⟩

def smallHeapBoot : HeapSys :=
  { mem := smallHeap.init ⟨fun _ => 0, fun _ => 0⟩, live := [] }

theorem smallHeap_ok : smallHeap.Ok := ⟨by decide, by decide, by decide⟩

theorem smallHeapBoot_reachable : (heapMachine smallHeap).Reachable smallHeapBoot :=
  ⟨_, ⟨_, rfl⟩, .refl _⟩

/-- A creation that is accepted, with a record of which `p` holds. -/
theorem creates_of_test {k : HeapCfg} {s : HeapSys} {pk : Tcmbf} {p : MbfRecord → Bool}
    (h : (tkCreMbf32 k s.mem true pk).1.toOption.any p = true) :
    ∃ cb m, tkCreMbf32 k s.mem true pk = (.ok cb, m) ∧ p cb = true := by
  cases hr : tkCreMbf32 k s.mem true pk with
  | mk r m =>
    cases r with
    | error e =>
      rw [hr] at h
      cases h
    | ok cb =>
      rw [hr] at h
      exact ⟨cb, m, rfl, h⟩

/-- A buffer of 10 bytes gets 12. -/
theorem recordFits_small :
    ∃ cb m, RecordFits smallHeap m [] cb ∧ cb.bufsz = 12 ∧ cb.buffer = 32 := by
  obtain ⟨cb, m, hcre, hrec⟩ := @creates_of_test smallHeap smallHeapBoot
    ⟨0, 0, 10, 5, 0⟩ (fun cb => cb.bufsz == 12 && cb.buffer == 32) (by decide +kernel)
  simp only [Bool.and_eq_true, beq_iff_eq] at hrec
  obtain ⟨hbufsz, hbuffer⟩ := hrec
  refine ⟨cb, m, ?_, hbufsz, hbuffer⟩
  exact (recordFits_iff smallHeap smallHeap_ok smallHeapBoot_reachable (by decide) (by decide)
    (by decide) hcre).2 (by decide)

/-- With the largest size the buffer is NULL and the room recorded is 2 ^ 31 bytes. -/
theorem not_recordFits_largest : ¬ ∀ (k : HeapCfg) (s : HeapSys) (pk : Tcmbf) (room : Bool)
    (cb : MbfRecord) (m : Qmem), k.Ok → (heapMachine k).Reachable s → pk.bufsz < 2 ^ 31 →
    pk.maxmsz < 2 ^ 31 → pk.mbfatr &&& TA_USERBUF = 0 →
    tkCreMbf32 k s.mem room pk = (.ok cb, m) → RecordFits k m s.live cb := by
  intro hall
  obtain ⟨cb, m, hcre, hrec⟩ := @creates_of_test smallHeap smallHeapBoot
    ⟨0, 0, 0x7FFFFFFF, 1, 0⟩ (fun cb => cb.buffer == NULL && toUW cb.bufsz == 2 ^ 31)
    (by decide +kernel)
  simp only [Bool.and_eq_true, beq_iff_eq] at hrec
  obtain ⟨hnull, hbufsz⟩ := hrec
  have fits := hall smallHeap smallHeapBoot _ true cb m smallHeap_ok smallHeapBoot_reachable
    (by decide) (by decide) (by decide) hcre
  have hlt := fits.bufsz.lt smallHeap_ok
  rw [hnull, hbufsz] at hlt
  unfold NULL at hlt
  omega

end Mtk3Smp
