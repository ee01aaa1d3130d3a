import Mtk3Smp.Mem.FixedPool

/-!
# The parts of a fixed-size pool

`MpfMem`: the blocks that have been carved are those in the free list, the one that a call has just
taken, and those that are outstanding. `MpfPcs`: where the tasks are with the calls.
-/

namespace Mtk3Smp

open Gcb

/-! ## Sizes -/

theorem and_not_three (x : BitVec 32) : x &&& ~~~(3 : BitVec 32) = (x >>> 2) <<< 2 := by
  apply BitVec.eq_of_getLsbD_eq
  intro i hi
  rw [BitVec.getLsbD_and, BitVec.getLsbD_not, BitVec.getLsbD_shiftLeft, BitVec.getLsbD_ushiftRight]
  by_cases hlow : i < 2
  · have hbit : (3 : BitVec 32).getLsbD i = true := by
      have : i = 0 ∨ i = 1 := by omega
      rcases this with rfl | rfl <;> rfl
    rw [hbit]
    simp [hlow]
  · have hbit : (3 : BitVec 32).getLsbD i = false := by
      have hlt : 3 < 2 ^ i := Nat.lt_of_lt_of_le (by decide) (Nat.pow_le_pow_right (by decide)
        (Nat.le_of_not_lt hlow))
      show (BitVec.ofNat 32 3).getLsbD i = false
      rw [BitVec.getLsbD_ofNat, Nat.testBit_lt_two_pow hlt, Bool.and_false]
    have hadd : 2 + (i - 2) = i := by omega
    rw [hbit, hadd]
    simp [hlow, hi]

/-- Up to the next multiple of 4. -/
theorem MINSZ_toNat {sz : BitVec 32} (h : 0 < sz.toInt) :
    (MINSZ sz).toNat = (sz.toNat + 3) / 4 * 4 := by
  have hlt : sz.toNat < 2 ^ 31 := by
    rw [BitVec.toInt_eq_toNat_cond] at h
    split at h
    · omega
    · omega
  have hthree : (MINSIZE - 1 : BitVec 32) = 3 := rfl
  have hnat : (3 : BitVec 32).toNat = 3 := rfl
  unfold MINSZ
  rw [hthree, and_not_three, BitVec.toNat_shiftLeft, BitVec.toNat_ushiftRight, BitVec.toNat_add, hnat,
    Nat.shiftLeft_eq, Nat.shiftRight_eq_div_pow]
  omega

section

variable {c : Cmpf}

/-- The sizes do not overflow. -/
def Cmpf.Fits (c : Cmpf) : Prop := c.cnt * c.blk < 2 ^ 32

theorem Cmpf.toNat_of_accepted (h : c.accepted = true) :
    0 < c.cnt ∧ c.mpfcnt.toInt = c.cnt ∧ 0 < c.blk ∧ c.blfsz.toNat ≤ c.blk := by
  unfold Cmpf.accepted at h
  simp only [Bool.and_eq_true, decide_eq_true_eq] at h
  obtain ⟨⟨hcnt, hsz⟩, -⟩ := h
  have hblk : c.blk = (c.blfsz.toNat + 3) / 4 * 4 := MINSZ_toNat hsz
  have hpos : 0 < c.blfsz.toNat := by
    rw [BitVec.toInt_eq_toNat_cond] at hsz
    split at hsz
    · omega
    · omega
  have hint : c.mpfcnt.toInt = c.cnt := by
    unfold Cmpf.cnt
    rw [BitVec.toInt_eq_toNat_cond] at hcnt ⊢
    split at hcnt
    · rename_i hlt
      rw [if_pos hlt]
    · omega
  refine ⟨?_, hint, ?_, ?_⟩
  · omega
  · omega
  · omega

/-- With sizes that do not overflow the memory has room for all of the blocks. -/
theorem Cmpf.covers (hp : c.Placed) (hfits : c.Fits) : c.cnt * c.blk ≤ c.size := by
  have hcov := hp.covers
  split at hcov
  · exact hcov
  · unfold Cmpf.mpfsz at hcov
    rw [BitVec.toNat_mul, Nat.mul_comm] at hcov
    have hmod : c.mpfcnt.toNat * (MINSZ c.blfsz).toNat % 2 ^ 32 = c.cnt * c.blk :=
      Nat.mod_eq_of_lt hfits
    rw [hmod] at hcov
    exact hcov

/-- The block of the number. -/
def Cmpf.addr (c : Cmpf) (i : Nat) : Nat := c.mempool + i * c.blk

theorem Cmpf.addr_inside (hp : c.Placed) (hfits : c.Fits) {i : Nat} (hi : i < c.cnt) :
    c.Inside (c.addr i) := by
  have hcov := c.covers hp hfits
  have hle : (i + 1) * c.blk ≤ c.cnt * c.blk := Nat.mul_le_mul_right _ hi
  rw [Nat.add_mul, Nat.one_mul] at hle
  unfold Cmpf.Inside Cmpf.addr
  omega

theorem Cmpf.addr_apart {i j : Nat} (h : i < j) : c.addr i + c.blk ≤ c.addr j := by
  have hle : (i + 1) * c.blk ≤ j * c.blk := Nat.mul_le_mul_right _ h
  rw [Nat.add_mul, Nat.one_mul] at hle
  unfold Cmpf.addr
  omega

theorem Cmpf.addr_inj (hblk : 0 < c.blk) {i j : Nat} (h : c.addr i = c.addr j) : i = j := by
  rcases Nat.lt_trichotomy i j with hlt | heq | hlt
  · have := c.addr_apart hlt
    omega
  · exact heq
  · have := c.addr_apart hlt
    omega

/-! ## The memory -/

/-- The free list is `fl`, and `k` blocks have been carved. `taken` has left the free list and is
not outstanding yet, and `adj` is how far `frbcnt` differs. -/
structure MpfMem (c : Cmpf) (mem : Nat → Option Nat) (freelist : Option Nat) (unused : Nat)
    (frbcnt : Int) (out taken : List Nat) (adj : Int) (fl : List Nat) (k : Nat) : Prop where
  chain : SChain mem freelist fl
  carved : (fl ++ (taken ++ out)).Perm ((List.range k).map c.addr)
  le : k ≤ c.cnt
  unused_eq : unused = (c.mempool + k * c.blk) % 2 ^ 32
  count : frbcnt = fl.length + (c.cnt - k : Int) + adj

namespace MpfMem

variable {mem : Nat → Option Nat} {freelist : Option Nat} {unused b k : Nat} {frbcnt adj : Int}
  {out out' taken fl : List Nat}

theorem nodup (h : MpfMem c mem freelist unused frbcnt out taken adj fl k) (hblk : 0 < c.blk) :
    (fl ++ (taken ++ out)).Nodup := by
  refine h.carved.nodup_iff.2 (List.Nodup.map_on ?_ List.nodup_range)
  exact fun i _ j _ he => c.addr_inj hblk he

theorem mem_addr (h : MpfMem c mem freelist unused frbcnt out taken adj fl k)
    (hb : b ∈ fl ++ (taken ++ out)) : ∃ i < c.cnt, b = c.addr i := by
  obtain ⟨i, hi, rfl⟩ := List.mem_map.1 (h.carved.mem_iff.1 hb)
  exact ⟨i, Nat.lt_of_lt_of_le (List.mem_range.1 hi) h.le, rfl⟩

theorem perm (h : MpfMem c mem freelist unused frbcnt out taken adj fl k) (hp : out'.Perm out) :
    MpfMem c mem freelist unused frbcnt out' taken adj fl k :=
  { h with carved := ((hp.append_left taken).append_left fl).trans h.carved }

/-- Outstanding blocks do not overlap. -/
theorem disjoint (h : MpfMem c mem freelist unused frbcnt out taken adj fl k) (hblk : 0 < c.blk) :
    out.Pairwise fun b d => b + c.blk ≤ d ∨ d + c.blk ≤ b := by
  have hnd : out.Nodup :=
    (h.nodup hblk).sublist ((List.sublist_append_right _ _).trans (List.sublist_append_right _ _))
  refine List.Pairwise.imp_of_mem (fun {b d} hb hd hne => ?_) hnd
  have hmem : ∀ x ∈ out, x ∈ fl ++ (taken ++ out) := fun x hx =>
    List.mem_append_right _ (List.mem_append_right _ hx)
  obtain ⟨i, -, rfl⟩ := h.mem_addr (hmem b hb)
  obtain ⟨j, -, rfl⟩ := h.mem_addr (hmem d hd)
  rcases Nat.lt_trichotomy i j with hlt | heq | hlt
  · exact Or.inl (c.addr_apart hlt)
  · exact absurd (congrArg c.addr heq) hne
  · exact Or.inr (c.addr_apart hlt)

/-- All blocks are in the free list, carved or not, or outstanding. -/
theorem total (h : MpfMem c mem freelist unused frbcnt out taken adj fl k) :
    frbcnt + taken.length + out.length = c.cnt + adj := by
  have hlen := h.carved.length_eq
  rw [List.length_append, List.length_append, List.length_map, List.length_range] at hlen
  have hle := h.le
  rw [h.count]
  omega

theorem nonneg (h : MpfMem c mem freelist unused frbcnt out taken adj fl k) : adj ≤ frbcnt := by
  have hle := h.le
  rw [h.count]
  omega

/-- The first block of the free list. -/
theorem pop (h : MpfMem c mem (some b) unused frbcnt out [] 0 fl k) :
    ∃ fl', MpfMem c mem (mem b) unused frbcnt out [b] 1 fl' k := by
  have hchain := h.chain
  cases fl with
  | nil => cases hchain
  | cons b' fl' =>
    obtain ⟨he, hrest⟩ := hchain
    obtain rfl := Option.some.inj he
    refine ⟨fl', hrest, ?_, h.le, h.unused_eq, ?_⟩
    · refine List.Perm.trans ?_ h.carved
      exact List.perm_middle
    · have := h.count
      rw [List.length_cons] at this
      push_cast at this
      omega

/-- The next block of the unused area. -/
theorem carve (hp : c.Placed) (hfits : c.Fits)
    (h : MpfMem c mem none unused frbcnt out [] 0 fl k) (hpos : 0 < frbcnt) (hblk : 0 < c.blk) :
    MpfMem c mem none ((unused + c.blk) % 2 ^ 32) frbcnt out [unused] 1 fl (k + 1) := by
  have hnil : fl = [] := by
    have hhead := h.chain.eq_head?
    cases fl with
    | nil => rfl
    | cons b fl => cases hhead
  subst hnil
  have hcount := h.count
  rw [List.length_nil] at hcount
  have hlt : k < c.cnt := by omega
  have hin := c.addr_inside hp hfits hlt
  have hrange := hp.range
  have haddr : unused = c.addr k := by
    rw [h.unused_eq]
    refine Nat.mod_eq_of_lt ?_
    have hle := hin.2
    unfold Cmpf.addr at hle
    omega
  refine ⟨h.chain, ?_, hlt, ?_, ?_⟩
  · rw [List.range_succ, List.map_append, haddr]
    refine List.Perm.trans ?_ (h.carved.append_right _)
    exact (List.perm_append_singleton (c.addr k) out).symm
  · rw [haddr]
    unfold Cmpf.addr
    rw [Nat.add_mul, Nat.one_mul, Nat.add_assoc]
  · rw [hcount]
    push_cast
    simp only [List.length_nil]
    omega

/-- `frbcnt--`: the block is outstanding. -/
theorem take (h : MpfMem c mem freelist unused frbcnt out [b] 1 fl k) :
    MpfMem c mem freelist unused (frbcnt - 1) (b :: out) [] 0 fl k :=
  { h with count := by have := h.count; omega }

/-- A block that is outstanding goes into the free list. -/
theorem push (h : MpfMem c mem freelist unused frbcnt out [] 0 fl k) (hblk : 0 < c.blk)
    (hout : (b :: out').Perm out) :
    MpfMem c (Function.update mem b freelist) (some b) unused frbcnt out' [] (-1) (b :: fl) k := by
  have hp : (b :: fl ++ ([] ++ out')).Perm (fl ++ ([] ++ out)) :=
    List.perm_middle.symm.trans (hout.append_left fl)
  have hnd := hp.nodup_iff.2 (h.nodup hblk)
  have hnot : b ∉ fl := fun hb =>
    (List.nodup_cons.1 hnd).1 (List.mem_append_left _ hb)
  refine ⟨h.chain.push hnot, hp.trans h.carved, h.le, h.unused_eq, ?_⟩
  have := h.count
  rw [List.length_cons]
  push_cast
  omega

/-- `frbcnt++` -/
theorem freed (h : MpfMem c mem freelist unused frbcnt out [] (-1) fl k) :
    MpfMem c mem freelist unused (frbcnt + 1) out [] 0 fl k :=
  { h with count := by have := h.count; omega }

/-- A write to an outstanding block does not change the free list. -/
theorem write (h : MpfMem c mem freelist unused frbcnt out taken adj fl k) (hblk : 0 < c.blk)
    (hb : b ∈ out) (v : Option Nat) :
    MpfMem c (Function.update mem b v) freelist unused frbcnt out taken adj fl k := by
  have hnd := h.nodup hblk
  have hnot : ∀ a ∈ fl, a ≠ b := fun a ha he =>
    (List.nodup_append.1 hnd).2.2 a ha b (List.mem_append_right _ hb) he
  exact { h with chain := h.chain.congr fun a ha => Function.update_of_ne (hnot a ha) _ _ }

end MpfMem

end

/-! ## The calls -/

namespace MpfPc

/-- The task has the lock. -/
def locked : MpfPc → Bool
  | .user | .get _ | .rel _ | .del | .blocked => false
  | _ => true

/-- The block that it gives back. -/
def gives : MpfPc → Option Nat
  | .rel blf | .inRel blf | .give blf | .free blf => some blf
  | _ => none

/-- The block that it has taken. -/
def takes : MpfPc → List Nat
  | .taken blf => [blf]
  | _ => []

def adj : MpfPc → Int
  | .taken _ => 1
  | .freed _ => -1
  | _ => 0

/-- It has found no waiting task. -/
def frees : MpfPc → Bool
  | .free _ | .freed _ => true
  | _ => false

end MpfPc

/-- The tasks, for the lock, the blocks that are given back and the wait queue. -/
structure MpfPcs (lock : Option Tid) (back : List Nat) (waitQueue : List (Waiter Unit))
    (pc : Tid → MpfPc) : Prop where
  locks : ∀ t, (pc t).locked = true ↔ lock = some t
  gives : ∀ t b, (pc t).gives = some b → b ∈ back
  apart : ∀ t u b, (pc t).gives = some b → (pc u).gives = some b → t = u
  queue : ∀ x ∈ waitQueue, pc x.tsk = .blocked
  nodup : (waitQueue.map (·.tsk)).Nodup

namespace MpfPcs

variable {lock lock' : Option Tid} {back back' : List Nat} {q q' : List (Waiter Unit)}
  {pc : Tid → MpfPc} {t u : Tid} {b : MpfPc} {blf : Nat}

/-- One task moves on to `b`, and gives back nothing that it did not. -/
theorem move (h : MpfPcs lock back q pc) (hlock : b.locked = true ↔ lock' = some t)
    (hothers : ∀ u, u ≠ t → (lock' = some u ↔ lock = some u))
    (hgives : ∀ x, b.gives = some x → (pc t).gives = some x)
    (hback : ∀ u x, (Function.update pc t b u).gives = some x → x ∈ back → x ∈ back')
    (hq : ∀ x ∈ q', x ∈ q ∧ x.tsk ≠ t) (hnd : (q'.map (·.tsk)).Nodup) :
    MpfPcs lock' back' q' (Function.update pc t b) := by
  have hold : ∀ u x, (Function.update pc t b u).gives = some x → (pc u).gives = some x := by
    intro u x hu
    by_cases hut : u = t
    · subst hut
      rw [Function.update_self] at hu
      exact hgives x hu
    · rwa [Function.update_of_ne hut] at hu
  refine ⟨fun u => ?_, fun u x hu => hback u x hu (h.gives u x (hold u x hu)),
    fun u v x hu hv => h.apart u v x (hold u x hu) (hold v x hv), fun x hx => ?_, hnd⟩
  · by_cases hut : u = t
    · subst hut
      rw [Function.update_self]
      exact hlock
    · rw [Function.update_of_ne hut, hothers u hut]
      exact h.locks u
  · obtain ⟨hx, hne⟩ := hq x hx
    rw [Function.update_of_ne hne]
    exact h.queue x hx

/-- A task that is not in the queue. -/
theorem ne_of_mem (h : MpfPcs lock back q pc) (hp : pc t ≠ .blocked) : ∀ x ∈ q, x ∈ q ∧ x.tsk ≠ t :=
  fun x hx => ⟨hx, fun he => hp (he ▸ h.queue x hx)⟩

/-- A task without the lock goes on without it. -/
theorem outside (h : MpfPcs lock back q pc) (ha : (pc t).locked = false) (hb : b.locked = false)
    (hgives : b.gives = none) (hp : pc t ≠ .blocked) :
    MpfPcs lock back q (Function.update pc t b) := by
  have hnot : lock ≠ some t := fun he => by
    rw [(h.locks t).2 he] at ha
    cases ha
  refine h.move ?_ (fun _ _ => Iff.rfl) (fun x hx => ?_) (fun _ _ _ hx => hx) (h.ne_of_mem hp) h.nodup
  · rw [hb]
    exact iff_of_false Bool.false_ne_true hnot
  · rw [hgives] at hx
    cases hx

/-- tk_rel_mpf is called. -/
theorem giveBack (h : MpfPcs lock back q pc) (hp : pc t = .user) (hb : blf ∉ back) :
    MpfPcs lock (blf :: back) q (Function.update pc t (.rel blf)) := by
  have hnot : lock ≠ some t := fun he => by
    have := (h.locks t).2 he
    rw [hp] at this
    cases this
  have hold : ∀ u x, u ≠ t → (Function.update pc t (.rel blf) u).gives = some x → x ∈ back := by
    intro u x hut hu
    rw [Function.update_of_ne hut] at hu
    exact h.gives u x hu
  have hself : ∀ x, (Function.update pc t (.rel blf) t).gives = some x → x = blf := by
    intro x hx
    rw [Function.update_self] at hx
    exact (Option.some.inj hx).symm
  refine ⟨fun u => ?_, fun u x hu => ?_, fun u v x hu hv => ?_, fun x hx => ?_, h.nodup⟩
  · by_cases hut : u = t
    · subst hut
      rw [Function.update_self]
      exact iff_of_false Bool.false_ne_true hnot
    · rw [Function.update_of_ne hut]
      exact h.locks u
  · by_cases hut : u = t
    · subst hut
      rw [hself x hu]
      exact List.mem_cons_self
    · exact List.mem_cons_of_mem _ (hold u x hut hu)
  · by_cases hut : u = t
    · by_cases hvt : v = t
      · rw [hut, hvt]
      · subst hut
        have := hold v x hvt hv
        rw [hself x hu] at this
        exact absurd this hb
    · by_cases hvt : v = t
      · subst hvt
        have := hold u x hut hu
        rw [hself x hv] at this
        exact absurd this hb
      · rw [Function.update_of_ne hut] at hu
        rw [Function.update_of_ne hvt] at hv
        exact h.apart u v x hu hv
  · obtain ⟨hx, hne⟩ := h.ne_of_mem (t := t) (by simp [hp]) x hx
    rw [Function.update_of_ne hne]
    exact h.queue x hx

/-- The block of another task stays. -/
theorem back_erase (h : MpfPcs lock back q pc) (hp : (pc t).gives = some blf)
    (hb : b.gives = none) : ∀ u x, (Function.update pc t b u).gives = some x → x ∈ back →
      x ∈ back.erase blf := by
  intro u x hu hx
  have hut : u ≠ t := fun he => by
    subst he
    rw [Function.update_self, hb] at hu
    cases hu
  rw [Function.update_of_ne hut] at hu
  refine (List.mem_erase_of_ne fun he => hut ?_).2 hx
  subst he
  exact h.apart u t x hu hp

/-- A task waits. -/
theorem wait (h : MpfPcs (some t) back q pc) (hw : ∀ x ∈ q, x.tsk ≠ t) {x : Waiter Unit}
    (hx : x.tsk = t) (hq : q'.Perm (x :: q)) :
    MpfPcs none back q' (Function.update pc t .blocked) := by
  refine ⟨fun u => ?_, fun u y hu => ?_, fun u v y hu hv => ?_, fun y hy => ?_, ?_⟩
  · by_cases hut : u = t
    · subst hut
      rw [Function.update_self]
      simp [MpfPc.locked]
    · rw [Function.update_of_ne hut, h.locks u]
      simp [Ne.symm hut]
  · by_cases hut : u = t
    · subst hut
      rw [Function.update_self] at hu
      cases hu
    · rw [Function.update_of_ne hut] at hu
      exact h.gives u y hu
  · by_cases hut : u = t
    · subst hut
      rw [Function.update_self] at hu
      cases hu
    · by_cases hvt : v = t
      · subst hvt
        rw [Function.update_self] at hv
        cases hv
      · rw [Function.update_of_ne hut] at hu
        rw [Function.update_of_ne hvt] at hv
        exact h.apart u v y hu hv
  · rcases List.mem_cons.1 (hq.mem_iff.1 hy) with rfl | hy
    · rw [hx, Function.update_self]
    · rw [Function.update_of_ne (hw y hy)]
      exact h.queue y hy
  · refine (hq.map _).nodup_iff.2 (List.nodup_cons.2 ⟨fun hin => ?_, h.nodup⟩)
    obtain ⟨y, hy, he⟩ := List.mem_map.1 hin
    exact hw y hy (he.trans hx)

/-- A waiting task leaves the queue. -/
theorem leave (h : MpfPcs lock back q pc) (hp : pc t = .blocked) (hq : ∀ x ∈ q', x ∈ q ∧ x.tsk ≠ t)
    (hnd : (q'.map (·.tsk)).Nodup) : MpfPcs lock back q' (Function.update pc t .user) := by
  have hnot : lock ≠ some t := fun he => by
    have := (h.locks t).2 he
    rw [hp] at this
    cases this
  refine h.move ?_ (fun _ _ => Iff.rfl) (fun x hx => ?_) (fun _ _ _ hx => hx) hq hnd
  · exact iff_of_false Bool.false_ne_true hnot
  · cases hx

end MpfPcs

end Mtk3Smp
