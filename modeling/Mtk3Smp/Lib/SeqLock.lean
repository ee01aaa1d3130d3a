import Mathlib.Data.UInt
import Mathlib.Logic.Function.Basic

/-!
# Sequence locks

One writer bumps a wrapping version before and after it changes the shared fields; a reader
copies the fields between two reads of the version. Beside the version stand its true count and
the number of stores that were made while it was even, that is, outside the lock.
-/

universe u v

/-- `φ` are the fields and `ω` what they hold. -/
structure SeqLock (φ : Type u) (ω : Type v) where
  version : UInt32
  mem : φ → ω
  /-- the times the version has been bumped -/
  bumps : Nat
  /-- the stores made while it was even -/
  loose : Nat

/-- A reader after its first read of the version: what it read, what it has copied, and the
counts at that time. -/
structure SeqRead (φ : Type u) (ω : Type v) where
  before : UInt32
  copied : List φ
  dest : φ → ω
  bumps : Nat
  loose : Nat

namespace SeqLock

variable {φ : Type u} {ω : Type v} [DecidableEq φ] (l : SeqLock φ ω)

def bump : SeqLock φ ω := { l with version := l.version + 1, bumps := l.bumps + 1 }

def store (f : φ) (w : ω) : SeqLock φ ω :=
  { l with
    mem := Function.update l.mem f w
    loose := if l.version % 2 = 0 then l.loose + 1 else l.loose }

/-- The first read of the version; `dest` is what the destination happens to hold. -/
def beginRead (dest : φ → ω) : SeqRead φ ω :=
  { before := l.version, copied := [], dest, bumps := l.bumps, loose := l.loose }

def copy (r : SeqRead φ ω) (f : φ) : SeqRead φ ω :=
  { r with copied := f :: r.copied, dest := Function.update r.dest f (l.mem f) }

/-- The second read of the version. -/
def accepts (r : SeqRead φ ω) : Bool := r.before % 2 = 0 ∧ r.before = l.version

/-- The version shows its count. -/
def Counted : Prop := l.version = UInt32.ofNat l.bumps

/-- What is known of a reader: it has copied what is there now, if the version was even and
nothing has been bumped or stored since. -/
structure Reads (r : SeqRead φ ω) : Prop where
  before : r.before = UInt32.ofNat r.bumps
  bumps : r.bumps ≤ l.bumps
  loose : r.loose ≤ l.loose
  same : r.bumps = l.bumps → r.before % 2 = 0 → r.loose = l.loose →
    ∀ f ∈ r.copied, r.dest f = l.mem f

variable {l} {r : SeqRead φ ω}

omit [DecidableEq φ] in
theorem Counted.bump (h : l.Counted) : l.bump.Counted := by
  show l.version + 1 = UInt32.ofNat (l.bumps + 1)
  rw [h, UInt32.ofNat_add]
  rfl

theorem Counted.store (h : l.Counted) (f : φ) (w : ω) : (l.store f w).Counted := h

omit [DecidableEq φ] in
theorem reads_beginRead (h : l.Counted) (dest : φ → ω) : l.Reads (l.beginRead dest) where
  before := h
  bumps := le_rfl
  loose := le_rfl
  same _ _ _ f hf := by cases hf

theorem Reads.copy (h : l.Reads r) (f : φ) : l.Reads (l.copy r f) where
  before := h.before
  bumps := h.bumps
  loose := h.loose
  same hb he hl g hg := by
    show Function.update r.dest f (l.mem f) g = l.mem g
    by_cases hgf : g = f
    · subst hgf
      rw [Function.update_self]
    · rw [Function.update_of_ne hgf]
      rcases List.mem_cons.1 hg with hg | hg
      · exact absurd hg hgf
      · exact h.same hb he hl g hg

omit [DecidableEq φ] in
theorem Reads.bump (h : l.Reads r) : l.bump.Reads r where
  before := h.before
  bumps := Nat.le_succ_of_le h.bumps
  loose := h.loose
  same hb := by
    have hb' : r.bumps = l.bumps + 1 := hb
    have hle := h.bumps
    omega

/-- A store is either inside the lock, where no reader has an even version, or counted. -/
theorem Reads.store (h : l.Reads r) (hc : l.Counted) (f : φ) (w : ω) : (l.store f w).Reads r where
  before := h.before
  bumps := h.bumps
  loose := by
    have hle := h.loose
    show r.loose ≤ if l.version % 2 = 0 then l.loose + 1 else l.loose
    split
    · exact Nat.le_succ_of_le hle
    · exact hle
  same hb he hl := by
    have hle := h.loose
    have hodd : ¬ l.version % 2 = 0 := by
      intro heven
      have hl' : r.loose = if l.version % 2 = 0 then l.loose + 1 else l.loose := hl
      rw [if_pos heven] at hl'
      omega
    have hb' : r.bumps = l.bumps := hb
    rw [h.before, hb', ← hc] at he
    exact absurd he hodd

omit [DecidableEq φ] in
/-- An accepted copy is what the fields hold now, unless the version has gone round or there were
stores outside the lock. -/
theorem Reads.accepted (h : l.Reads r) (hc : l.Counted) (ha : l.accepts r = true)
    (hround : l.bumps < r.bumps + 2 ^ 32) (hloose : r.loose = l.loose) :
    (∀ f ∈ r.copied, r.dest f = l.mem f) ∧ l.version % 2 = 0 := by
  obtain ⟨heven, heq⟩ := of_decide_eq_true ha
  have hle := h.bumps
  have hmod : r.bumps % 2 ^ 32 = l.bumps % 2 ^ 32 := by
    have hnat := congrArg UInt32.toNat heq
    rw [h.before, hc] at hnat
    simpa using hnat
  have hsame : r.bumps = l.bumps := by omega
  exact ⟨h.same hsame heven hloose, heq ▸ heven⟩

end SeqLock
