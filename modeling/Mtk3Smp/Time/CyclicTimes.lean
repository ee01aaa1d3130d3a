import Mtk3Smp.Lib.WrapClock
import Mtk3Smp.Time.Handlers

/-!
# Activation times of cyclic handlers

The 32-bit times of a cyclic handler beside the times they stand for. The activation times lie
on a grid, which begins at the first one, with the period `cyctim`.
-/

namespace Mtk3Smp

open WrapClock

/-- The grid of activation times from `first` on. -/
def OnGrid (first cyctim x : Nat) : Prop := first ≤ x ∧ cyctim ∣ x - first

/-- `time` stands for a time on the grid that lies after `now` and is at most `limit`. -/
def NextActivation (first cyctim now limit : Nat) (time : ABSTIM) : Prop :=
  ∃ x, time = clock x ∧ now < x ∧ x ≤ limit ∧ OnGrid first cyctim x

theorem OnGrid.iff_dvd {first cyctim x y : Nat} (h : OnGrid first cyctim x) (hle : x ≤ y) :
    OnGrid first cyctim y ↔ cyctim ∣ y - x := by
  obtain ⟨hx, hd⟩ := h
  have hsum : y - first = (y - x) + (x - first) := by omega
  constructor
  · rintro ⟨-, hy⟩
    rw [hsum] at hy
    exact (Nat.dvd_add_left hd).1 hy
  · intro hy
    refine ⟨hx.trans hle, ?_⟩
    rw [hsum]
    exact Nat.dvd_add hy hd

/-- Two points of the grid are at least a period apart. -/
theorem OnGrid.apart {first cyctim x y : Nat} (hx : OnGrid first cyctim x)
    (hy : OnGrid first cyctim y) (hlt : x < y) : cyctim ≤ y - x :=
  Nat.le_of_dvd (by omega) ((hx.iff_dvd hlt.le).1 hy)

/-- A reading is that of one time only within 2 ^ 32 ms. -/
theorem nextActivation_iff {first cyctim now limit x : Nat} {time : ABSTIM}
    (htime : time = clock x) (hnow : now < x) (hfar : x ≤ now + 2 ^ 32)
    (hlimit : limit ≤ now + 2 ^ 32) :
    NextActivation first cyctim now limit time ↔ x ≤ limit ∧ OnGrid first cyctim x := by
  constructor
  · rintro ⟨y, hy, hlt, hle, hgrid⟩
    have hmod : x % 2 ^ 32 = y % 2 ^ 32 := by
      rw [← toNat_clock, ← toNat_clock, ← htime, hy]
    obtain rfl : x = y := by omega
    exact ⟨hle, hgrid⟩
  · rintro ⟨hle, hgrid⟩
    exact ⟨x, htime, hnow, hle, hgrid⟩

namespace TimeSys

variable {s : TimeSys} {h : Hdr} {now last first : Nat}

/-- `knl_abstim_reached` with the times that the readings stand for. -/
theorem reached_iff (now x : Nat) :
    knlAbstimReached (clock now) (clock x) = true ↔
      (now + (2 ^ 32 - x % 2 ^ 32)) % 2 ^ 32 < 2 ^ 31 := by
  have hmin : ABSTIM_DIFF_MIN.toNat = 0x7FFFFFFF := rfl
  rw [knlAbstimReached, decide_eq_true_iff, UInt32.le_iff_toNat_le, toNat_clock_sub, hmin]
  omega

/-- The first multiple of the period after the elapsed time, on the clock. -/
theorem clock_skip {e : Nat} (p : ABSTIM) (last : Nat) (he : e < 2 ^ 32) :
    ((clock e / p) + 1) * p + clock last = clock (last + (e / p.toNat + 1) * p.toNat) := by
  have hdiv : (clock e / p).toNat = e / p.toNat := by
    rw [UInt32.toNat_div, toNat_clock, Nat.mod_eq_of_lt he]
  have hone : (1 : UInt32).toNat = 1 := rfl
  apply UInt32.toNat_inj.1
  rw [UInt32.toNat_add, UInt32.toNat_mul, UInt32.toNat_add, hdiv, hone, toNat_clock, toNat_clock,
    Nat.add_comm last]
  simp only [Nat.mod_mul_mod, Nat.add_mod_mod, Nat.mod_add_mod]

/-- A multiple of the period after `e`. -/
theorem skip_bounds {e p : Nat} (hp : 0 < p) : e < (e / p + 1) * p ∧ (e / p + 1) * p ≤ e + p := by
  have hdm := Nat.div_add_mod e p
  have hlt := Nat.mod_lt e hp
  rw [Nat.add_mul, Nat.one_mul, Nat.mul_comm (e / p)]
  omega

section Elapsed

variable {p m r : Nat} (hcur : s.cur = clock now) (htime : (s.cb h).time = clock last)
  (hp : (s.cb h).cyctim.toNat = p) (hpos : 0 < p) (hmax : p < 2 ^ 31)

include hcur htime hp

/-- `tm` of `knl_cyc_next_time` -/
theorem knlCycNextTime_eq :
    s.knlCycNextTime h =
      if knlAbstimReached (clock now) (clock (last + p)) then
        ((clock now - clock last) / (s.cb h).cyctim + 1) * (s.cb h).cyctim + clock last
      else clock (last + p) := by
  have hcyc : (s.cb h).cyctim = clock p := by rw [← hp, clock_toNat]
  unfold knlCycNextTime
  simp only [hcur, htime, clock_add, ← hcyc]

include hpos hmax

/-- The time of `knl_cyc_next_time` when `m` turns of the clock and `r` have passed since the
stored time. -/
theorem knlCycNextTime_of_le (hr : r < 2 ^ 32) (hnow : now = last + 2 ^ 32 * m + r) :
    s.knlCycNextTime h = clock
      (if r < p then last + p + 2 ^ 32 * m
      else if r < 2 ^ 31 + p then last + (r / p + 1) * p + 2 ^ 32 * m
      else last + p + 2 ^ 32 * (m + 1)) := by
  have hreached := reached_iff now (last + p)
  rw [knlCycNextTime_eq hcur htime hp]
  by_cases hfirst : r < p
  · have hnot : ¬ (now + (2 ^ 32 - (last + p) % 2 ^ 32)) % 2 ^ 32 < 2 ^ 31 := by omega
    rw [if_neg fun hc => hnot (hreached.1 hc), if_pos hfirst, clock_add_turns]
  · rw [if_neg hfirst]
    by_cases hmid : r < 2 ^ 31 + p
    · have hyes : (now + (2 ^ 32 - (last + p) % 2 ^ 32)) % 2 ^ 32 < 2 ^ 31 := by omega
      have helapsed : clock now - clock last = clock r := by
        apply UInt32.toNat_inj.1
        rw [toNat_clock_sub, toNat_clock]
        omega
      rw [if_pos (hreached.2 hyes), if_pos hmid, helapsed, clock_add_turns, clock_skip _ _ hr, hp]
    · have hnot : ¬ (now + (2 ^ 32 - (last + p) % 2 ^ 32)) % 2 ^ 32 < 2 ^ 31 := by omega
      rw [if_neg fun hc => hnot (hreached.1 hc), if_neg hmid, clock_add_turns]

/-- The whole turns must be a multiple of the period, and the rest must not look like a time to
come. -/
theorem nextActivation_of_le (hgrid : OnGrid first p last) (hr : r < 2 ^ 32)
    (hnow : now = last + 2 ^ 32 * m + r) :
    NextActivation first p now (now + p) (s.knlCycNextTime h) ↔
      r < 2 ^ 31 + p ∧ p ∣ 2 ^ 32 * m := by
  have heq := knlCycNextTime_of_le hcur htime hp hpos hmax hr hnow
  by_cases hfirst : r < p
  · rw [if_pos hfirst] at heq
    rw [nextActivation_iff heq (by omega) (by omega) (by omega), hgrid.iff_dvd (by omega)]
    have hsub : last + p + 2 ^ 32 * m - last = p + 2 ^ 32 * m := by omega
    rw [hsub, Nat.dvd_add_right (Nat.dvd_refl p)]
    constructor
    · exact fun hx => ⟨by omega, hx.2⟩
    · exact fun hx => ⟨by omega, hx.2⟩
  · rw [if_neg hfirst] at heq
    by_cases hmid : r < 2 ^ 31 + p
    · rw [if_pos hmid] at heq
      obtain ⟨hlt, hle⟩ := skip_bounds (e := r) hpos
      rw [nextActivation_iff heq (by omega) (by omega) (by omega), hgrid.iff_dvd (by omega)]
      have hsub : last + (r / p + 1) * p + 2 ^ 32 * m - last =
          (r / p + 1) * p + 2 ^ 32 * m := by omega
      rw [hsub, Nat.dvd_add_right (Nat.dvd_mul_left p _)]
      constructor
      · exact fun hx => ⟨hmid, hx.2⟩
      · exact fun hx => ⟨by omega, hx.2⟩
    · rw [if_neg hmid] at heq
      rw [nextActivation_iff heq (by omega) (by omega) (by omega)]
      constructor
      · exact fun hx => by omega
      · exact fun hx => absurd hx.1 hmid

/-- The stored time lies ahead by the tick that was added to it: a handler that is called at
once. -/
theorem nextActivation_of_lt (hgrid : OnGrid first p last) (hlt : now < last)
    (hten : last ≤ now + 10) :
    NextActivation first p now (now + p + 10) (s.knlCycNextTime h) ↔
      last + p ≤ now + 2 ^ 31 := by
  have hreached := reached_iff now (last + p)
  have hnext : OnGrid first p (last + p) := (hgrid.iff_dvd (by omega)).2 (by simp)
  have heq := knlCycNextTime_eq hcur htime hp
  by_cases hnear : last + p ≤ now + 2 ^ 31
  · have hnot : ¬ (now + (2 ^ 32 - (last + p) % 2 ^ 32)) % 2 ^ 32 < 2 ^ 31 := by omega
    rw [if_neg fun hc => hnot (hreached.1 hc)] at heq
    rw [nextActivation_iff heq (by omega) (by omega) (by omega)]
    exact ⟨fun _ => hnear, fun _ => ⟨by omega, hnext⟩⟩
  · have hyes : (now + (2 ^ 32 - (last + p) % 2 ^ 32)) % 2 ^ 32 < 2 ^ 31 := by omega
    have helapsed : clock now - clock last = clock (2 ^ 32 + now - last) := by
      apply UInt32.toNat_inj.1
      rw [toNat_clock_sub, toNat_clock]
      omega
    rw [if_pos (hreached.2 hyes), helapsed, clock_skip _ _ (by omega), hp] at heq
    constructor
    · rintro ⟨x, hx, hxnow, hxlimit, hxgrid⟩
      have hmod : x % 2 ^ 32 = (last + ((2 ^ 32 + now - last) / p + 1) * p) % 2 ^ 32 := by
        rw [← toNat_clock, ← toNat_clock, ← hx, heq]
      have hdm := Nat.div_add_mod (2 ^ 32 + now - last) p
      have hrest := Nat.mod_lt (2 ^ 32 + now - last) hpos
      generalize (2 ^ 32 + now - last) / p = q at hmod hdm
      -- the division skips one period or two
      have hq : q = 1 ∨ q = 2 := by
        have hle : q ≤ 2 := by
          by_contra hgt
          have : p * 3 ≤ p * q := Nat.mul_le_mul_left p (by omega)
          omega
        have hne : q ≠ 0 := by
          rintro rfl
          omega
        omega
      rcases hq with rfl | rfl
      · have hturn : x + 2 ^ 32 = last + (1 + 1) * p := by
          clear hreached hyes hdm hrest
          omega
        have hlow : x < last := by omega
        have := hxgrid.apart hgrid hlow
        omega
      · have hturn : x + 2 ^ 32 = last + (2 + 1) * p := by
          clear hreached hyes hdm hrest
          omega
        have hlow : x < last + p := by omega
        have := hxgrid.apart hnext hlow
        omega
    · exact fun hc => absurd hc hnear

/-- The time that tk_sta_cyc continues with, when the stored time has passed. -/
theorem nextActivation_continue (hgrid : OnGrid first p last) (hr : r < 2 ^ 32)
    (hnow : now = last + 2 ^ 32 * m + r) :
    NextActivation first p now (now + p)
        (if knlAbstimReached s.cur (s.cb h).time then s.knlCycNextTime h else (s.cb h).time) ↔
      r < 2 ^ 31 ∧ p ∣ 2 ^ 32 * m ∨ 2 ^ 32 ≤ r + p ∧ p ∣ 2 ^ 32 * (m + 1) := by
  have hreached := reached_iff now last
  rw [← hcur, ← htime] at hreached
  by_cases hpast : r < 2 ^ 31
  · have hyes : (now + (2 ^ 32 - last % 2 ^ 32)) % 2 ^ 32 < 2 ^ 31 := by omega
    rw [if_pos (hreached.2 hyes),
      nextActivation_of_le hcur htime hp hpos hmax hgrid hr hnow]
    constructor
    · exact fun hx => .inl ⟨hpast, hx.2⟩
    · rintro (hx | hx)
      · exact ⟨by omega, hx.2⟩
      · omega
  · have hnot : ¬ (now + (2 ^ 32 - last % 2 ^ 32)) % 2 ^ 32 < 2 ^ 31 := by omega
    rw [if_neg fun hc => hnot (hreached.1 hc)]
    have heq : (s.cb h).time = clock (last + 2 ^ 32 * (m + 1)) := by
      rw [clock_add_turns, htime]
    rw [nextActivation_iff heq (by omega) (by omega) (by omega), hgrid.iff_dvd (by omega),
      Nat.add_sub_cancel_left]
    constructor
    · exact fun hx => .inr ⟨by omega, hx.2⟩
    · rintro (hx | hx)
      · omega
      · exact ⟨by omega, hx.2⟩

/-- A stored time that lies ahead is kept, unless it lies too far ahead. -/
theorem continue_ahead (hlt : now < last) :
    ((if knlAbstimReached s.cur (s.cb h).time then s.knlCycNextTime h else (s.cb h).time) =
        clock last ∧ last < now + 2 ^ 32) ↔ last ≤ now + 2 ^ 31 := by
  have hreached := reached_iff now last
  rw [hcur, htime]
  by_cases hnear : last ≤ now + 2 ^ 31
  · have hnot : ¬ (now + (2 ^ 32 - last % 2 ^ 32)) % 2 ^ 32 < 2 ^ 31 := by omega
    rw [if_neg fun hc => hnot (hreached.1 hc)]
    exact ⟨fun _ => hnear, fun _ => ⟨rfl, by omega⟩⟩
  · constructor
    · rintro ⟨heq, hlast⟩
      have hyes : (now + (2 ^ 32 - last % 2 ^ 32)) % 2 ^ 32 < 2 ^ 31 := by omega
      rw [if_pos (hreached.2 hyes)] at heq
      have hmod : last % 2 ^ 32 = (s.knlCycNextTime h).toNat := by rw [heq, toNat_clock]
      rw [knlCycNextTime_eq hcur htime hp] at hmod
      have helapsed : clock now - clock last = clock (2 ^ 32 + now - last) := by
        apply UInt32.toNat_inj.1
        rw [toNat_clock_sub, toNat_clock]
        omega
      split at hmod
      · obtain ⟨hlow, hhigh⟩ := skip_bounds (e := 2 ^ 32 + now - last) hpos
        rw [helapsed, clock_skip _ _ (by omega), hp, toNat_clock] at hmod
        omega
      · rw [toNat_clock] at hmod
        omega
    · exact fun hc => absurd hc hnear

end Elapsed

/-! ## The calls -/

theorem time_knlCycTimerInsert (tm : ABSTIM) : ((s.knlCycTimerInsert h tm).cb h).time = tm := by
  show (Function.update s.cb h _ h).time = tm
  rw [Function.update_self]

theorem time_setTime (tm : ABSTIM) : ((s.setTime h tm).cb h).time = tm := by
  show (Function.update s.cb h _ h).time = tm
  rw [Function.update_self]

theorem time_setSta (sta : Bool) : ((s.setSta h sta).cb h).time = (s.cb h).time := by
  show (Function.update s.cb h _ h).time = _
  rw [Function.update_self]

theorem time_knlCallCychdr (self : Core) :
    ((s.knlCallCychdr self h).cb h).time = s.knlCycNextTime h :=
  time_knlCycTimerInsert _

/-- A stopped handler of TA_PHS. -/
structure StoppedPhs (s : TimeSys) (k : TimeCfg) (h : Hdr) : Prop where
  kind : h.kind = .cyc
  inTable : h.idx < k.numCycid
  registered : (s.cb h).hdr ≠ none
  phs : (s.cb h).phs = true
  sta : (s.cb h).sta = false

theorem time_tkStaCyc {k : TimeCfg} (hs : StoppedPhs s k h) :
    ((s.tkStaCyc k (h.idx + 1)).2.cb h).time =
      if knlAbstimReached s.cur (s.cb h).time then s.knlCycNextTime h else (s.cb h).time := by
  have hh : (⟨.cyc, h.idx + 1 - 1⟩ : Hdr) = h := by
    rw [← hs.kind]
    rfl
  have hid : ¬ (h.idx + 1 = 0 ∨ k.numCycid < h.idx + 1) := by
    have := hs.inTable
    omega
  unfold tkStaCyc withHdr
  rw [if_neg hid, hh, if_neg hs.registered]
  simp only [hs.phs, hs.sta, if_true, Bool.not_false]
  show ((setSta _ h true).cb h).time = _
  rw [time_setSta, time_knlCycTimerInsert]

/-- The first activation time, unless the handler is called at once. -/
theorem time_tkCreCyc {self : Core} {pk : Ccyc} {id : Nat} {s' : TimeSys}
    (hs : s.tkCreCyc self pk = (.ok id, s')) (hphs : pk.cycphs ≠ 0) :
    (s'.cb ⟨.cyc, id - 1⟩).time = s.cur + pk.cycphs + TIMER_PERIOD := by
  unfold tkCreCyc create at hs
  split at hs
  · cases hs
  · cases hfree : s.free .cyc with
    | nil =>
      rw [hfree] at hs
      cases hs
    | cons i rest =>
      rw [hfree] at hs
      obtain ⟨hid, hst⟩ := Prod.mk.inj hs
      obtain rfl := Except.ok.inj hid
      rw [← hst, Nat.add_sub_cancel]
      dsimp only
      split
      · exact time_knlCycTimerInsert _
      · exact time_setTime _

/-- No time before the phase has elapsed looks like the first activation. -/
theorem first_activation_iff (self : Core) {pk : Ccyc} {id : Nat} {s' : TimeSys}
    (hcur : s.cur = clock now) (hs : s.tkCreCyc self pk = (.ok id, s')) :
    (∀ t, now ≤ t → t < now + pk.cycphs.toNat →
      knlAbstimReached (clock t) (s'.cb ⟨.cyc, id - 1⟩).time = false) ↔
      pk.cycphs.toNat + TIMER_PERIOD.toNat ≤ 2 ^ 31 := by
  have hten : TIMER_PERIOD.toNat = 10 := rfl
  have hlt := pk.cycphs.toNat_lt
  by_cases hphs : pk.cycphs = 0
  · have hzero : pk.cycphs.toNat = 0 := by rw [hphs]; rfl
    rw [hzero]
    exact ⟨fun _ => by omega, fun _ t hle hlt => by omega⟩
  · have hpos : pk.cycphs.toNat ≠ 0 := fun hc => hphs (UInt32.toNat_inj.1 hc)
    have htime : (s'.cb ⟨.cyc, id - 1⟩).time = clock (now + pk.cycphs.toNat + 10) := by
      rw [time_tkCreCyc hs hphs, hcur, clock_add, clock_add, clock_toNat]
      rfl
    rw [htime]
    constructor
    · intro hall
      by_contra hfar
      -- the time looks reached right after the call, or, once it has wrapped, a tick later
      have hearly : ∃ t, now ≤ t ∧ t < now + pk.cycphs.toNat ∧
          (t + (2 ^ 32 - (now + pk.cycphs.toNat + 10) % 2 ^ 32)) % 2 ^ 32 < 2 ^ 31 := by
        by_cases hwrap : pk.cycphs.toNat + 10 < 2 ^ 32
        · exact ⟨now, by omega, by omega, by omega⟩
        · exact ⟨now + 10, by omega, by omega, by omega⟩
      obtain ⟨t, hle, hlt', hr⟩ := hearly
      have hf := hall t hle hlt'
      rw [(reached_iff t _).2 hr] at hf
      cases hf
    · intro hnear t hle hlt'
      apply Bool.eq_false_iff.2
      intro hr
      have := (reached_iff t _).1 hr
      omega

/-! ## The schedule -/

/-- The next activation time is on the grid, later than now and at most a period away, exactly
when the whole turns of the clock since the stored time are a multiple of the period and the rest
does not look like a time to come; a time ahead is kept when it is at most 2 ^ 31 ms ahead; and
the first activation does not come before the phase has elapsed exactly when the phase, which is
not checked, is that short. -/
theorem cyc_schedule (k : TimeCfg) (self : Core) {p : Nat} (hcur : s.cur = clock now)
    (htime : (s.cb h).time = clock last) (hp : (s.cb h).cyctim.toNat = p) (hpos : 0 < p)
    (hmax : p < 2 ^ 31) (hgrid : OnGrid first p last) :
    (last ≤ now →
      (NextActivation first p now (now + p) ((s.knlCallCychdr self h).cb h).time ↔
        (now - last) % 2 ^ 32 < 2 ^ 31 + p ∧ p ∣ 2 ^ 32 * ((now - last) / 2 ^ 32))) ∧
    (now < last → last ≤ now + TIMER_PERIOD.toNat →
      (NextActivation first p now (now + p + TIMER_PERIOD.toNat)
          ((s.knlCallCychdr self h).cb h).time ↔ last + p ≤ now + 2 ^ 31)) ∧
    (StoppedPhs s k h → last ≤ now →
      (NextActivation first p now (now + p) ((s.tkStaCyc k (h.idx + 1)).2.cb h).time ↔
        (now - last) % 2 ^ 32 < 2 ^ 31 ∧ p ∣ 2 ^ 32 * ((now - last) / 2 ^ 32) ∨
          2 ^ 32 ≤ (now - last) % 2 ^ 32 + p ∧ p ∣ 2 ^ 32 * ((now - last) / 2 ^ 32 + 1))) ∧
    (StoppedPhs s k h → now < last →
      (((s.tkStaCyc k (h.idx + 1)).2.cb h).time = clock last ∧ last < now + 2 ^ 32 ↔
        last ≤ now + 2 ^ 31)) ∧
    ∀ pk id s', s.tkCreCyc self pk = (.ok id, s') →
      ((∀ t, now ≤ t → t < now + pk.cycphs.toNat →
        knlAbstimReached (clock t) (s'.cb ⟨.cyc, id - 1⟩).time = false) ↔
        pk.cycphs.toNat + TIMER_PERIOD.toNat ≤ 2 ^ 31) := by
  have helapsed : last ≤ now →
      now = last + 2 ^ 32 * ((now - last) / 2 ^ 32) + (now - last) % 2 ^ 32 := fun hle => by omega
  have hrest : (now - last) % 2 ^ 32 < 2 ^ 32 := Nat.mod_lt _ (by decide)
  refine ⟨?_, ?_, ?_, ?_, ?_⟩
  · intro hle
    rw [time_knlCallCychdr]
    exact nextActivation_of_le hcur htime hp hpos hmax hgrid hrest (helapsed hle)
  · intro hlt hten
    rw [time_knlCallCychdr]
    exact nextActivation_of_lt hcur htime hp hpos hmax hgrid hlt hten
  · intro hs hle
    rw [time_tkStaCyc hs]
    exact nextActivation_continue hcur htime hp hpos hmax hgrid hrest (helapsed hle)
  · intro hs hlt
    rw [time_tkStaCyc hs]
    exact continue_ahead hcur htime hp hpos hmax hlt
  · intro pk id s' hs
    exact first_activation_iff self hcur hs

/-- A handler of period 1000 that was created, stopped, at the time 0 and never ran. -/
def stoppedSys (now : UInt64) : TimeSys :=
  { boot ⟨2, 0⟩ fun _ => ⟨none, 0, false, false, 0, 0, 0, .call⟩ with
    currentTime := now
    cb := fun _ => ⟨some 1, 0, true, false, 1000, 0, 10, .call⟩
    free := fun _ => [1] }

/-- Started 3000000000 ms after its first time, it is to run 1294967296 ms later; and a handler
with a phase of 0x90000000 ms looks due when it is created. -/
theorem cyc_schedule_far :
    (¬ NextActivation 10 1000 3000000010 (3000000010 + 1000)
      (((stoppedSys 3000000010).tkStaCyc ⟨2, 0⟩ 1).2.cb ⟨.cyc, 0⟩).time) ∧
    ∃ id s', (stoppedSys 0).tkCreCyc .core0 ⟨true, true, none, 0, some 1, 1000, 0x90000000⟩ =
      (.ok id, s') ∧ knlAbstimReached (clock 0) (s'.cb ⟨.cyc, id - 1⟩).time = true := by
  constructor
  · rintro ⟨x, hx, hlt, hle, hgrid⟩
    have htime : (((stoppedSys 3000000010).tkStaCyc ⟨2, 0⟩ 1).2.cb ⟨.cyc, 0⟩).time = clock 10 := by
      decide
    have hmod : x % 2 ^ 32 = 10 % 2 ^ 32 := by
      rw [← toNat_clock, ← toNat_clock, ← hx, htime]
    omega
  · exact ⟨2, _, rfl, by decide⟩

/-- The same handler, started 5010 ms after its first time. -/
theorem cyc_schedule_soon :
    NextActivation 10 1000 5020 (5020 + 1000)
      (((stoppedSys 5020).tkStaCyc ⟨2, 0⟩ 1).2.cb ⟨.cyc, 0⟩).time :=
  ((cyc_schedule ⟨2, 0⟩ .core0 (s := stoppedSys 5020) (h := ⟨.cyc, 0⟩) (p := 1000) (by decide)
    (show ((stoppedSys 5020).cb ⟨.cyc, 0⟩).time = clock 10 by decide) rfl (by decide) (by decide)
    ⟨le_refl 10, by decide⟩).2.2.1
    ⟨rfl, by decide, by decide, rfl, rfl⟩ (by decide)).2 (by decide)

end TimeSys

end Mtk3Smp
