import Mtk3Smp.Dev.Adc

/-!
# The samples of the A/D converter

The buffer of a call is only written while the call is in progress. A call that succeeds returns
the sample of its own conversion in every run where no call gives up its conversion: a sample that
arrives after that stays in ADC_FIFO, for the call that comes next.
-/

namespace Mtk3Smp

namespace AdcSys

variable {s t : AdcSys} {e : AdcEvent}

/-- The sample of the current call. -/
def Own (s : AdcSys) (x : AdcSample) : Prop := x.req = some s.req ∧ x.ch = s.ch

/-- The conversion of the current call is started, and its wait is not over. -/
def Started (s : AdcSys) : Prop := s.pc ≠ .idle ∧ s.pc ≠ .ready

/-- What holds in every run. -/
structure Kept (s : AdcSys) : Prop where
  begun : s.active = true → s.Started
  buf : s.active = true → ∀ b, s.buf = some b → b = s.req
  flg : s.flgptn = true → s.active = false
  ended : s.pc = .leave none → s.active = false
  latched : s.hdr ≠ .out → s.latched = false
  opened : s.pc ≠ .idle → s.fcsEn = true
  inside : ∀ w ∈ s.writes, w.2 = true

/-- Nothing is left over from a conversion. -/
def Quiet (s : AdcSys) : Prop :=
  s.inte = false ∧ s.conv = none ∧ s.fifo = [] ∧ s.latched = false ∧ s.hdr ≠ .entered

/-- The conversion of the current call is in progress, or its sample alone is in ADC_FIFO. -/
def Busy (s : AdcSys) : Prop :=
  s.conv = some (s.req, s.ch) ∧ s.fifo = [] ∧ s.latched = false ∧ s.hdr ≠ .entered ∨
    s.conv = none ∧ ∃ x, s.fifo = [x] ∧ s.Own x

/-- What holds where every conversion that was started has been taken. -/
structure Fresh (s : AdcSys) : Prop where
  quiet : s.active = false → s.Quiet
  busy : s.active = true → s.Busy
  data : s.active = false → s.Started → s.asz = 1 ∧ ∃ x, s.mem s.req = some x ∧ s.Own x
  own : ∀ d ∈ s.done, ∀ n, d.rtn = .ok n →
    ∃ x, d.data = some x ∧ x.req = some d.req ∧ x.ch = d.ch

theorem Kept.boot (h : s.Boot) : s.Kept := by
  obtain ⟨⟨hactive, -⟩, hflg, hhdr, hpc, -, hwrites⟩ := h
  refine ⟨?_, ?_, ?_, ?_, ?_, ?_, ?_⟩
  · intro ha
    rw [hactive] at ha
    cases ha
  · intro ha
    rw [hactive] at ha
    cases ha
  · intro hf
    rw [hflg] at hf
    cases hf
  · intro _
    exact hactive
  · intro hne
    exact absurd hhdr hne
  · intro hne
    exact absurd hpc hne
  · rw [hwrites]
    nofun

theorem Fresh.boot (h : s.Boot) : s.Fresh := by
  obtain ⟨⟨hactive, hinte, hconv, hfifo, hlatched⟩, -, hhdr, hpc, hdone, -⟩ := h
  refine ⟨?_, ?_, ?_, ?_⟩
  · intro _
    refine ⟨hinte, hconv, hfifo, hlatched, ?_⟩
    rw [hhdr]
    nofun
  · intro ha
    rw [hactive] at ha
    cases ha
  · intro _ hst
    exact absurd hpc hst.1
  · rw [hdone]
    nofun

/-! ## The calls -/

theorem adcConvert_cases (ch size : Int) (null : Bool) :
    (∃ rtn, s.adcConvert ch size null =
      { s with req := s.req + 1, ch, null }.adcReturn (.error rtn)) ∨
    s.adcConvert ch size null = { s with req := s.req + 1, ch, null, pc := .ready } := by
  unfold adcConvert
  dsimp only
  by_cases hch : ch < 0 ∨ ch > ADC_CH_NUM - 1
  · rw [if_pos hch]
    exact Or.inl ⟨_, rfl⟩
  · rw [if_neg hch]
    by_cases hsize : size ≠ 1
    · rw [if_pos hsize]
      exact Or.inl ⟨_, rfl⟩
    · rw [if_neg hsize]
      exact Or.inr rfl

/-- Between two calls, nothing is converted. -/
theorem Kept.inactive (h : s.Kept) (hpc : s.pc = .idle ∨ s.pc = .ready) : s.active = false := by
  cases ha : s.active with
  | false => rfl
  | true =>
    obtain ⟨hidle, hready⟩ := h.begun ha
    rcases hpc with hpc | hpc
    · exact absurd hpc hidle
    · exact absurd hpc hready

theorem Kept.of_inactive (ha : t.active = false) (hlatched : t.hdr ≠ .out → t.latched = false)
    (hopened : t.pc ≠ .idle → t.fcsEn = true) (hinside : ∀ w ∈ t.writes, w.2 = true) : t.Kept := by
  have habsurd : ∀ {P : Prop}, t.active = true → P := by
    intro P ht
    rw [ha] at ht
    cases ht
  exact ⟨habsurd, habsurd, fun _ => ha, fun _ => ha, hlatched, hopened, hinside⟩

theorem leave_cases {err : Option AdcWaitErr} (h : s.Kept) (hpc : s.pc = .leave err) :
    (s.active = false ∧ ∃ rtn, s.leave err = s.adcReturn rtn ∧
      ∀ n, rtn = .ok n → s.asz = 1 ∧ n = 1) ∨
    (s.active = true ∧ (∃ e, err = some e) ∧ ∃ rtn, s.leave err =
      { s with inte := false, active := false, buf := none }.adcReturn (.error rtn)) := by
  unfold AdcSys.leave
  cases err with
  | none =>
    have hno : ¬((none : Option AdcWaitErr) ≠ none ∧ s.active = true) := fun hne => hne.1 rfl
    rw [if_neg hno]
    refine Or.inl ⟨h.ended hpc, _, rfl, ?_⟩
    intro n hn
    by_cases hasz : s.asz = 1
    · rw [if_pos hasz] at hn
      exact ⟨hasz, (Except.ok.inj hn).symm⟩
    · rw [if_neg hasz] at hn
      cases hn
  | some err =>
    cases ha : s.active with
    | false =>
      have hno : ¬(some err ≠ none ∧ false = true) := fun hne => Bool.false_ne_true hne.2
      rw [if_neg hno]
      exact Or.inl ⟨rfl, .error (.wait err), rfl, nofun⟩
    | true =>
      have hyes : some err ≠ none ∧ true = true := ⟨nofun, rfl⟩
      rw [if_pos hyes]
      exact Or.inr ⟨rfl, ⟨err, rfl⟩, .wait err, rfl⟩

theorem setFlg_cases (s : AdcSys) :
    s.pc = .waiting ∧ s.setFlg = { s with pc := .leave none } ∨
      s.setFlg = { s with flgptn := true } := by
  unfold setFlg
  by_cases hpc : s.pc = .waiting
  · rw [if_pos hpc]
    exact Or.inl ⟨hpc, rfl⟩
  · rw [if_neg hpc]
    exact Or.inr rfl

/-- What the handler has stored before it sets the flag. -/
def taken (s : AdcSys) (junk : UInt32) : AdcSys :=
  { s with
    mem := Function.update s.mem s.req (some (s.inFifo junk).data)
    writes := s.writes ++ [(s.req, true)]
    fifo := s.fifo.tail
    asz := 1
    active := false
    inte := false }

theorem hdrSection_cases (h : s.Kept) (junk : UInt32) :
    s.active = true ∧ s.hdrSection junk = (s.taken junk).setFlg ∨
      s.hdrSection junk = { s with inte := false } := by
  unfold hdrSection
  cases ha : s.active with
  | false => exact Or.inr rfl
  | true =>
    cases hb : s.buf with
    | none => exact Or.inr rfl
    | some b =>
      obtain rfl : b = s.req := h.buf ha b hb
      have hin : decide (s.pc ≠ .idle ∧ s.req = s.req) = true :=
        decide_eq_true ⟨(h.begun ha).1, rfl⟩
      refine Or.inl ⟨rfl, ?_⟩
      unfold taken
      dsimp only
      rw [hin, hb]

/-! ## Every run -/

theorem Kept.step (h : s.Kept) (hs : s.step e = some t) : t.Kept := by
  cases e with
  | adcOpen =>
    obtain ⟨hpc, hs⟩ := Option.ite_none_right_eq_some.1 hs
    cases hs
    exact ⟨h.begun, h.buf, h.flg, h.ended, h.latched, fun _ => rfl, h.inside⟩
  | adcClose =>
    obtain ⟨hpc, hs⟩ := Option.ite_none_right_eq_some.1 hs
    cases hs
    exact ⟨h.begun, h.buf, h.flg, h.ended, h.latched, h.opened, h.inside⟩
  | adcConvert ch size null =>
    obtain ⟨⟨hpc, hopen⟩, hs⟩ := Option.ite_none_right_eq_some.1 hs
    have ha := h.inactive (Or.inl hpc)
    rcases adcConvert_cases (s := s) ch size null with ⟨rtn, heq⟩ | heq
    · rw [heq] at hs
      cases hs
      exact .of_inactive ha h.latched (fun _ => hopen) h.inside
    · rw [heq] at hs
      cases hs
      exact .of_inactive ha h.latched (fun _ => hopen) h.inside
  | start =>
    obtain ⟨⟨hpc, -⟩, hs⟩ := Option.ite_none_right_eq_some.1 hs
    cases hs
    have hopen : s.fcsEn = true := by
      apply h.opened
      rw [hpc]
      nofun
    refine ⟨fun _ => ⟨nofun, nofun⟩, ?_, nofun, nofun, h.latched, fun _ => hopen, h.inside⟩
    intro _ b hb
    cases hnull : s.null with
    | true =>
      rw [AdcSys.start, hnull] at hb
      cases hb
    | false =>
      rw [AdcSys.start, hnull] at hb
      exact (Option.some.inj hb).symm
  | waiFlg =>
    obtain ⟨hpc, hs⟩ := Option.ite_none_right_eq_some.1 hs
    have hopen : s.fcsEn = true := by
      apply h.opened
      rw [hpc]
      nofun
    cases hs
    unfold AdcSys.waiFlg
    cases hf : s.flgptn with
    | true => exact .of_inactive (h.flg hf) h.latched (fun _ => hopen) h.inside
    | false =>
      refine ⟨fun _ => ⟨nofun, nofun⟩, h.buf, ?_, nofun, h.latched, fun _ => hopen, h.inside⟩
      nofun
  | giveUp err =>
    obtain ⟨hpc, hs⟩ := Option.ite_none_right_eq_some.1 hs
    cases hs
    have hopen : s.fcsEn = true := by
      apply h.opened
      rcases hpc with hpc | hpc <;> rw [hpc] <;> nofun
    exact ⟨fun _ => ⟨nofun, nofun⟩, h.buf, h.flg, nofun, h.latched, fun _ => hopen, h.inside⟩
  | leave =>
    dsimp only [AdcSys.step] at hs
    split at hs
    · rename_i err hpc
      cases hs
      rcases leave_cases h hpc with ⟨ha, rtn, heq, -⟩ | ⟨ha, -, rtn, heq⟩
      · rw [heq]
        exact .of_inactive ha h.latched (fun hne => absurd rfl hne) h.inside
      · rw [heq]
        exact .of_inactive rfl h.latched (fun hne => absurd rfl hne) h.inside
    · cases hs
  | convEnd value =>
    dsimp only [AdcSys.step] at hs
    split at hs
    · cases hs
      exact ⟨h.begun, h.buf, h.flg, h.ended, h.latched, h.opened, h.inside⟩
    · cases hs
  | latch =>
    obtain ⟨⟨hhdr, -⟩, hs⟩ := Option.ite_none_right_eq_some.1 hs
    cases hs
    exact ⟨h.begun, h.buf, h.flg, h.ended, fun hne => absurd hhdr hne, h.opened, h.inside⟩
  | hdrEnter =>
    obtain ⟨-, hs⟩ := Option.ite_none_right_eq_some.1 hs
    cases hs
    exact ⟨h.begun, h.buf, h.flg, h.ended, fun _ => rfl, h.opened, h.inside⟩
  | hdrSection junk =>
    obtain ⟨hhdr, hs⟩ := Option.ite_none_right_eq_some.1 hs
    cases hs
    have hlatched : s.latched = false := by
      apply h.latched
      rw [hhdr]
      nofun
    rcases hdrSection_cases h junk with ⟨ha, heq⟩ | heq
    · rw [heq]
      have hopen : s.fcsEn = true := h.opened (h.begun ha).1
      have hinside : ∀ w ∈ (s.taken junk).writes, w.2 = true := by
        intro w hw
        rcases List.mem_append.1 hw with hw | hw
        · exact h.inside w hw
        · rw [List.mem_singleton.1 hw]
      rcases setFlg_cases (s.taken junk) with ⟨-, heq⟩ | heq
      · rw [heq]
        exact .of_inactive rfl (fun _ => hlatched) (fun _ => hopen) hinside
      · rw [heq]
        exact .of_inactive rfl (fun _ => hlatched) (fun _ => hopen) hinside
    · rw [heq]
      exact ⟨h.begun, h.buf, h.flg, h.ended, fun _ => hlatched, h.opened, h.inside⟩
  | hdrClear =>
    obtain ⟨-, hs⟩ := Option.ite_none_right_eq_some.1 hs
    cases hs
    exact ⟨h.begun, h.buf, h.flg, h.ended, fun _ => rfl, h.opened, h.inside⟩

/-! ## Runs without a sample that is left over -/

/-- A call whose wait has failed only leaves after the handler has taken its sample. -/
def OnTime (s : AdcSys) : AdcEvent → Prop
  | .leave => ∀ err, s.pc = .leave (some err) → s.active = false
  | _ => True

theorem Fresh.idle (h : s.Fresh) (hq : t.active = false → t.Quiet) (ha : t.active = false)
    (hpc : ¬t.Started) (hdone : t.done = s.done) : t.Fresh := by
  refine ⟨hq, ?_, ?_, ?_⟩
  · intro ht
    rw [ha] at ht
    cases ht
  · intro _ hst
    exact absurd hst hpc
  · rw [hdone]
    exact h.own

theorem Fresh.step (k : s.Kept) (h : s.Fresh) (ok : OnTime s e) (hs : s.step e = some t) :
    t.Fresh := by
  cases e with
  | adcOpen =>
    obtain ⟨-, hs⟩ := Option.ite_none_right_eq_some.1 hs
    cases hs
    exact ⟨h.quiet, h.busy, h.data, h.own⟩
  | adcClose =>
    obtain ⟨hpc, hs⟩ := Option.ite_none_right_eq_some.1 hs
    cases hs
    have hquiet : s.active = false → Quiet { s with inte := false } := fun ha =>
      ⟨rfl, (h.quiet ha).2⟩
    exact ⟨hquiet, h.busy, h.data, h.own⟩
  | adcConvert ch size null =>
    obtain ⟨⟨hpc, -⟩, hs⟩ := Option.ite_none_right_eq_some.1 hs
    have ha := k.inactive (Or.inl hpc)
    have hquiet := h.quiet ha
    have habsurd : ∀ {P : Prop}, s.active = true → P := by
      intro P ht
      rw [ha] at ht
      cases ht
    rcases adcConvert_cases (s := s) ch size null with ⟨rtn, heq⟩ | heq
    · rw [heq] at hs
      cases hs
      refine ⟨fun _ => hquiet, habsurd, fun _ hst => absurd rfl hst.1, ?_⟩
      intro d hd n hn
      rcases List.mem_append.1 hd with hd | hd
      · exact h.own d hd n hn
      · rw [List.mem_singleton.1 hd] at hn
        cases hn
    · rw [heq] at hs
      cases hs
      exact ⟨fun _ => hquiet, habsurd, fun _ hst => absurd rfl hst.2, h.own⟩
  | start =>
    obtain ⟨⟨hpc, -⟩, hs⟩ := Option.ite_none_right_eq_some.1 hs
    cases hs
    obtain ⟨-, -, hfifo, hlatched, hhdr⟩ := h.quiet (k.inactive (Or.inr hpc))
    exact ⟨nofun, fun _ => Or.inl ⟨rfl, hfifo, hlatched, hhdr⟩, nofun, h.own⟩
  | waiFlg =>
    obtain ⟨hpc, hs⟩ := Option.ite_none_right_eq_some.1 hs
    cases hs
    have hst : s.Started := by
      unfold Started
      rw [hpc]
      exact ⟨nofun, nofun⟩
    unfold AdcSys.waiFlg
    cases hf : s.flgptn with
    | true => exact ⟨h.quiet, h.busy, fun ha _ => h.data ha hst, h.own⟩
    | false => exact ⟨h.quiet, h.busy, fun ha _ => h.data ha hst, h.own⟩
  | giveUp err =>
    obtain ⟨hpc, hs⟩ := Option.ite_none_right_eq_some.1 hs
    cases hs
    have hst : s.Started := by
      unfold Started
      rcases hpc with hpc | hpc <;> rw [hpc] <;> exact ⟨nofun, nofun⟩
    exact ⟨h.quiet, h.busy, fun ha _ => h.data ha hst, h.own⟩
  | leave =>
    dsimp only [AdcSys.step] at hs
    split at hs
    · rename_i err hpc
      cases hs
      rcases leave_cases k hpc with ⟨ha, rtn, heq, hrtn⟩ | ⟨ha, ⟨e, rfl⟩, -⟩
      · rw [heq]
        have hst : s.Started := by
          unfold Started
          rw [hpc]
          exact ⟨nofun, nofun⟩
        obtain ⟨-, hdata⟩ := h.data ha hst
        refine ⟨fun _ => h.quiet ha, ?_, fun _ hst => absurd rfl hst.1, ?_⟩
        · intro ht
          rw [show s.active = true from ht] at ha
          cases ha
        · intro d hd n hn
          rcases List.mem_append.1 hd with hd | hd
          · exact h.own d hd n hn
          · rw [List.mem_singleton.1 hd]
            exact hdata
      · rw [ok e hpc] at ha
        cases ha
    · cases hs
  | convEnd value =>
    dsimp only [AdcSys.step] at hs
    split at hs
    · rename_i req ch hconv
      cases hs
      have ha : s.active = true := by
        cases ha : s.active with
        | true => rfl
        | false =>
          rw [(h.quiet ha).2.1] at hconv
          cases hconv
      have hopen : s.fcsEn = true := k.opened (k.begun ha).1
      have hbusy : Busy { s with
          conv := none
          fifo := if s.fcsEn then s.fifo ++ [{ req := some req, ch, value }] else s.fifo } := by
        rcases h.busy ha with ⟨hc, hfifo, -, -⟩ | ⟨hc, -⟩
        · rw [hc] at hconv
          cases hconv
          refine Or.inr ⟨rfl, { req := some s.req, ch := s.ch, value }, ?_, rfl, rfl⟩
          rw [if_pos hopen, hfifo]
          rfl
        · rw [hc] at hconv
          cases hconv
      refine ⟨?_, fun _ => hbusy, ?_, h.own⟩
      · intro hf
        rw [show s.active = false from hf] at ha
        cases ha
      · intro hf
        rw [show s.active = false from hf] at ha
        cases ha
    · cases hs
  | latch =>
    obtain ⟨⟨-, -, hfifo⟩, hs⟩ := Option.ite_none_right_eq_some.1 hs
    cases hs
    refine ⟨?_, ?_, h.data, h.own⟩
    · intro ha
      exact absurd (h.quiet ha).2.2.1 hfifo
    · intro ha
      rcases h.busy ha with ⟨-, hnil, -⟩ | hbusy
      · exact absurd hnil hfifo
      · exact Or.inr hbusy
  | hdrEnter =>
    obtain ⟨⟨-, hlatched⟩, hs⟩ := Option.ite_none_right_eq_some.1 hs
    cases hs
    refine ⟨?_, ?_, h.data, h.own⟩
    · intro ha
      rw [(h.quiet ha).2.2.2.1] at hlatched
      cases hlatched
    · intro ha
      rcases h.busy ha with ⟨-, -, hno, -⟩ | hbusy
      · rw [hno] at hlatched
        cases hlatched
      · exact Or.inr hbusy
  | hdrSection junk =>
    obtain ⟨hhdr, hs⟩ := Option.ite_none_right_eq_some.1 hs
    cases hs
    have hlatched : s.latched = false := by
      apply k.latched
      rw [hhdr]
      nofun
    have hactive : s.active = true := by
      cases ha : s.active with
      | true => rfl
      | false => exact absurd hhdr (h.quiet ha).2.2.2.2
    obtain ⟨hconv, x, hfifo, hown⟩ : s.conv = none ∧ ∃ x, s.fifo = [x] ∧ s.Own x := by
      rcases h.busy hactive with ⟨-, -, -, hne⟩ | hbusy
      · exact absurd hhdr hne
      · exact hbusy
    rcases hdrSection_cases k junk with ⟨-, heq⟩ | heq
    · rw [heq]
      have hnil : s.fifo.tail = [] := by
        rw [hfifo]
        rfl
      have hmem : (s.taken junk).mem s.req = some x.data := by
        unfold taken inFifo
        rw [hfifo]
        exact Function.update_self ..
      have hdata : (1 : Nat) = 1 ∧ ∃ x, (s.taken junk).mem s.req = some x ∧ s.Own x :=
        ⟨rfl, x.data, hmem, hown⟩
      rcases setFlg_cases (s.taken junk) with ⟨-, heq⟩ | heq
      · rw [heq]
        exact ⟨fun _ => ⟨rfl, hconv, hnil, hlatched, nofun⟩, nofun, fun _ _ => hdata, h.own⟩
      · rw [heq]
        exact ⟨fun _ => ⟨rfl, hconv, hnil, hlatched, nofun⟩, nofun, fun _ _ => hdata, h.own⟩
    · rw [heq]
      refine ⟨?_, fun _ => Or.inr ⟨hconv, x, hfifo, hown⟩, h.data, h.own⟩
      intro ha
      rw [show s.active = false from ha] at hactive
      cases hactive
  | hdrClear =>
    obtain ⟨hhdr, hs⟩ := Option.ite_none_right_eq_some.1 hs
    cases hs
    refine ⟨?_, ?_, h.data, h.own⟩
    · intro ha
      obtain ⟨hinte, hconv, hfifo, -, -⟩ := h.quiet ha
      exact ⟨hinte, hconv, hfifo, rfl, nofun⟩
    · intro ha
      rcases h.busy ha with ⟨hconv, hfifo, -, -⟩ | hbusy
      · exact Or.inl ⟨hconv, hfifo, rfl, nofun⟩
      · exact Or.inr hbusy

/-! ## The calls that return -/

/-- A call that succeeds has stored the sample of its own conversion and channel; and a buffer is
written to while its call is in progress. -/
structure SamplesRight (s : AdcSys) : Prop where
  own : ∀ d ∈ s.done, ∀ n, d.rtn = .ok n →
    ∃ x, d.data = some x ∧ x.req = some d.req ∧ x.ch = d.ch
  inside : ∀ w ∈ s.writes, w.2 = true

theorem Kept.reachable {P : AdcSys → AdcEvent → Prop} (h : adcMachine.ReachableIf P s) : s.Kept :=
  h.invariant Kept (fun _ => .boot) fun _ _ _ k _ hs => k.step hs

/-- No buffer is written to after its call has returned, whatever the calls wait for. -/
theorem writes_inside (h : adcMachine.Reachable s) : ∀ w ∈ s.writes, w.2 = true :=
  (Kept.reachable h).inside

theorem samples_right (h : adcMachine.ReachableIf OnTime s) : s.SamplesRight := by
  have hinv : s.Kept ∧ s.Fresh := by
    apply h.invariant fun s => s.Kept ∧ s.Fresh
    · intro s hs
      exact ⟨.boot hs, .boot hs⟩
    · rintro s e t ⟨k, h⟩ ok hs
      exact ⟨k.step hs, h.step k ok hs⟩
  exact ⟨hinv.2.own, hinv.1.inside⟩

/-- A state after `dev_adc_llinit`. -/
def start₀ : AdcSys where
  buf := none
  asz := 0
  active := false
  flgptn := false
  inte := false
  fcsEn := false
  conv := none
  fifo := []
  latched := false
  hdr := .out
  pc := .idle
  req := 0
  ch := 0
  null := false
  mem := fun _ => none
  done := []
  writes := []

theorem boot₀ : start₀.Boot := ⟨⟨rfl, rfl, rfl, rfl, rfl⟩, rfl, rfl, rfl, rfl, rfl⟩

def onTime (s : AdcSys) : AdcEvent → Bool
  | .leave =>
    match s.pc with
    | .leave (some _) => !s.active
    | _ => true
  | _ => true

theorem onTime_sound (s : AdcSys) (e : AdcEvent) (h : s.onTime e = true) : s.OnTime e := by
  cases e with
  | leave =>
    intro err hpc
    unfold onTime at h
    rw [hpc] at h
    rwa [Bool.not_eq_true'] at h
  | _ => trivial

theorem samples_right_late : ∃ s, adcMachine.ReachableIf OnTime s ∧
    s.writes = [(1, true), (2, true)] ∧ s.SamplesRight := by
  obtain ⟨s, hs, hw⟩ := Lts.reachable_of_exec (L := adcMachine)
    (p := fun s => decide (s.writes = [(1, true), (2, true)])) onTime_sound
    [.adcOpen, .adcConvert 2 1 false, .start, .waiFlg, .convEnd 100, .latch, .hdrEnter,
      .hdrSection 0, .leave, .hdrClear, .adcConvert 0 1 false, .start, .convEnd 200, .latch,
      .hdrEnter, .giveUp .E_TMOUT, .hdrSection 0, .leave] boot₀ (by decide)
  exact ⟨s, hs, of_decide_eq_true hw, samples_right hs⟩

/-- The first call gives up while its conversion is in progress; the second one, for another
channel, returns the sample of the first. -/
theorem samples_wrong : ∃ s, adcMachine.Reachable s ∧ ¬s.SamplesRight := by
  obtain ⟨s, hs, hdone⟩ := Lts.reachable_of_trace (L := adcMachine)
    (p := fun s => s.done.any fun d : AdcDone => decide (d.req = 2 ∧ d.rtn.toOption = some 1) &&
      d.data.any fun x : AdcSample => decide (x.req = some 1))
    [.adcOpen, .adcConvert 0 1 false, .start, .waiFlg, .giveUp .E_TMOUT, .leave, .convEnd 100,
      .adcConvert 1 1 false, .start, .latch, .hdrEnter, .hdrSection 0, .waiFlg, .leave]
    boot₀ (by decide)
  refine ⟨s, hs, ?_⟩
  intro hright
  obtain ⟨d, hd, hbad⟩ := List.any_eq_true.1 hdone
  rw [Bool.and_eq_true, decide_eq_true_iff] at hbad
  obtain ⟨⟨hreq, hrtn⟩, hdata⟩ := hbad
  have hok : d.rtn = .ok 1 := by
    cases hr : d.rtn with
    | error e =>
      rw [hr] at hrtn
      cases hrtn
    | ok n =>
      rw [hr] at hrtn
      rw [Option.some.inj hrtn]
  obtain ⟨x, hx, hown, -⟩ := hright.own d hd 1 hok
  rw [hx, Option.any_some, decide_eq_true_iff, hown, hreq] at hdata
  cases hdata

end AdcSys

end Mtk3Smp
