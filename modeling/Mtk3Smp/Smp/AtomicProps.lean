import Mtk3Smp.Smp.Atomic

/-!
# What the spin locks and atomic words keep

The invariant has four parts: what a thread knows at each place of a call, the lock words
against the calls that hold the locks, the cores, and the words against the log of updates.
-/

namespace Mtk3Smp

namespace Spin

/-- Between the claim of the hardware lock and its release. -/
def Pc.inSection : Pc → Bool
  | .load | .store | .release => true
  | _ => false

/-- Where ATOMIC_ENTER has masked the interrupts. -/
def Pc.masked : Pc → Bool
  | .claim | .load | .store | .release | .leave => true
  | _ => false

/-- Where an update has been made and the call has not returned. -/
def Pc.flying : Pc → Bool
  | .release | .leave => true
  | _ => false

/-- The word `n` after a list of updates. -/
def valueAfter (n : Nat) (w : UW) (log : List Entry) : UW :=
  log.foldl (fun w e => if e.n = n then e.a.after w else w) w

/-- The update that a thread has made and not returned from. -/
def inFlight (t : Nat) (th : Thread) : List Entry :=
  match th.pc, th.call with
  | .release, .atomic n a => [⟨t, n, a, th.old⟩]
  | .leave, .atomic n a => [⟨t, n, a, th.old⟩]
  | _, _ => []

/-- What a thread that is `th` knows. -/
structure ThreadOk (s : Sys) (t : Nat) (th : Thread) : Prop where
  hw : th.pc.inSection = true ↔ s.hw = some t
  loaded : th.pc = .store → ∀ n a, th.call = .atomic n a →
    s.mem (.word n) = th.old
  free : th.pc = .store → ∀ l, th.call.lockOf = some l →
    th.old = 0 → s.holds l = []
  got : th.pc = .release ∨ th.pc = .leave →
    ∀ l, th.call.lockOf = some l → th.old = 0 →
      s.holds l = [⟨.locking t, none, th.found⟩]
  mine : th.pc = .unlock → ∀ l, th.call.unlockOf = some l →
    ∃ v f, s.holds l = [⟨.unlocking t, v, f⟩]
  own : th.pc ≠ .idle → ∀ v, th.call.varOf = some v →
    s.use v = some (.call t)
  val : th.pc ≠ .idle → th.pc ≠ .mask →
    ∀ l v, th.call = .iSpinLock l v → s.var v = th.found
  sts : th.pc ≠ .idle → th.pc ≠ .mask →
    ∀ l v, th.call = .iSpinTryLock l v → th.sts = th.found
  passed : th.pc = .unlock → ∀ l, th.call = .iSpinUnlock l →
    th.intsts = th.found
  passing : th.pc = .unmask → th.intsts = th.found

/-- The lock word that goes with the calls that hold the lock. -/
def lockWord : List Hold → UW
  | [] => 0
  | _ :: _ => 1

theorem lockWord_zero {hs : List Hold} (h : lockWord hs = 0) : hs = [] := by
  cases hs with
  | nil => rfl
  | cons x xs => exact absurd (show (1 : UW) = 0 from h) (by decide)

structure SharedOk (s : Sys) : Prop where
  one : ∀ l, (s.holds l).length ≤ 1
  word : ∀ l, s.mem (.splock l) = lockWord (s.holds l)
  held : ∀ l v f, ⟨.held, some v, f⟩ ∈ s.holds l → s.use v = some (.hold l) ∧ s.var v = f
  restores : ∀ e ∈ s.restores, e.1 = e.2

structure CoreOk (s : Sys) : Prop where
  run : s.run .core0 ≠ s.run .core1
  off : ∀ t, (∀ k, s.run k ≠ t) → (s.thread t).pc.masked = false
  mask : ∀ k, (s.thread (s.run k)).pc.masked = true → s.primask k ≠ 0

structure LogOk (s : Sys) : Prop where
  value : ∀ n, s.mem (.word n) = valueAfter n (s.word0 n) s.log
  olds : ∀ pre e post, s.log = pre ++ e :: post → e.old = valueAfter e.n (s.word0 e.n) pre
  once : ∀ t, s.log.filter (fun e => e.t == t) =
    (s.rets t).map Prod.fst ++ inFlight t (s.thread t)
  results : ∀ t, ∀ e ∈ s.rets t, e.2 = e.1.a.result e.1.old

structure SpinOk (s : Sys) : Prop where
  thread : ∀ t, ThreadOk s t (s.thread t)
  shared : SharedOk s
  core : CoreOk s
  log : LogOk s

variable {s s' : Sys} {t u : Nat} {k : Core}

/-! ## Steps seen from elsewhere -/

/-- What a thread knows survives what leaves its holds and its variables alone. -/
theorem ThreadOk.frame {th : Thread} (ok : ThreadOk s u th)
    (hhw : s'.hw = some u ↔ s.hw = some u)
    (hmem : th.pc = .store → ∀ n, s'.mem (.word n) = s.mem (.word n))
    (hfree : th.pc = .store → ∀ l, s.holds l = [] → s'.holds l = [])
    (hholds : ∀ l st v f, s.holds l = [⟨st, v, f⟩] → st = .locking u ∨ st = .unlocking u →
      s'.holds l = [⟨st, v, f⟩])
    (huse : ∀ v, s.use v = some (.call u) → s'.use v = some (.call u) ∧ s'.var v = s.var v) :
    ThreadOk s' u th := by
  constructor
  · rw [hhw]
    exact ok.hw
  · intro hpc n a hc
    rw [hmem hpc]
    exact ok.loaded hpc n a hc
  · intro hpc l hc hold
    exact hfree hpc l (ok.free hpc l hc hold)
  · intro hpc l hc hold
    exact hholds l _ _ _ (ok.got hpc l hc hold) (Or.inl rfl)
  · intro hpc l hc
    obtain ⟨v, f, hh⟩ := ok.mine hpc l hc
    exact ⟨v, f, hholds l _ _ _ hh (Or.inr rfl)⟩
  · intro hpc v hc
    exact (huse v (ok.own hpc v hc)).1
  · intro hpc hm l v hc
    rw [(huse v (ok.own hpc v (by rw [hc]; rfl))).2]
    exact ok.val hpc hm l v hc
  · exact ok.sts
  · exact ok.passed
  · exact ok.passing

/-- What a step leaves alone that concerns its own thread and core only. -/
structure Quiet (s s' : Sys) : Prop where
  mem : s'.mem = s.mem
  holds : s'.holds = s.holds
  use : s'.use = s.use
  var : s'.var = s.var

theorem ThreadOk.quiet {th : Thread} (ok : ThreadOk s u th) (q : Quiet s s')
    (hhw : s'.hw = some u ↔ s.hw = some u) : ThreadOk s' u th := by
  refine ok.frame hhw (fun _ n => by rw [q.mem]) (fun _ l h => by rw [q.holds]; exact h)
    (fun l st v f h _ => by rw [q.holds]; exact h) fun v h => ⟨by rw [q.use]; exact h, ?_⟩
  rw [q.var]

theorem SharedOk.quiet (ok : SharedOk s) (q : Quiet s s') (hr : s'.restores = s.restores) :
    SharedOk s' := by
  refine ⟨fun l => ?_, fun l => ?_, fun l v f h => ?_, ?_⟩
  · rw [q.holds]
    exact ok.one l
  · rw [q.mem, q.holds]
    exact ok.word l
  · rw [q.holds] at h
    rw [q.use, q.var]
    exact ok.held l v f h
  · rw [hr]
    exact ok.restores

theorem CoreOk.move (ok : CoreOk s) (hrun : s'.run = s.run)
    (hth : ∀ u, u ≠ s.run k → s'.thread u = s.thread u)
    (hmask : ∀ j, j ≠ k → s'.primask j = s.primask j)
    (hown : (s'.thread (s.run k)).pc.masked = true → s'.primask k ≠ 0) : CoreOk s' := by
  refine ⟨?_, fun u hu => ?_, fun j hj => ?_⟩
  · rw [hrun]
    exact ok.run
  · rw [hrun] at hu
    rw [hth u fun he => hu k he.symm]
    exact ok.off u hu
  · rw [hrun] at hj
    by_cases hjk : j = k
    · subst hjk
      exact hown hj
    · have hne : s.run j ≠ s.run k := by
        intro he
        cases j <;> cases k
        · exact hjk rfl
        · exact ok.run he
        · exact ok.run he.symm
        · exact hjk rfl
      rw [hth _ hne] at hj
      rw [hmask j hjk]
      exact ok.mask j hj

theorem LogOk.quiet (ok : LogOk s) (hmem : ∀ n, s'.mem (.word n) = s.mem (.word n))
    (hlog : s'.log = s.log) (hrets : s'.rets = s.rets) (hword : s'.word0 = s.word0)
    (hfly : ∀ u, inFlight u (s'.thread u) = inFlight u (s.thread u)) : LogOk s' := by
  refine ⟨fun n => ?_, fun pre e post h => ?_, fun u => ?_, fun u => ?_⟩
  · rw [hmem, hword, hlog]
    exact ok.value n
  · rw [hlog] at h
    rw [hword]
    exact ok.olds pre e post h
  · rw [hlog, hrets, hfly]
    exact ok.once u
  · rw [hrets]
    exact ok.results u

theorem inFlight_nil {th : Thread} (h : th.pc.flying = false) : inFlight u th = [] := by
  unfold inFlight
  split
  · rename_i hpc _
    rw [hpc] at h
    cases h
  · rename_i hpc _
    rw [hpc] at h
    cases h
  · rfl

/-- One thread at most is in the section. -/
theorem SpinOk.alone (ok : SpinOk s) (h : (s.thread t).pc.inSection = true) (hu : u ≠ t) :
    (s.thread u).pc.inSection = false := by
  by_contra hin
  have ht := (ok.thread t).hw.1 h
  have hu' := (ok.thread u).hw.1 (by simpa using hin)
  rw [ht] at hu'
  injection hu' with he
  exact hu he.symm

theorem SpinOk.not_store (ok : SpinOk s) (h : (s.thread t).pc.inSection = true) (hu : u ≠ t) :
    (s.thread u).pc ≠ .store := by
  intro hpc
  have hout := ok.alone h hu
  rw [hpc] at hout
  cases hout

/-- A step of one core, its thread and the shared data seen to. -/
theorem SpinOk.of_step (ok : SpinOk s) {th : Thread} (hnew : s'.thread (s.run k) = th)
    (hrun : s'.run = s.run)
    (hth : ∀ u, u ≠ s.run k → s'.thread u = s.thread u)
    (hmask : ∀ j, j ≠ k → s'.primask j = s.primask j)
    (hown : th.pc.masked = true → s'.primask k ≠ 0)
    (hself : ThreadOk s' (s.run k) th)
    (hothers : ∀ u, u ≠ s.run k → ThreadOk s' u (s.thread u))
    (shared : SharedOk s') (log : LogOk s') : SpinOk s' := by
  refine ⟨fun u => ?_, shared, ok.core.move hrun hth hmask ?_, log⟩
  · by_cases hu : u = s.run k
    · rw [hu, hnew]
      exact hself
    · rw [hth u hu]
      exact hothers u hu
  · rw [hnew]
    exact hown

/-- The log where no update is made and none returns. -/
theorem LogOk.step (ok : LogOk s) {th : Thread} (hnew : s'.thread t = th)
    (hth : ∀ u, u ≠ t → s'.thread u = s.thread u)
    (hmem : ∀ n, s'.mem (.word n) = s.mem (.word n))
    (hlog : s'.log = s.log) (hrets : s'.rets = s.rets) (hword : s'.word0 = s.word0)
    (hfly : inFlight t th = inFlight t (s.thread t)) : LogOk s' := by
  refine ok.quiet hmem hlog hrets hword fun u => ?_
  by_cases hu : u = t
  · rw [hu, hnew]
    exact hfly
  · rw [hth u hu]

/-- A step that touches its own thread and mask only. -/
theorem SpinOk.of_quiet (ok : SpinOk s) {th : Thread} (hnew : s'.thread (s.run k) = th)
    (q : Quiet s s') (hhw : s'.hw = s.hw) (hrun : s'.run = s.run)
    (hth : ∀ u, u ≠ s.run k → s'.thread u = s.thread u)
    (hmask : ∀ j, j ≠ k → s'.primask j = s.primask j)
    (hown : th.pc.masked = true → s'.primask k ≠ 0)
    (hself : ThreadOk s (s.run k) th)
    (hlog : s'.log = s.log) (hrets : s'.rets = s.rets) (hword : s'.word0 = s.word0)
    (hres : s'.restores = s.restores)
    (hfly : inFlight (s.run k) th = inFlight (s.run k) (s.thread (s.run k))) : SpinOk s' :=
  ok.of_step hnew hrun hth hmask hown (hself.quiet q (by rw [hhw]))
    (fun u _ => (ok.thread u).quiet q (by rw [hhw])) (ok.shared.quiet q hres)
    (ok.log.step hnew hth (fun n => by rw [q.mem]) hlog hrets hword hfly)

/-- Where a thread knows no more than its variable. -/
def Pc.plain : Pc → Bool
  | .idle | .mask | .enter | .claim | .load | .restore => true
  | _ => false

theorem ThreadOk.of_plain {th : Thread} (hpc : th.pc.plain = true)
    (hhw : th.pc.inSection = true ↔ s.hw = some t)
    (own : th.pc ≠ .idle → ∀ v, th.call.varOf = some v → s.use v = some (.call t))
    (val : th.pc ≠ .idle → th.pc ≠ .mask →
      ∀ l v, th.call = .iSpinLock l v → s.var v = th.found)
    (sts : th.pc ≠ .idle → th.pc ≠ .mask →
      ∀ l v, th.call = .iSpinTryLock l v → th.sts = th.found) : ThreadOk s t th := by
  refine ⟨hhw, fun h => ?_, fun h => ?_, fun h => ?_, fun h => ?_, own, val, sts, fun h => ?_,
    fun h => ?_⟩
  · rw [h] at hpc
    cases hpc
  · rw [h] at hpc
    cases hpc
  · rcases h with h | h
    all_goals
      rw [h] at hpc
      cases hpc
  · rw [h] at hpc
    cases hpc
  · rw [h] at hpc
    cases hpc
  · rw [h] at hpc
    cases hpc

/-- A thread outside the section that stays outside. -/
theorem ThreadOk.out {th th' : Thread} (ok : ThreadOk s t th) (h : th.pc.inSection = false)
    (h' : th'.pc.inSection = false) : th'.pc.inSection = true ↔ s.hw = some t := by
  rw [← ok.hw, h, h']

/-! ## The steps of a call -/

theorem SpinOk.enter (ok : SpinOk s) (hpc : (s.thread (s.run k)).pc = .enter) :
    SpinOk ((s.setThread (s.run k)
      { s.thread (s.run k) with pc := .claim, saved := s.primask k }).setMask k 1) := by
  have ht := ok.thread (s.run k)
  have hbusy : (s.thread (s.run k)).pc ≠ .idle ∧ (s.thread (s.run k)).pc ≠ .mask := by
    rw [hpc]
    decide
  refine ok.of_quiet (Function.update_self _ _ _) ⟨rfl, rfl, rfl, rfl⟩ rfl rfl
    (fun u hu => Function.update_of_ne hu _ _) (fun j hj => Function.update_of_ne hj _ _)
    (fun _ => ?_) ?_ rfl rfl rfl rfl ?_
  · change Function.update s.primask k 1 k ≠ 0
    rw [Function.update_self]
    decide
  · exact .of_plain rfl (ht.out (by rw [hpc]; rfl) rfl) (fun _ => ht.own hbusy.1)
      (fun _ _ => ht.val hbusy.1 hbusy.2) fun _ _ => ht.sts hbusy.1 hbusy.2
  · rw [inFlight_nil rfl, inFlight_nil (by rw [hpc]; rfl)]

theorem SpinOk.load (ok : SpinOk s) (hpc : (s.thread (s.run k)).pc = .load) {loc : Loc} {r : Rmw}
    (htarget : (s.thread (s.run k)).call.target = some (loc, r)) :
    SpinOk (s.setThread (s.run k)
      { s.thread (s.run k) with pc := .store, old := s.mem loc }) := by
  have ht := ok.thread (s.run k)
  have hbusy : (s.thread (s.run k)).pc ≠ .idle ∧ (s.thread (s.run k)).pc ≠ .mask := by
    rw [hpc]
    decide
  have hmask := ok.core.mask k (by rw [hpc]; rfl)
  have hin := ht.hw.1 (by rw [hpc]; rfl)
  refine ok.of_quiet (Function.update_self _ _ _) ⟨rfl, rfl, rfl, rfl⟩ rfl rfl
    (fun u hu => Function.update_of_ne hu _ _) (fun j hj => rfl) (fun _ => hmask) ?_
    rfl rfl rfl rfl ?_
  · refine ⟨⟨fun _ => hin, fun _ => rfl⟩, fun _ n a hc => ?_, fun _ l hc hold => ?_, fun h => ?_,
      nofun, fun _ => ht.own hbusy.1, fun _ _ => ht.val hbusy.1 hbusy.2,
      fun _ _ => ht.sts hbusy.1 hbusy.2, nofun, nofun⟩
    · dsimp only at hc ⊢
      rw [hc] at htarget
      cases htarget
      rfl
    · have hloc : loc = .splock l := by
        dsimp only at hc
        cases hcall : (s.thread (s.run k)).call with
        | spinLock m | spinTryLock m | iSpinLock m v | iSpinTryLock m v =>
          rw [hcall] at hc htarget
          cases hc
          cases htarget
          rfl
        | spinUnlock m | iSpinUnlock m | atomic n a =>
          rw [hcall] at hc
          cases hc
      dsimp only at hold
      rw [hloc, ok.shared.word l] at hold
      exact lockWord_zero hold
    · rcases h with h | h
      · cases h
      · cases h
  · rw [inFlight_nil rfl, inFlight_nil (by rw [hpc]; rfl)]

theorem SpinOk.claim (ok : SpinOk s) (hpc : (s.thread (s.run k)).pc = .claim)
    (hfree : s.hw = none) :
    SpinOk { s.setThread (s.run k) { s.thread (s.run k) with pc := .load } with
      hw := some (s.run k) } := by
  have ht := ok.thread (s.run k)
  have hbusy : (s.thread (s.run k)).pc ≠ .idle ∧ (s.thread (s.run k)).pc ≠ .mask := by
    rw [hpc]
    decide
  have hmask := ok.core.mask k (by rw [hpc]; rfl)
  have q : Quiet s { s.setThread (s.run k) { s.thread (s.run k) with pc := .load } with
      hw := some (s.run k) } := ⟨rfl, rfl, rfl, rfl⟩
  refine ok.of_step (Function.update_self _ _ _) rfl (fun u hu => Function.update_of_ne hu _ _)
    (fun j hj => rfl) (fun _ => hmask) ?_ (fun u hu => (ok.thread u).quiet q ?_)
    (ok.shared.quiet q rfl)
    (ok.log.step (Function.update_self _ _ _) (fun u hu => Function.update_of_ne hu _ _)
      (fun _ => rfl) rfl rfl rfl ?_)
  · exact .of_plain rfl ⟨fun _ => rfl, fun _ => rfl⟩ (fun _ => ht.own hbusy.1)
      (fun _ _ => ht.val hbusy.1 hbusy.2) fun _ _ => ht.sts hbusy.1 hbusy.2
  · rw [hfree]
    simpa using Ne.symm hu
  · rw [inFlight_nil rfl, inFlight_nil (by rw [hpc]; rfl)]

theorem SpinOk.release (ok : SpinOk s) (hpc : (s.thread (s.run k)).pc = .release) :
    SpinOk { s.setThread (s.run k) { s.thread (s.run k) with pc := .leave } with hw := none } := by
  have ht := ok.thread (s.run k)
  have hbusy : (s.thread (s.run k)).pc ≠ .idle ∧ (s.thread (s.run k)).pc ≠ .mask := by
    rw [hpc]
    decide
  have hmask := ok.core.mask k (by rw [hpc]; rfl)
  have hin := ht.hw.1 (by rw [hpc]; rfl)
  have q : Quiet s { s.setThread (s.run k) { s.thread (s.run k) with pc := .leave } with
      hw := none } := ⟨rfl, rfl, rfl, rfl⟩
  refine ok.of_step (Function.update_self _ _ _) rfl (fun u hu => Function.update_of_ne hu _ _)
    (fun j hj => rfl) (fun _ => hmask) ?_ (fun u hu => (ok.thread u).quiet q ?_)
    (ok.shared.quiet q rfl)
    (ok.log.step (Function.update_self _ _ _) (fun u hu => Function.update_of_ne hu _ _)
      (fun _ => rfl) rfl rfl rfl ?_)
  · exact ⟨⟨nofun, nofun⟩, nofun, nofun, fun _ => ht.got (Or.inl hpc), nofun,
      fun _ => ht.own hbusy.1, fun _ _ => ht.val hbusy.1 hbusy.2,
      fun _ _ => ht.sts hbusy.1 hbusy.2, nofun, nofun⟩
  · rw [hin]
    simpa using Ne.symm hu
  · unfold inFlight
    rw [hpc]
    cases (s.thread (s.run k)).call <;> rfl

/-! ## The store -/

theorem valueAfter_concat (n : Nat) (w : UW) (log : List Entry) (e : Entry) :
    valueAfter n w (log ++ [e]) =
      if e.n = n then e.a.after (valueAfter n w log) else valueAfter n w log := by
  unfold valueAfter
  rw [List.foldl_append]
  rfl

/-- An update joins the log. -/
theorem LogOk.update (ok : LogOk s) {th : Thread} {n : Nat} {a : Atomic}
    (hnew : s'.thread t = th) (hth : ∀ u, u ≠ t → s'.thread u = s.thread u)
    (hold : s.mem (.word n) = th.old)
    (hmem : ∀ m, s'.mem (.word m) = if n = m then a.after th.old else s.mem (.word m))
    (hlog : s'.log = s.log ++ [⟨t, n, a, th.old⟩]) (hrets : s'.rets = s.rets)
    (hword : s'.word0 = s.word0) (hbefore : inFlight t (s.thread t) = [])
    (hfly : inFlight t th = [⟨t, n, a, th.old⟩]) : LogOk s' := by
  refine ⟨fun m => ?_, fun pre e post h => ?_, fun u => ?_, fun u => ?_⟩
  · rw [hlog, hword, valueAfter_concat, hmem, ← ok.value m]
    by_cases hm : n = m
    · subst hm
      rw [if_pos rfl, if_pos rfl, hold]
    · rw [if_neg hm, if_neg hm]
  · rw [hlog] at h
    rw [hword]
    rcases List.eq_nil_or_concat post with hnil | ⟨mid, x, hx⟩
    · subst hnil
      obtain ⟨hpre, he⟩ := List.append_inj' h rfl
      injection he with he
      subst hpre he
      dsimp only
      rw [← ok.value n, hold]
    · subst hx
      have hsplit : s.log ++ [⟨t, n, a, th.old⟩] = (pre ++ e :: mid) ++ [x] := by
        rw [h]
        simp
      obtain ⟨hlog', -⟩ := List.append_inj' hsplit rfl
      exact ok.olds pre e mid hlog'
  · rw [hlog, hrets, List.filter_append, ok.once u]
    by_cases hu : u = t
    · subst hu
      rw [hnew, hfly, hbefore]
      simp
    · rw [hth u hu]
      simp [Ne.symm hu]
  · rw [hrets]
    exact ok.results u

theorem storeTo_word {mem : Loc → UW} {n : Nat} {old : UW} (a : Atomic)
    (hold : mem (.word n) = old) (m : Nat) :
    a.rmw.storeTo mem (.word n) old (.word m) =
      if n = m then a.after old else mem (.word m) := by
  unfold Rmw.storeTo Atomic.after
  by_cases hm : n = m
  · subst hm
    rw [if_pos rfl]
    cases a.rmw.stored old with
    | none => exact hold
    | some value => exact Function.update_self _ _ _
  · have hne : Loc.word m ≠ .word n := fun he => hm (by injection he with he; exact he.symm)
    rw [if_neg hm]
    cases a.rmw.stored old with
    | none => rfl
    | some value => exact Function.update_of_ne hne _ _

theorem storeTo_splock {mem : Loc → UW} {n : Nat} {old : UW} (r : Rmw) (l : Nat) :
    r.storeTo mem (.word n) old (.splock l) = mem (.splock l) := by
  have hne : Loc.splock l ≠ .word n := fun he => nomatch he
  unfold Rmw.storeTo
  cases r.stored old with
  | none => rfl
  | some value => exact Function.update_of_ne hne _ _

theorem SpinOk.storeAtomic (ok : SpinOk s) (hpc : (s.thread (s.run k)).pc = .store) {n : Nat}
    {a : Atomic} (hcall : (s.thread (s.run k)).call = .atomic n a)
    (hs : s.store (s.run k) (s.thread (s.run k)) = some s') : SpinOk s' := by
  have ht := ok.thread (s.run k)
  have hin := ht.hw.1 (by rw [hpc]; rfl)
  have hmask := ok.core.mask k (by rw [hpc]; rfl)
  have hold := ht.loaded hpc n a hcall
  have hs' : s' = { s.setThread (s.run k) { s.thread (s.run k) with pc := .release } with
      mem := a.rmw.storeTo s.mem (.word n) (s.thread (s.run k)).old
      log := s.log ++ [⟨s.run k, n, a, (s.thread (s.run k)).old⟩] } := by
    unfold Sys.store at hs
    simp only [hcall, Call.target, Call.lockOf, Option.some.injEq] at hs ⊢
    exact hs.symm
  subst hs'
  refine ok.of_step (Function.update_self _ _ _) rfl (fun u hu => Function.update_of_ne hu _ _)
    (fun j hj => rfl) (fun _ => hmask) ?_ (fun u hu => (ok.thread u).frame Iff.rfl
      (fun h => absurd h (ok.not_store (by rw [hpc]; rfl) hu)) (fun _ _ h => h)
      (fun _ _ _ _ h _ => h) fun _ h => ⟨h, rfl⟩) ?_
    (ok.log.update (Function.update_self _ _ _) (fun u hu => Function.update_of_ne hu _ _)
      hold (storeTo_word a hold) rfl rfl rfl (inFlight_nil (by rw [hpc]; rfl)) ?_)
  · refine ⟨⟨fun _ => hin, fun _ => rfl⟩, nofun, nofun, fun _ l hc => ?_, nofun, fun _ v hv => ?_,
      fun _ _ l v hv => ?_, fun _ _ l v hv => ?_, nofun, nofun⟩
    all_goals
      dsimp only at *
      rw [hcall] at *
      simp [Call.lockOf, Call.varOf] at *
  · exact ⟨ok.shared.one, fun l => (storeTo_splock _ l).trans (ok.shared.word l), ok.shared.held,
      ok.shared.restores⟩
  · unfold inFlight
    dsimp only
    rw [hcall]

theorem store_lock {th : Thread} {l : Nat} (hlock : th.call.lockOf = some l)
    (hs : s.store t th = some s') :
    (th.old = 0 ∧ s' = { s.setThread t { th with pc := .release } with
      mem := Function.update s.mem (.splock l) 1
      holds := Function.update s.holds l (s.holds l ++ [⟨.locking t, none, th.found⟩]) }) ∨
    (th.old ≠ 0 ∧ s' = s.setThread t { th with pc := .release }) := by
  have htarget : th.call.target = some (.splock l, .cmpxchg 0 1) := by
    cases hc : th.call with
    | spinLock m | spinTryLock m | iSpinLock m v | iSpinTryLock m v =>
      rw [hc] at hlock
      cases hlock
      rfl
    | spinUnlock m | iSpinUnlock m | atomic n a =>
      rw [hc] at hlock
      cases hlock
  unfold Sys.store at hs
  rw [htarget] at hs
  dsimp only at hs
  rw [hlock] at hs
  dsimp only at hs
  by_cases hold : th.old = 0
  · have hmem : (Rmw.cmpxchg 0 1).storeTo s.mem (.splock l) th.old =
        Function.update s.mem (.splock l) 1 := by
      rw [hold]
      rfl
    rw [if_pos hold, hmem] at hs
    injection hs with hs
    exact Or.inl ⟨hold, hs.symm⟩
  · have hmem : (Rmw.cmpxchg 0 1).storeTo s.mem (.splock l) th.old = s.mem := by
      simp only [Rmw.storeTo, Rmw.stored, if_neg hold]
    rw [if_neg hold, hmem] at hs
    injection hs with hs
    exact Or.inr ⟨hold, hs.symm⟩

/-- What a lock call knows after its store, the hold apart. -/
theorem ThreadOk.stored {th : Thread} (ok : ThreadOk s t th) (hpc : th.pc = .store)
    (huse : s'.use = s.use) (hvar : s'.var = s.var) (hhw : s'.hw = s.hw)
    (hgot : ∀ l, th.call.lockOf = some l → th.old = 0 →
      s'.holds l = [⟨.locking t, none, th.found⟩]) :
    ThreadOk s' t { th with pc := .release } := by
  have hin := ok.hw.1 (by rw [hpc]; rfl)
  have hbusy : th.pc ≠ .idle ∧ th.pc ≠ .mask := by
    rw [hpc]
    decide
  refine ⟨⟨fun _ => by rw [hhw]; exact hin, fun _ => rfl⟩, nofun, nofun, fun _ => hgot, nofun,
    fun _ v hv => ?_, fun _ _ l v hv => ?_, fun _ _ => ok.sts hbusy.1 hbusy.2, nofun, nofun⟩
  · rw [huse]
    exact ok.own hbusy.1 v hv
  · rw [hvar]
    exact ok.val hbusy.1 hbusy.2 l v hv

theorem inFlight_lock {th : Thread} {l : Nat} (h : th.call.lockOf = some l) :
    inFlight t th = [] := by
  unfold inFlight
  split
  · rename_i hc
    rw [hc] at h
    cases h
  · rename_i hc
    rw [hc] at h
    cases h
  · rfl

theorem SpinOk.storeLock (ok : SpinOk s) (hpc : (s.thread (s.run k)).pc = .store) {l : Nat}
    (hlock : (s.thread (s.run k)).call.lockOf = some l)
    (hs : s.store (s.run k) (s.thread (s.run k)) = some s') : SpinOk s' := by
  have ht := ok.thread (s.run k)
  have hin := ht.hw.1 (by rw [hpc]; rfl)
  have hmask := ok.core.mask k (by rw [hpc]; rfl)
  have hfly : inFlight (s.run k) { s.thread (s.run k) with pc := .release } =
      inFlight (s.run k) (s.thread (s.run k)) := by
    have hnew : inFlight (s.run k) { s.thread (s.run k) with pc := .release } = [] :=
      inFlight_lock (l := l) hlock
    rw [hnew, inFlight_lock hlock]
  rcases store_lock hlock hs with ⟨hold, rfl⟩ | ⟨hold, rfl⟩
  · -- the lock word was 0, so no call holds the lock
    have hnone := ht.free hpc l hlock hold
    have hwords : ∀ n, Function.update s.mem (.splock l) 1 (.word n) = s.mem (.word n) :=
      fun n => Function.update_of_ne (show Loc.word n ≠ .splock l from nofun) _ _
    have hself : ∀ m, m ≠ l → Function.update s.holds l
        (s.holds l ++ [⟨.locking (s.run k), none, (s.thread (s.run k)).found⟩]) m = s.holds m :=
      fun m hm => Function.update_of_ne hm _ _
    have hone : Function.update s.holds l
        (s.holds l ++ [⟨.locking (s.run k), none, (s.thread (s.run k)).found⟩]) l =
        [⟨.locking (s.run k), none, (s.thread (s.run k)).found⟩] := by
      rw [Function.update_self, hnone, List.nil_append]
    refine ok.of_step (Function.update_self _ _ _) rfl (fun u hu => Function.update_of_ne hu _ _)
      (fun j hj => rfl) (fun _ => hmask) (ht.stored hpc rfl rfl rfl fun m hm _ => ?_)
      (fun u hu => (ok.thread u).frame Iff.rfl
        (fun h => absurd h (ok.not_store (by rw [hpc]; rfl) hu))
        (fun h => absurd h (ok.not_store (by rw [hpc]; rfl) hu)) (fun m st v f h _ => ?_)
        fun _ h => ⟨h, rfl⟩) ⟨fun m => ?_, fun m => ?_, fun m v f h => ?_, ok.shared.restores⟩
      (ok.log.step (Function.update_self _ _ _) (fun u hu => Function.update_of_ne hu _ _)
        hwords rfl rfl rfl hfly)
    · rw [hlock] at hm
      injection hm with hm
      subst hm
      exact hone
    · have hml : m ≠ l := by
        rintro rfl
        rw [hnone] at h
        cases h
      exact (hself m hml).trans h
    · by_cases hml : m = l
      · subst hml
        dsimp only
        rw [hone]
        exact Nat.le_refl 1
      · dsimp only
        rw [hself m hml]
        exact ok.shared.one m
    · by_cases hml : m = l
      · subst hml
        dsimp only
        rw [hone, Function.update_self]
        rfl
      · have hne : Loc.splock m ≠ .splock l := fun he => hml (by injection he)
        dsimp only
        rw [hself m hml, Function.update_of_ne hne]
        exact ok.shared.word m
    · by_cases hml : m = l
      · subst hml
        dsimp only at h
        rw [hone, List.mem_singleton] at h
        cases h
      · dsimp only at h
        rw [hself m hml] at h
        exact ok.shared.held m v f h
  · have q : Quiet s (s.setThread (s.run k) { s.thread (s.run k) with pc := .release }) :=
      ⟨rfl, rfl, rfl, rfl⟩
    exact ok.of_step (Function.update_self _ _ _) rfl
      (fun u hu => Function.update_of_ne hu _ _) (fun j hj => rfl) (fun _ => hmask)
      (ht.stored hpc rfl rfl rfl fun m _ h0 => absurd h0 hold)
      (fun u _ => (ok.thread u).quiet q Iff.rfl) (ok.shared.quiet q rfl)
      (ok.log.step (Function.update_self _ _ _) (fun u hu => Function.update_of_ne hu _ _)
        (fun _ => rfl) rfl rfl rfl hfly)

/-! ## The end of an atomic function -/

theorem granted_eq {th : Thread} {l : Nat} {v : Option Nat} {h : Hold} (hh : s.holds l = [h]) :
    s.granted t th l v = { s.setThread t { th with pc := .idle } with
      holds := Function.update s.holds l [⟨.held, v, h.found⟩] } := by
  have hh' : (s.setThread t { th with pc := .idle }).holds l = [h] := hh
  unfold Sys.granted
  dsimp only
  rw [hh']
  rfl

/-- The hold of a call that returns is one that its unlock may end. -/
theorem SharedOk.granted (ok : SharedOk s) {l : Nat} {f : UW} {v : Option Nat}
    (hh : s.holds l = [⟨.locking t, none, f⟩]) (hmem : s'.mem = s.mem)
    (hholds : s'.holds = Function.update s.holds l [⟨.held, v, f⟩])
    (hres : s'.restores = s.restores)
    (hnew : ∀ w, v = some w → s'.use w = some (.hold l) ∧ s'.var w = f)
    (hold : ∀ m w g, ⟨.held, some w, g⟩ ∈ s.holds m → s'.use w = s.use w ∧ s'.var w = s.var w) :
    SharedOk s' := by
  have hother : ∀ m, m ≠ l → s'.holds m = s.holds m := by
    intro m hm
    rw [hholds]
    exact Function.update_of_ne hm _ _
  have hself : s'.holds l = [⟨.held, v, f⟩] := by
    rw [hholds]
    exact Function.update_self _ _ _
  refine ⟨fun m => ?_, fun m => ?_, fun m w g hm => ?_, ?_⟩
  · by_cases hml : m = l
    · subst hml
      rw [hself]
      exact Nat.le_refl 1
    · rw [hother m hml]
      exact ok.one m
  · rw [hmem]
    by_cases hml : m = l
    · subst hml
      have hword := ok.word m
      rw [hh] at hword
      rw [hself, hword]
      rfl
    · rw [hother m hml]
      exact ok.word m
  · by_cases hml : m = l
    · subst hml
      rw [hself, List.mem_singleton] at hm
      injection hm with h1 h2 h3
      subst h3
      exact hnew w h2.symm
    · rw [hother m hml] at hm
      obtain ⟨hu, hv⟩ := hold m w g hm
      rw [hu, hv]
      exact ok.held m w g hm
  · rw [hres]
    exact ok.restores

/-- A lock call that returns `E_OK`. -/
theorem SpinOk.granted (ok : SpinOk s) (hpc : (s.thread (s.run k)).pc = .leave) {l : Nat}
    (hlock : (s.thread (s.run k)).call.lockOf = some l) (hold : (s.thread (s.run k)).old = 0)
    {v : Option Nat} (hnew : s'.thread = Function.update s.thread (s.run k)
      { s.thread (s.run k) with pc := .idle })
    (hholds : s'.holds = Function.update s.holds l
      [⟨.held, v, (s.thread (s.run k)).found⟩])
    (hmem : s'.mem = s.mem) (hhw : s'.hw = s.hw) (hrun : s'.run = s.run)
    (hmask : ∀ j, j ≠ k → s'.primask j = s.primask j) (hlog : s'.log = s.log)
    (hrets : s'.rets = s.rets) (hword : s'.word0 = s.word0) (hres : s'.restores = s.restores)
    (hvar : ∀ w, v = some w → s'.use w = some (.hold l) ∧ s'.var w = (s.thread (s.run k)).found)
    (hsame : ∀ w, s.use w ≠ some (.call (s.run k)) → s'.use w = s.use w ∧ s'.var w = s.var w) :
    SpinOk s' := by
  have ht := ok.thread (s.run k)
  have hgot := ht.got (Or.inr hpc) l hlock hold
  have hth : ∀ u, u ≠ s.run k → s'.thread u = s.thread u := by
    intro u hu
    rw [hnew]
    exact Function.update_of_ne hu _ _
  have hself : s'.thread (s.run k) = { s.thread (s.run k) with pc := .idle } := by
    rw [hnew]
    exact Function.update_self _ _ _
  have hout : (s.thread (s.run k)).pc.inSection = false := by
    rw [hpc]
    rfl
  refine ok.of_step hself hrun hth hmask (fun h => nomatch h) ?_ (fun u hu => ?_) ?_
    (ok.log.step hself hth (fun n => by rw [hmem]) hlog hrets hword ?_)
  · refine .of_plain rfl ?_ (fun h => absurd rfl h) (fun h => absurd rfl h)
      fun h => absurd rfl h
    rw [hhw]
    exact ht.out hout rfl
  · refine (ok.thread u).frame (by rw [hhw]) (fun _ n => by rw [hmem]) (fun _ m hm => ?_)
      (fun m st w f hm hst => ?_) fun w hw => ?_
    · have hml : m ≠ l := by
        rintro rfl
        rw [hgot] at hm
        cases hm
      rw [hholds, Function.update_of_ne hml]
      exact hm
    · have hml : m ≠ l := by
        rintro rfl
        rw [hgot] at hm
        injection hm with hm
        injection hm with hm
        subst hm
        rcases hst with hst | hst
        · injection hst with he
          exact hu he.symm
        · cases hst
      rw [hholds, Function.update_of_ne hml]
      exact hm
    · have hne : s.use w ≠ some (.call (s.run k)) := by
        rw [hw]
        intro he
        injection he with he
        injection he with he
        exact hu he
      obtain ⟨h1, h2⟩ := hsame w hne
      rw [h1, h2]
      exact ⟨hw, rfl⟩
  · refine ok.shared.granted hgot hmem hholds hres hvar fun m w g hm => hsame w ?_
    rw [(ok.shared.held m w g hm).1]
    exact nofun
  · rw [inFlight_nil rfl, inFlight_lock hlock]

/-- A lock call that has failed goes on in its loop, or is about to return `E_BUSY`. -/
theorem SpinOk.refused (ok : SpinOk s) (hpc : (s.thread (s.run k)).pc = .leave) {l : Nat}
    (hlock : (s.thread (s.run k)).call.lockOf = some l) {pc : Pc} (hplain : pc.plain = true)
    (hout : pc.inSection = false) (hopen : pc.masked = false) (hfly : pc.flying = false) :
    SpinOk ((s.setMask k (s.thread (s.run k)).saved).setThread (s.run k)
      { s.thread (s.run k) with pc := pc }) := by
  have ht := ok.thread (s.run k)
  have hbusy : (s.thread (s.run k)).pc ≠ .idle ∧ (s.thread (s.run k)).pc ≠ .mask := by
    rw [hpc]
    decide
  refine ok.of_quiet (Function.update_self _ _ _) ⟨rfl, rfl, rfl, rfl⟩ rfl rfl
    (fun u hu => Function.update_of_ne hu _ _) (fun j hj => Function.update_of_ne hj _ _)
    (fun h => ?_) ?_ rfl rfl rfl rfl ?_
  · rw [show pc.masked = true from h] at hopen
    cases hopen
  · exact .of_plain hplain (ht.out (by rw [hpc]; rfl) hout) (fun _ => ht.own hbusy.1)
      (fun _ _ => ht.val hbusy.1 hbusy.2) fun _ _ => ht.sts hbusy.1 hbusy.2
  · rw [inFlight_nil hfly, inFlight_lock hlock]

theorem SpinOk.leaveAtomic (ok : SpinOk s) (hpc : (s.thread (s.run k)).pc = .leave) {n : Nat}
    {a : Atomic} (hcall : (s.thread (s.run k)).call = .atomic n a) :
    SpinOk { (s.setMask k (s.thread (s.run k)).saved).setThread (s.run k)
        { s.thread (s.run k) with pc := .idle } with
      rets := Function.update s.rets (s.run k) (s.rets (s.run k) ++
        [(⟨s.run k, n, a, (s.thread (s.run k)).old⟩, a.result (s.thread (s.run k)).old)]) } := by
  have ht := ok.thread (s.run k)
  have hfly : inFlight (s.run k) (s.thread (s.run k)) =
      [⟨s.run k, n, a, (s.thread (s.run k)).old⟩] := by
    unfold inFlight
    rw [hpc, hcall]
  have q : Quiet s { (s.setMask k (s.thread (s.run k)).saved).setThread (s.run k)
        { s.thread (s.run k) with pc := .idle } with
      rets := Function.update s.rets (s.run k) (s.rets (s.run k) ++
        [(⟨s.run k, n, a, (s.thread (s.run k)).old⟩, a.result (s.thread (s.run k)).old)]) } :=
    ⟨rfl, rfl, rfl, rfl⟩
  have hnew : Function.update s.thread (s.run k) { s.thread (s.run k) with pc := .idle }
      (s.run k) = { s.thread (s.run k) with pc := .idle } := Function.update_self _ _ _
  refine ok.of_step hnew rfl (fun u hu => Function.update_of_ne hu _ _)
    (fun j hj => Function.update_of_ne hj _ _) (fun h => nomatch h) ?_
    (fun u _ => (ok.thread u).quiet q Iff.rfl) (ok.shared.quiet q rfl)
    ⟨ok.log.value, ok.log.olds, fun u => ?_, fun u e he => ?_⟩
  · exact .of_plain rfl (ht.out (by rw [hpc]; rfl) rfl) (fun h => absurd rfl h)
      (fun h => absurd rfl h) fun h => absurd rfl h
  · have honce := ok.log.once u
    by_cases hu : u = s.run k
    · subst hu
      rw [hfly] at honce
      refine honce.trans ?_
      change _ = (Function.update s.rets (s.run k) _ (s.run k)).map Prod.fst ++
        inFlight (s.run k) (Function.update s.thread (s.run k) _ (s.run k))
      rw [hnew, Function.update_self, inFlight_nil rfl]
      simp
    · refine honce.trans ?_
      change _ = (Function.update s.rets (s.run k) _ u).map Prod.fst ++
        inFlight u (Function.update s.thread (s.run k) _ u)
      rw [Function.update_of_ne hu, Function.update_of_ne hu]
  · change e ∈ Function.update s.rets (s.run k) _ u at he
    by_cases hu : u = s.run k
    · subst hu
      rw [Function.update_self, List.mem_append, List.mem_singleton] at he
      rcases he with he | he
      · exact ok.log.results _ e he
      · subst he
        rfl
    · rw [Function.update_of_ne hu] at he
      exact ok.log.results u e he

theorem SpinOk.leave (ok : SpinOk s) (hpc : (s.thread (s.run k)).pc = .leave)
    (hs : s.leave k (s.run k) (s.thread (s.run k)) = some s') : SpinOk s' := by
  have ht := ok.thread (s.run k)
  have hbusy : (s.thread (s.run k)).pc ≠ .idle ∧ (s.thread (s.run k)).pc ≠ .mask := by
    rw [hpc]
    decide
  unfold Sys.leave at hs
  dsimp only at hs
  split at hs
  · rename_i l hc
    have hlock : (s.thread (s.run k)).call.lockOf = some l := by rw [hc]; rfl
    split at hs
    · rename_i hold
      cases hs
      have hg := @granted_eq (s.setMask k (s.thread (s.run k)).saved) (s.run k)
        (s.thread (s.run k)) l none _ (ht.got (Or.inr hpc) l hlock hold)
      rw [hg]
      exact ok.granted hpc hlock hold rfl rfl rfl rfl rfl
        (fun j hj => Function.update_of_ne hj _ _) rfl rfl rfl rfl nofun fun _ _ => ⟨rfl, rfl⟩
    · cases hs
      exact ok.refused hpc hlock rfl rfl rfl rfl
  · rename_i l hc
    have hlock : (s.thread (s.run k)).call.lockOf = some l := by rw [hc]; rfl
    split at hs
    · rename_i hold
      cases hs
      have hg := @granted_eq (s.setMask k (s.thread (s.run k)).saved) (s.run k)
        (s.thread (s.run k)) l none _ (ht.got (Or.inr hpc) l hlock hold)
      rw [hg]
      exact ok.granted hpc hlock hold rfl rfl rfl rfl rfl
        (fun j hj => Function.update_of_ne hj _ _) rfl rfl rfl rfl nofun fun _ _ => ⟨rfl, rfl⟩
    · cases hs
      exact ok.refused hpc hlock rfl rfl rfl rfl
  · rename_i l v hc
    have hlock : (s.thread (s.run k)).call.lockOf = some l := by rw [hc]; rfl
    have hown := ht.own hbusy.1 v (by rw [hc]; rfl)
    have hval := ht.val hbusy.1 hbusy.2 l v hc
    split at hs
    · rename_i hold
      cases hs
      have hg := @granted_eq (s.setMask k (s.thread (s.run k)).saved) (s.run k)
        (s.thread (s.run k)) l (some v) _ (ht.got (Or.inr hpc) l hlock hold)
      rw [hg]
      refine ok.granted hpc hlock hold rfl rfl rfl rfl rfl
        (fun j hj => Function.update_of_ne hj _ _) rfl rfl rfl rfl (fun w hw => ?_) fun w hw => ?_
      · injection hw with hw
        subst hw
        exact ⟨Function.update_self _ _ _, hval⟩
      · have hwv : w ≠ v := by
          rintro rfl
          exact hw hown
        exact ⟨Function.update_of_ne hwv _ _, rfl⟩
    · cases hs
      exact ok.refused hpc hlock rfl rfl rfl rfl
  · rename_i l v hc
    have hlock : (s.thread (s.run k)).call.lockOf = some l := by rw [hc]; rfl
    have hown := ht.own hbusy.1 v (by rw [hc]; rfl)
    have hsts := ht.sts hbusy.1 hbusy.2 l v hc
    split at hs
    · rename_i hold
      cases hs
      have hg := @granted_eq (s.setMask k (s.thread (s.run k)).saved) (s.run k)
        (s.thread (s.run k)) l (some v) _ (ht.got (Or.inr hpc) l hlock hold)
      rw [hg]
      refine ok.granted hpc hlock hold rfl rfl rfl rfl rfl
        (fun j hj => Function.update_of_ne hj _ _) rfl rfl rfl rfl (fun w hw => ?_) fun w hw => ?_
      · injection hw with hw
        subst hw
        exact ⟨Function.update_self _ _ _, (Function.update_self _ _ _).trans hsts⟩
      · have hwv : w ≠ v := by
          rintro rfl
          exact hw hown
        exact ⟨Function.update_of_ne hwv _ _, Function.update_of_ne hwv _ _⟩
    · cases hs
      exact ok.refused hpc hlock rfl rfl rfl rfl
  · rename_i n a hc
    cases hs
    exact ok.leaveAtomic hpc hc
  · cases hs

/-! ## Masks and variables -/

/-- A step that changes what a variable has, or who uses it, from or to the thread's own. -/
theorem SpinOk.of_var (ok : SpinOk s) {th : Thread} (hnew : s'.thread (s.run k) = th)
    (hth : ∀ u, u ≠ s.run k → s'.thread u = s.thread u)
    (hmem : s'.mem = s.mem) (hholds : s'.holds = s.holds) (hhw : s'.hw = s.hw)
    (hrun : s'.run = s.run) (hmask : ∀ j, j ≠ k → s'.primask j = s.primask j)
    (hopen : th.pc.masked = false)
    (hsame : ∀ w u, s.use w = some u → u ≠ .call (s.run k) →
      s'.use w = s.use w ∧ s'.var w = s.var w)
    (hself : ThreadOk s' (s.run k) th) (hlog : s'.log = s.log) (hrets : s'.rets = s.rets)
    (hword : s'.word0 = s.word0) (hres : s'.restores = s.restores)
    (hfly : inFlight (s.run k) th = inFlight (s.run k) (s.thread (s.run k))) : SpinOk s' := by
  refine ok.of_step hnew hrun hth hmask (fun h => ?_) hself (fun u hu => ?_)
    ⟨fun l => ?_, fun l => ?_, fun l v f h => ?_, ?_⟩
    (ok.log.step hnew hth (fun n => by rw [hmem]) hlog hrets hword hfly)
  · rw [h] at hopen
    cases hopen
  · refine (ok.thread u).frame (by rw [hhw]) (fun _ n => by rw [hmem])
      (fun _ l h => by rw [hholds]; exact h) (fun l st v f h _ => by rw [hholds]; exact h)
      fun w hw => ?_
    obtain ⟨h1, h2⟩ := hsame w _ hw fun he => hu (by injection he)
    rw [h1, h2]
    exact ⟨hw, rfl⟩
  · rw [hholds]
    exact ok.shared.one l
  · rw [hmem, hholds]
    exact ok.shared.word l
  · rw [hholds] at h
    obtain ⟨hu, hv⟩ := ok.shared.held l v f h
    obtain ⟨h1, h2⟩ := hsame v _ hu nofun
    rw [h1, h2]
    exact ⟨hu, hv⟩
  · rw [hres]
    exact ok.shared.restores

theorem SpinOk.disint (ok : SpinOk s) (hpc : (s.thread (s.run k)).pc = .mask)
    (hs : s.disint k (s.run k) (s.thread (s.run k)) = some s') : SpinOk s' := by
  have ht := ok.thread (s.run k)
  have hbusy : (s.thread (s.run k)).pc ≠ .idle := by
    rw [hpc]
    decide
  have hfly : inFlight (s.run k) (s.thread (s.run k)) = [] := inFlight_nil (by rw [hpc]; rfl)
  have hout : (s.thread (s.run k)).pc.inSection = false := by
    rw [hpc]
    rfl
  unfold Sys.disint at hs
  dsimp only at hs
  split at hs
  · rename_i l v hc
    cases hs
    have hown := ht.own hbusy v (by rw [hc]; rfl)
    refine ok.of_var (Function.update_self _ _ _) (fun u hu => Function.update_of_ne hu _ _)
      rfl rfl rfl rfl (fun j hj => Function.update_of_ne hj _ _) rfl (fun w u hw hu => ?_) ?_
      rfl rfl rfl rfl ((inFlight_nil rfl).trans hfly.symm)
    · have hwv : w ≠ v := by
        rintro rfl
        rw [hown] at hw
        injection hw with hw
        exact hu hw.symm
      exact ⟨rfl, Function.update_of_ne hwv _ _⟩
    · refine .of_plain rfl (ht.out hout rfl) (fun _ => ht.own hbusy) (fun _ _ m w hw => ?_)
        fun _ _ m w hw => ?_
      · dsimp only at hw
        rw [hc] at hw
        cases hw
        exact Function.update_self _ _ _
      · dsimp only at hw
        rw [hc] at hw
        cases hw
  · rename_i l v hc
    cases hs
    refine ok.of_quiet (Function.update_self _ _ _) ⟨rfl, rfl, rfl, rfl⟩ rfl rfl
      (fun u hu => Function.update_of_ne hu _ _) (fun j hj => Function.update_of_ne hj _ _)
      nofun ?_ rfl rfl rfl rfl ((inFlight_nil rfl).trans hfly.symm)
    refine .of_plain rfl (ht.out hout rfl) (fun _ => ht.own hbusy) (fun _ _ m w hw => ?_)
      fun _ _ m w hw => rfl
    dsimp only at hw
    rw [hc] at hw
    cases hw
  · cases hs

theorem SpinOk.restore (ok : SpinOk s) (hpc : (s.thread (s.run k)).pc = .restore) {l v : Nat}
    (hc : (s.thread (s.run k)).call = .iSpinTryLock l v) :
    SpinOk (((s.setThread (s.run k) { s.thread (s.run k) with pc := .idle }).setMask k
      (s.thread (s.run k)).sts).setUse v none) := by
  have ht := ok.thread (s.run k)
  have hown := ht.own (by rw [hpc]; decide) v (by rw [hc]; rfl)
  refine ok.of_var (Function.update_self _ _ _) (fun u hu => Function.update_of_ne hu _ _)
    rfl rfl rfl rfl (fun j hj => Function.update_of_ne hj _ _) rfl (fun w u hw hu => ?_) ?_
    rfl rfl rfl rfl ((inFlight_nil rfl).trans (inFlight_nil (by rw [hpc]; rfl)).symm)
  · have hwv : w ≠ v := by
      rintro rfl
      rw [hown] at hw
      injection hw with hw
      exact hu hw.symm
    exact ⟨Function.update_of_ne hwv _ _, rfl⟩
  · exact .of_plain rfl (ht.out (by rw [hpc]; rfl) rfl) (fun h => absurd rfl h)
      (fun h => absurd rfl h) fun h => absurd rfl h

/-! ## The unlocks -/

theorem SpinOk.unmask (ok : SpinOk s) (hpc : (s.thread (s.run k)).pc = .unmask) :
    SpinOk { (s.setThread (s.run k) { s.thread (s.run k) with pc := .idle }).setMask k
        (s.thread (s.run k)).intsts with
      restores := s.restores ++
        [((s.thread (s.run k)).intsts, (s.thread (s.run k)).found)] } := by
  have ht := ok.thread (s.run k)
  have hpassing := ht.passing hpc
  have q : Quiet s { (s.setThread (s.run k) { s.thread (s.run k) with pc := .idle }).setMask k
        (s.thread (s.run k)).intsts with
      restores := s.restores ++
        [((s.thread (s.run k)).intsts, (s.thread (s.run k)).found)] } := ⟨rfl, rfl, rfl, rfl⟩
  refine ok.of_step (Function.update_self _ _ _) rfl (fun u hu => Function.update_of_ne hu _ _)
    (fun j hj => Function.update_of_ne hj _ _) nofun ?_
    (fun u _ => (ok.thread u).quiet q Iff.rfl)
    ⟨ok.shared.one, ok.shared.word, ok.shared.held, fun e he => ?_⟩
    (ok.log.step (Function.update_self _ _ _) (fun u hu => Function.update_of_ne hu _ _)
      (fun _ => rfl) rfl rfl rfl
      ((inFlight_nil rfl).trans (inFlight_nil (by rw [hpc]; rfl)).symm))
  · exact .of_plain rfl (ht.out (by rw [hpc]; rfl) rfl) (fun h => absurd rfl h)
      (fun h => absurd rfl h) fun h => absurd rfl h
  · rcases List.mem_append.1 he with he | he
    · exact ok.shared.restores e he
    · rw [List.mem_singleton.1 he]
      exact hpassing

/-- The store of an unlock. -/
theorem SpinOk.unlock (ok : SpinOk s) (hpc : (s.thread (s.run k)).pc = .unlock) {l : Nat}
    (hl : (s.thread (s.run k)).call.unlockOf = some l) {pc : Pc}
    (hnew : pc = .idle ∨ pc = .unmask ∧ (s.thread (s.run k)).call = .iSpinUnlock l) :
    SpinOk { (s.setThread (s.run k) { s.thread (s.run k) with pc := pc }).setHolds l
        (s.holds l).tail with
      mem := Function.update s.mem (.splock l) 0 } := by
  have ht := ok.thread (s.run k)
  obtain ⟨w, g, hmine⟩ := ht.mine hpc l hl
  have hempty : Function.update s.holds l (s.holds l).tail l = [] := by
    rw [Function.update_self, hmine]
    rfl
  have hother : ∀ m, m ≠ l → Function.update s.holds l (s.holds l).tail m = s.holds m :=
    fun m hm => Function.update_of_ne hm _ _
  have hwords : ∀ n, Function.update s.mem (.splock l) 0 (.word n) = s.mem (.word n) :=
    fun n => Function.update_of_ne (show Loc.word n ≠ .splock l from nofun) _ _
  have hshut : pc.inSection = false ∧ pc.masked = false ∧ pc.flying = false := by
    rcases hnew with rfl | ⟨rfl, -⟩
    · decide
    · decide
  refine ok.of_step (Function.update_self _ _ _) rfl (fun u hu => Function.update_of_ne hu _ _)
    (fun j hj => rfl) (fun h => ?_) ?_ (fun u hu => (ok.thread u).frame Iff.rfl
      (fun _ n => hwords n) (fun _ m hm => ?_) (fun m st v f hm hst => ?_) fun _ h => ⟨h, rfl⟩)
    ⟨fun m => ?_, fun m => ?_, fun m v f h => ?_, ok.shared.restores⟩
    (ok.log.step (Function.update_self _ _ _) (fun u hu => Function.update_of_ne hu _ _)
      hwords rfl rfl rfl
      ((inFlight_nil hshut.2.2).trans (inFlight_nil (by rw [hpc]; rfl)).symm))
  · rw [show pc.masked = true from h] at hshut
    exact nomatch hshut.2.1
  · have hhw := @ThreadOk.out _ _ _ { s.thread (s.run k) with pc := pc } ht (by rw [hpc]; rfl)
      hshut.1
    rcases hnew with rfl | ⟨rfl, hc⟩
    · exact .of_plain rfl hhw (fun h => absurd rfl h) (fun h => absurd rfl h)
        fun h => absurd rfl h
    · refine ⟨hhw, nofun, nofun, fun h => ?_, nofun, fun _ v hv => ?_, fun _ _ m v hv => ?_,
        fun _ _ m v hv => ?_, nofun, fun _ => ht.passed hpc l hc⟩
      · rcases h with h | h
        · cases h
        · cases h
      · dsimp only at hv
        rw [hc] at hv
        cases hv
      · dsimp only at hv
        rw [hc] at hv
        cases hv
      · dsimp only at hv
        rw [hc] at hv
        cases hv
  · have hml : m ≠ l := by
      rintro rfl
      rw [hmine] at hm
      cases hm
    exact (hother m hml).trans hm
  · have hml : m ≠ l := by
      rintro rfl
      rw [hmine] at hm
      injection hm with hm
      injection hm with hm
      subst hm
      rcases hst with hst | hst
      · cases hst
      · injection hst with he
        exact hu he.symm
    exact (hother m hml).trans hm
  · change (Function.update s.holds l (s.holds l).tail m).length ≤ 1
    by_cases hml : m = l
    · subst hml
      rw [hempty]
      exact Nat.zero_le 1
    · rw [hother m hml]
      exact ok.shared.one m
  · change Function.update s.mem (.splock l) 0 (.splock m) =
      lockWord (Function.update s.holds l (s.holds l).tail m)
    by_cases hml : m = l
    · subst hml
      rw [hempty, Function.update_self]
      rfl
    · have hne : Loc.splock m ≠ .splock l := fun he => hml (by injection he)
      rw [hother m hml, Function.update_of_ne hne]
      exact ok.shared.word m
  · change ⟨.held, some v, f⟩ ∈ Function.update s.holds l (s.holds l).tail m at h
    by_cases hml : m = l
    · subst hml
      rw [hempty] at h
      cases h
    · rw [hother m hml] at h
      exact ok.shared.held m v f h

/-! ## The calls -/

theorem SpinOk.startPlain (ok : SpinOk s) (hpc : (s.thread (s.run k)).pc = .idle) {c : Call}
    (hvar : c.varOf = none) :
    SpinOk (s.setThread (s.run k) { s.thread (s.run k) with pc := .enter, call := c }) := by
  have ht := ok.thread (s.run k)
  refine ok.of_quiet (Function.update_self _ _ _) ⟨rfl, rfl, rfl, rfl⟩ rfl rfl
    (fun u hu => Function.update_of_ne hu _ _) (fun j hj => rfl) nofun ?_ rfl rfl rfl rfl
    ((inFlight_nil rfl).trans (inFlight_nil (by rw [hpc]; rfl)).symm)
  refine .of_plain rfl (ht.out (by rw [hpc]; rfl) rfl) (fun _ v hv => ?_) (fun _ _ l v hv => ?_)
    fun _ _ l v hv => ?_
  · dsimp only at hv
    rw [hvar] at hv
    cases hv
  · dsimp only at hv
    rw [hv] at hvar
    cases hvar
  · dsimp only at hv
    rw [hv] at hvar
    cases hvar

theorem SpinOk.startMasked (ok : SpinOk s) (hpc : (s.thread (s.run k)).pc = .idle) {c : Call}
    {v : Nat} (hvar : c.varOf = some v) (hfree : s.use v = none) :
    SpinOk ((s.setThread (s.run k) { s.thread (s.run k) with pc := .mask, call := c }).setUse v
      (some (.call (s.run k)))) := by
  have ht := ok.thread (s.run k)
  refine ok.of_var (Function.update_self _ _ _) (fun u hu => Function.update_of_ne hu _ _)
    rfl rfl rfl rfl (fun j hj => rfl) rfl (fun w u hw hu => ?_) ?_
    rfl rfl rfl rfl ((inFlight_nil rfl).trans (inFlight_nil (by rw [hpc]; rfl)).symm)
  · have hwv : w ≠ v := by
      rintro rfl
      rw [hfree] at hw
      cases hw
    exact ⟨Function.update_of_ne hwv _ _, rfl⟩
  · refine .of_plain rfl (ht.out (by rw [hpc]; rfl) rfl) (fun _ w hw => ?_)
      (fun _ h => absurd rfl h) fun _ h => absurd rfl h
    dsimp only at hw
    rw [hvar] at hw
    injection hw with hw
    subst hw
    exact Function.update_self _ _ _

/-- An unlock is called for the call that holds the lock. -/
theorem SpinOk.startUnlock (ok : SpinOk s) {l : Nat} {v : Option Nat} {f : UW}
    {rest : List Hold} (hh : s.holds l = ⟨.held, v, f⟩ :: rest)
    (hpc : (s.thread (s.run k)).pc = .idle) {th : Thread} (hth : th.pc = .unlock)
    (hul : th.call.unlockOf = some l) (hvar : th.call.varOf = none)
    (hpass : ∀ m, th.call = .iSpinUnlock m → th.intsts = th.found)
    (hnew : s'.thread = Function.update s.thread (s.run k) th)
    (hholds : s'.holds = Function.update s.holds l (⟨.unlocking (s.run k), v, f⟩ :: rest))
    (hmem : s'.mem = s.mem) (hhw : s'.hw = s.hw) (hrun : s'.run = s.run)
    (hmask : s'.primask = s.primask) (hlog : s'.log = s.log) (hrets : s'.rets = s.rets)
    (hword : s'.word0 = s.word0) (hres : s'.restores = s.restores) (hsto : s'.var = s.var)
    (huse : ∀ w, some w ≠ v → s'.use w = s.use w)
    (hcalls : ∀ w u, s.use w = some (.call u) → s'.use w = some (.call u)) : SpinOk s' := by
  have ht := ok.thread (s.run k)
  have hrest : rest = [] := by
    have hone := ok.shared.one l
    rw [hh] at hone
    simpa using hone
  subst hrest
  have hothers : ∀ u, u ≠ s.run k → s'.thread u = s.thread u := by
    intro u hu
    rw [hnew]
    exact Function.update_of_ne hu _ _
  have hself : s'.thread (s.run k) = th := by
    rw [hnew]
    exact Function.update_self _ _ _
  have hother : ∀ m, m ≠ l → s'.holds m = s.holds m := by
    intro m hm
    rw [hholds]
    exact Function.update_of_ne hm _ _
  have hhold : s'.holds l = [⟨.unlocking (s.run k), v, f⟩] := by
    rw [hholds]
    exact Function.update_self _ _ _
  refine ok.of_step hself hrun hothers (fun j _ => by rw [hmask]) (fun h => ?_) ?_
    (fun u hu => ?_) ⟨fun m => ?_, fun m => ?_, fun m w g hm => ?_, ?_⟩
    (ok.log.step hself hothers (fun n => by rw [hmem]) hlog hrets hword
      ((inFlight_nil (by rw [hth]; rfl)).trans (inFlight_nil (by rw [hpc]; rfl)).symm))
  · rw [hth] at h
    cases h
  · refine ⟨?_, ?_, ?_, ?_, fun _ m hm => ?_, fun _ w hw => ?_, fun _ _ m w hc => ?_,
      fun _ _ m w hc => ?_, fun _ m hm => hpass m hm, ?_⟩
    · rw [hhw]
      exact ht.out (by rw [hpc]; rfl) (by rw [hth]; rfl)
    · rw [hth]
      exact nofun
    · rw [hth]
      exact nofun
    · rw [hth]
      rintro (h | h)
      · cases h
      · cases h
    · rw [hul] at hm
      injection hm with hm
      subst hm
      exact ⟨v, f, hhold⟩
    · rw [hvar] at hw
      cases hw
    · rw [hc] at hvar
      cases hvar
    · rw [hc] at hvar
      cases hvar
    · rw [hth]
      exact nofun
  · refine (ok.thread u).frame (by rw [hhw]) (fun _ n => by rw [hmem]) (fun _ m hm => ?_)
      (fun m st w g hm hst => ?_) fun w hw => ⟨hcalls w u hw, by rw [hsto]⟩
    · have hml : m ≠ l := by
        rintro rfl
        rw [hh] at hm
        cases hm
      rw [hother m hml]
      exact hm
    · have hml : m ≠ l := by
        rintro rfl
        rw [hh] at hm
        injection hm with hm
        injection hm with hm
        subst hm
        rcases hst with hst | hst
        · cases hst
        · cases hst
      rw [hother m hml]
      exact hm
  · by_cases hml : m = l
    · subst hml
      rw [hhold]
      exact Nat.le_refl 1
    · rw [hother m hml]
      exact ok.shared.one m
  · rw [hmem]
    by_cases hml : m = l
    · subst hml
      have hw := ok.shared.word m
      rw [hh] at hw
      rw [hhold, hw]
      rfl
    · rw [hother m hml]
      exact ok.shared.word m
  · by_cases hml : m = l
    · subst hml
      rw [hhold, List.mem_singleton] at hm
      injection hm with hm
      cases hm
    · rw [hother m hml] at hm
      obtain ⟨hu, hv⟩ := ok.shared.held m w g hm
      have hwv : some w ≠ v := by
        rintro rfl
        have hmine := (ok.shared.held l w f (by rw [hh]; exact List.mem_cons_self)).1
        rw [hu] at hmine
        injection hmine with hmine
        injection hmine with hmine
        exact hml hmine
      rw [huse w hwv, hsto]
      exact ⟨hu, hv⟩
  · rw [hres]
    exact ok.shared.restores

theorem SpinOk.start (ok : SpinOk s) (hpc : (s.thread (s.run k)).pc = .idle) {c : Call}
    (hs : s.start (s.run k) c = some s') : SpinOk s' := by
  cases c with
  | spinLock l =>
    cases hs
    exact ok.startPlain hpc rfl
  | spinTryLock l =>
    cases hs
    exact ok.startPlain hpc rfl
  | atomic n a =>
    cases hs
    exact ok.startPlain hpc rfl
  | iSpinLock l v =>
    cases hv : s.use v with
    | some u => simp [Sys.start, hv] at hs
    | none =>
      simp only [Sys.start, hv, Option.some.injEq] at hs
      subst hs
      exact ok.startMasked hpc rfl hv
  | iSpinTryLock l v =>
    cases hv : s.use v with
    | some u => simp [Sys.start, hv] at hs
    | none =>
      simp only [Sys.start, hv, Option.some.injEq] at hs
      subst hs
      exact ok.startMasked hpc rfl hv
  | spinUnlock l =>
    simp only [Sys.start] at hs
    split at hs
    · rename_i v f rest hh
      cases hs
      refine ok.startUnlock hh hpc rfl rfl rfl (fun m he => ?_) rfl rfl rfl rfl rfl rfl rfl rfl
        rfl rfl rfl (fun _ _ => rfl) fun _ _ h => h
      cases he
    · cases hs
  | iSpinUnlock l =>
    simp only [Sys.start] at hs
    split at hs
    · rename_i v f rest hh
      cases hs
      have hheld := ok.shared.held l v f (by rw [hh]; exact List.mem_cons_self)
      refine ok.startUnlock hh hpc rfl rfl rfl (fun _ _ => hheld.2) rfl rfl rfl rfl rfl rfl rfl
        rfl rfl rfl rfl (fun w hw => ?_) fun w u hu => ?_
      · have hwv : w ≠ v := fun he => hw (by rw [he])
        exact Function.update_of_ne hwv _ _
      · have hwv : w ≠ v := by
          rintro rfl
          rw [hheld.1] at hu
          cases hu
        exact (Function.update_of_ne hwv _ _).trans hu
    · cases hs

/-! ## Every step -/

theorem SpinOk.next (ok : SpinOk s) (hs : s.next k = some s') : SpinOk s' := by
  unfold Sys.next at hs
  cases hpc : (s.thread (s.run k)).pc with
  | idle => simp [hpc] at hs
  | mask =>
    simp only [hpc] at hs
    exact ok.disint hpc hs
  | enter =>
    simp only [hpc, Option.some.injEq] at hs
    subst hs
    exact ok.enter hpc
  | claim =>
    cases hhw : s.hw with
    | none =>
      simp only [hpc, hhw, Option.some.injEq] at hs
      subst hs
      exact ok.claim hpc hhw
    | some u =>
      simp only [hpc, hhw, Option.some.injEq] at hs
      subst hs
      exact ok
  | load =>
    cases htarget : (s.thread (s.run k)).call.target with
    | none => simp [hpc, htarget] at hs
    | some x =>
      obtain ⟨loc, r⟩ := x
      simp only [hpc, htarget, Option.some.injEq] at hs
      subst hs
      exact ok.load hpc htarget
  | store =>
    simp only [hpc] at hs
    cases hlock : (s.thread (s.run k)).call.lockOf with
    | some l => exact ok.storeLock hpc hlock hs
    | none =>
      cases hc : (s.thread (s.run k)).call with
      | atomic n a => exact ok.storeAtomic hpc hc hs
      | spinUnlock l | iSpinUnlock l => simp [Sys.store, hc, Call.target] at hs
      | spinLock l | spinTryLock l | iSpinLock l v | iSpinTryLock l v =>
        rw [hc] at hlock
        cases hlock
  | release =>
    simp only [hpc, Option.some.injEq] at hs
    subst hs
    exact ok.release hpc
  | leave =>
    simp only [hpc] at hs
    exact ok.leave hpc hs
  | restore =>
    simp only [hpc] at hs
    split at hs
    · rename_i l v hc
      cases hs
      exact ok.restore hpc hc
    · cases hs
  | unlock =>
    simp only [hpc] at hs
    split at hs
    · rename_i l hc
      cases hs
      exact ok.unlock hpc (by rw [hc]; rfl) (Or.inl rfl)
    · rename_i l hc
      cases hs
      exact ok.unlock hpc (by rw [hc]; rfl) (Or.inr ⟨rfl, hc⟩)
    · cases hs
  | unmask =>
    simp only [hpc, Option.some.injEq] at hs
    subst hs
    exact ok.unmask hpc

/-- A core goes over to another thread only where its interrupts are not masked. -/
theorem SpinOk.switch (ok : SpinOk s) (hmask : s.primask k = 0) (hother : s.run k.other ≠ t) :
    SpinOk { s with run := Function.update s.run k t } := by
  have hopen : (s.thread (s.run k)).pc.masked = false := by
    by_contra hm
    exact ok.core.mask k (by simpa using hm) hmask
  have hk : Function.update s.run k t k = t := Function.update_self _ _ _
  have hj : Function.update s.run k t k.other = s.run k.other :=
    Function.update_of_ne (Core.other_ne k) _ _
  have hout : ∀ u, u ≠ s.run k.other → (s.thread u).pc.masked = false := by
    intro u hu
    by_cases hur : u = s.run k
    · rw [hur]
      exact hopen
    · refine ok.core.off u fun j he => ?_
      rcases Core.eq_or_other k j with rfl | rfl
      · exact hur he.symm
      · exact hu he.symm
  refine ⟨fun u => ?_, ⟨ok.shared.one, ok.shared.word, ok.shared.held, ok.shared.restores⟩,
    ⟨?_, fun u hu => ?_, fun j hm => ?_⟩,
    ⟨ok.log.value, ok.log.olds, ok.log.once, ok.log.results⟩⟩
  · exact (ok.thread u).frame Iff.rfl (fun _ _ => rfl) (fun _ _ h => h)
      (fun _ _ _ _ h _ => h) fun _ h => ⟨h, rfl⟩
  · cases k
    · exact fun he => hother (hj.symm.trans (he.symm.trans hk))
    · exact fun he => hother (hj.symm.trans (he.trans hk))
  · exact hout u fun he => hu k.other (hj.trans he.symm)
  · dsimp only at hm ⊢
    rcases Core.eq_or_other k j with rfl | rfl
    · rw [hk, hout t hother.symm] at hm
      cases hm
    · rw [hj] at hm
      exact ok.core.mask _ hm

theorem SpinOk.setMask (ok : SpinOk s) (hpc : (s.thread (s.run k)).pc = .idle) (m : UW) :
    SpinOk (s.setMask k m) := by
  have q : Quiet s (s.setMask k m) := ⟨rfl, rfl, rfl, rfl⟩
  refine ok.of_step (k := k) rfl rfl (fun _ _ => rfl) (fun j hj => Function.update_of_ne hj _ _)
    (fun h => ?_) ((ok.thread _).quiet q Iff.rfl) (fun u _ => (ok.thread u).quiet q Iff.rfl)
    (ok.shared.quiet q rfl) (ok.log.quiet (fun _ => rfl) rfl rfl rfl fun _ => rfl)
  have hopen : (s.thread (s.run k)).pc.masked = false := by rw [hpc]; rfl
  exact absurd (hopen.symm.trans h) (by decide)

theorem SpinOk.step (ok : SpinOk s) {e : Event} (hs : s.step e = some s') : SpinOk s' := by
  cases e with
  | call k c =>
    obtain ⟨hpc, hs⟩ := Option.ite_none_right_eq_some.1 hs
    exact ok.start hpc hs
  | step k => exact ok.next hs
  | switch k t =>
    obtain ⟨⟨hmask, hother⟩, hs⟩ := Option.ite_none_right_eq_some.1 hs
    cases hs
    exact ok.switch hmask hother
  | setMask k m =>
    obtain ⟨hpc, hs⟩ := Option.ite_none_right_eq_some.1 hs
    cases hs
    exact ok.setMask hpc m

theorem SpinOk.init (h : Sys.Init s) : SpinOk s := by
  have hmasked : ∀ t, (s.thread t).pc.masked = false := by
    intro t
    rw [h.idle t]
    rfl
  refine ⟨fun t => ?_, ⟨fun l => ?_, fun l => ?_, fun l v f hm => ?_, fun e he => ?_⟩,
    ⟨h.run, fun t _ => hmasked t, fun k hk => ?_⟩,
    ⟨fun n => ?_, fun pre e post he => ?_, fun t => ?_, fun t e he => ?_⟩⟩
  · refine .of_plain (by rw [h.idle t]; rfl) ?_ (fun hb => absurd (h.idle t) hb)
      (fun hb => absurd (h.idle t) hb) fun hb => absurd (h.idle t) hb
    rw [h.hw, h.idle t]
    exact ⟨nofun, nofun⟩
  · rw [h.holds]
    exact Nat.zero_le 1
  · rw [h.holds, h.locks]
    rfl
  · rw [h.holds] at hm
    cases hm
  · rw [h.restores] at he
    cases he
  · rw [hmasked] at hk
    cases hk
  · rw [h.log, h.words]
    rfl
  · rw [h.log] at he
    cases pre <;> cases he
  · rw [h.log, h.rets, inFlight_nil (by rw [h.idle t]; rfl)]
    rfl
  · rw [h.rets] at he
    cases he

end Spin

end Mtk3Smp
