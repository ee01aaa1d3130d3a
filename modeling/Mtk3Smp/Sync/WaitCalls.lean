import Mtk3Smp.Sync.Wait

/-!
# System calls and the steps of the two cores

The owner of the kernel lock executes one write or one function call at a time, while the other
core may run a task as soon as it is ready.
-/

namespace Mtk3Smp

namespace WaitSys

variable (s : WaitSys)

/-- A task that calls: it runs, or another core has suspended it on its way into the kernel. -/
def caller (t : Tid) : Bool :=
  s.thr t == .user && ((s.tcb t).state == .ready || (s.tcb t).state == .suspend)

/-- tk_rsm_tsk and tk_frsm_tsk: `suscnt` is the new count. -/
def resumeTsk (t : Tid) (suscnt : Nat) : WaitSys :=
  match (s.tcb t).state with
  | .suspend =>
    let s := s.setTcb t fun x => { x with suscnt }
    if suscnt = 0 then s.makeReady t else s
  | .waitsus =>
    let s := s.setTcb t fun x => { x with suscnt }
    if suscnt = 0 then s.setTcb t fun x => { x with state := .wait } else s
  | _ => s

/-- tk_sus_tsk -/
def suspendTsk (t : Tid) : WaitSys :=
  let inc (s : WaitSys) (state : TStat) :=
    s.setTcb t fun x => { x with state, suscnt := x.suscnt + 1 }
  if (s.tcb t).suscnt = INT_MAX then s
  else
    match (s.tcb t).state with
    | .ready => inc (s.queRemove t) .suspend
    | .wait => inc s .waitsus
    | .suspend => inc s .suspend
    | .waitsus => inc s .waitsus
    | _ => s

/-- A call up to where it is left to `exec`; a call that fails leaves everything as it is. -/
def call : WaitCall → Option WaitSys
  | .tkCreTsk t ipriority =>
    some
      (if (s.tcb t).state = .nonexist then
        (s.setTcb t fun x => { x with ipriority }).makeDormant t
      else s)
  | .tkDelTsk t =>
    some
      (if (s.tcb t).state = .dormant then s.setTcb t fun x => { x with state := .nonexist } else s)
  | .tkStaTsk t =>
    some
      (if (s.tcb t).state = .dormant then
        { s.makeReady t with thr := Function.update s.thr t .user }
      else s)
  | .tkTerTsk t => some (if (s.tcb t).state.knlTaskAlive then s.next [.ter t .state false] else s)
  | .tkExtTsk self => if s.caller self then some (s.next [.ter self .state false]) else none
  | .tkExdTsk self => if s.caller self then some (s.next [.ter self .state true]) else none
  | .tkSusTsk t => some (s.suspendTsk t)
  | .tkRsmTsk t => some (s.resumeTsk t ((s.tcb t).suscnt - 1))
  | .tkFrsmTsk t => some (s.resumeTsk t 0)
  | .tkSlpTsk self tmout =>
    if !s.caller self then none
    else if 0 < (s.tcb self).wupcnt then
      some (s.setTcb self fun x => { x with wupcnt := x.wupcnt - 1 })
    else if tmout = .TMO_POL then some s
    else some (s.next [.makeWait self .slp tmout])
  | .tkDlyTsk self dlytim =>
    if !s.caller self then none
    else if dlytim = 0 then some s
    else some (s.next [.makeWait self .dly (.after dlytim)])
  | .tkWupTsk t =>
    if !(s.tcb t).state.knlTaskAlive then some s
    else if s.hasWait t ∧ (s.tcb t).wspec = .slp then
      some (s.next [.release t .wercd (.wake (s.out t))])
    else if (s.tcb t).wupcnt = INT_MAX then some s
    else some (s.setTcb t fun x => { x with wupcnt := x.wupcnt + 1 })
  | .tkRelWai t => some (if s.hasWait t then s.next [.release t .wercd .relWai] else s)
  | .tkChgPri t priority =>
    some (if (s.tcb t).state = .nonexist then s else s.next [s.knlChgPriMutex t priority])
  | .creObj o tpri => some (if (s.objcb o).exists_ then s else s.setObj o ⟨true, tpri⟩)
  | .delObj o => some (if (s.objcb o).exists_ then s.next [.waitDelete (.wait o)] else s)
  | .waitObj self o tmout =>
    if !s.caller self then none
    else if !(s.objcb o).exists_ ∨ tmout = .TMO_POL then some s
    else some (s.next [.makeWait self (.gcb o (s.objcb o).tpri) tmout])
  | .signalObj o => some (if (s.objcb o).exists_ then s.next [.scan o] else s)
  | .tkCalPor self o =>
    if !s.caller self then none
    else if !(s.objcb o).exists_ then some s
    else some (s.next [.scan o, .makeWait self .rdv .TMO_FEVR])
  | .tkAcpPor o n =>
    match s.links.walk n (.head (.wait o)) with
    | some t => some (s.next [.accept t .timer])
    | none => some s
  | .tkFwdPor t o =>
    if s.hasWait t ∧ (s.tcb t).wspec = .rdv ∧ (s.objcb o).exists_ then
      let w := .gcb o (s.objcb o).tpri
      let s := s.setTcb t fun x => { x with wspec := w }
      some ((s.timerInsert t .TMO_FEVR).queWait t w [])
    else some s
  | .tkRplRdv t out =>
    some (if s.hasWait t ∧ (s.tcb t).wspec = .rdv then s.next [.release t .out (.wake out)] else s)
  | .tkCreMtx m mtxatr ceilpri =>
    some
      (if (s.mtxcb m).exists_ then s
      else s.setMtx m fun _ => { exists_ := true, mtxatr, ceilpri, mtxtsk := none, mtxlist := none })
  | .tkDelMtx m =>
    if (s.mtxcb m).exists_ then
      match (s.mtxcb m).mtxtsk with
      | some u => some (s.next [s.knlReleaseMutex u (some m), .waitDelete (.mtx m)])
      | none => some (s.next [.waitDelete (.mtx m)])
    else some s
  | .tkLocMtx self m tmout =>
    let x := s.mtxcb m
    if !s.caller self then none
    else if !x.exists_ ∨ x.mtxtsk = some self then some s
    else if x.mtxatr = .ceiling ∧ (s.tcb self).bpriority < x.ceilpri then some s
    else
      match x.mtxtsk with
      | none =>
        let s := s.lock m self
        some (s.next (s.raise m self))
      | some u =>
        if tmout = .TMO_POL then some s
        else
          let wait : List Ctl := [.makeWait self (.mtx m x.mtxatr) tmout]
          some (s.next
            (if x.mtxatr = .inherit ∧ (s.tcb self).priority < (s.tcb u).priority then
              .changeTaskPriority u (s.tcb self).priority :: wait
            else wait))
  | .tkUnlMtx self m =>
    if !s.caller self then none
    else if !(s.mtxcb m).exists_ ∨ (s.mtxcb m).mtxtsk ≠ some self then some s
    else some (s.next [s.knlReleaseMutex self (some m), .unlock self m])
  | .tick =>
    let s := { s with currentTime := s.currentTime + TIMER_PERIOD.toUInt64 }
    some (s.next [.timerLoop s.currentTime.toUInt32])

end WaitSys

/-! ## Steps of the two cores -/

inductive WaitEvent
  /-- a core takes the kernel lock and begins a call -/
  | start (c : Core) (a : WaitCall)
  | step (c : Core)
  /-- the owner of the lock finds that the task at place `n` of the queue can be released -/
  | signal (c : Core) (n : Nat) (out : Nat)
  /-- a core dispatches `t`, which has been waiting -/
  | resume (t : Tid)
  /-- the blocking call of `t` returns -/
  | ret (t : Tid)

/-- The timer interrupt is taken by core 0. -/
def WaitCall.admits : WaitCall → Core → Bool
  | .tick, c => c == .core0
  | _, _ => true

/-- The calls by which `t` gives up `m`, if it owns it. -/
def WaitCall.quits (t : Tid) (m : MtxId) : WaitCall → Prop
  | .tkUnlMtx self m' => self = t ∧ m' = m
  | .tkTerTsk u | .tkExtTsk u | .tkExdTsk u => u = t
  | _ => False

/-- A critical section begins. -/
def WaitSys.enter (s : WaitSys) (c : Core) (a : WaitCall) : WaitSys :=
  { s with core := c, last := some a, owner₀ := s.owner, given := [] }

def WaitSys.step (s : WaitSys) : WaitEvent → Option WaitSys
  | .start c a => if s.ctl = [] ∧ a.admits c then (s.enter c a).call a else none
  | .step c =>
    match s.ctl with
    | x :: rest => if s.core = c then some (s.exec x rest) else none
    | [] => none
  | .signal c n out =>
    match s.ctl with
    | .scan o :: rest =>
      match s.links.walk n (.head (.wait o)) with
      | some t =>
        if s.core = c then some (s.next (.release t .out (.wake out) :: .scan o :: rest)) else none
      | none => none
    | _ => none
  | .resume t =>
    match s.thr t with
    | .blocked n =>
      if (s.tcb t).state = .ready then
        some { s with thr := Function.update s.thr t (.resumed n) }
      else none
    | _ => none
  | .ret t =>
    match s.thr t with
    | .resumed n =>
      some
        { s with
          thr := Function.update s.thr t .user
          returned := s.returned ++ [(n, s.ercd t, s.out t)] }
    | _ => none

/-- There is nothing. -/
def WaitSys.boot : WaitSys where
  tcb _ :=
    { state := .nonexist, ipriority := 0, bpriority := 0, priority := 0, suscnt := 0, wupcnt := 0
      wspec := .slp, wercd := false, mtxlist := none }
  mtxcb _ :=
    { exists_ := false, mtxatr := .tfifo, ceilpri := 0, mtxtsk := none, mtxlist := none }
  objcb _ := { exists_ := false, tpri := false }
  links := .empty
  timer := .empty
  time _ := 0
  currentTime := 0
  ercd _ := .E_OK
  out _ := 0
  core := .core0
  ctl := []
  thr _ := .user
  calls := 0
  ended := []
  returned := []
  stamp _ := 0
  stamps := 0
  last := none
  owner₀ _ := none
  given := []

def waitMachine : Lts WaitSys WaitEvent where
  init s := s = .boot
  step s e := s.step e

end Mtk3Smp
