import Mtk3Smp.Kernel.State
import Mtk3Smp.Lib.Lts

/-!
# Spin locks and atomic words

`smp_atomic.c` and the public calls of `smp_lock.c`. An atomic update is a load and a store
under one hardware spin lock, with interrupts masked; a spin lock is a word taken by
compare-and-exchange and given up by a plain store. Each core executes one thread of control,
a task or a handler, and goes over to another one whenever its interrupts are not masked.
-/

namespace Mtk3Smp

namespace Spin

abbrev UW := BitVec 32

/-- The words in memory: lock words, and operands of the atomic calls. -/
inductive Loc
  | splock (l : Nat)
  | word (n : Nat)
  deriving DecidableEq

/-- The functions of `smp_atomic.c` that read and write under `SPINLOCK_ATOMIC`. -/
inductive Rmw
  | fetchAdd (value : UW)
  | xchg (value : UW)
  | cmpxchg (expected desired : UW)
  | bitset (mask : UW)
  | bitclr (mask : UW)

/-- What is stored where `old` was read; `none` where nothing is. -/
def Rmw.stored (old : UW) : Rmw → Option UW
  | fetchAdd value => some (old + value)
  | xchg value => some value
  | cmpxchg expected desired => if old = expected then some desired else none
  | bitset mask => some (old ||| mask)
  | bitclr mask => some (old &&& ~~~mask)

/-- The memory after the store of an update that has read `old`. -/
def Rmw.storeTo (mem : Loc → UW) (loc : Loc) (old : UW) (r : Rmw) : Loc → UW :=
  match r.stored old with
  | some value => Function.update mem loc value
  | none => mem

/-- The public atomic calls. -/
inductive Atomic
  | inc
  | dec
  | add (val : UW)
  | sub (val : UW)
  | xchg (val : UW)
  | cmpxchg (val cmp : UW)
  | bitset (setptn : UW)
  | bitclr (clrptn : UW)
  deriving DecidableEq

namespace Atomic

def rmw : Atomic → Rmw
  | inc => .fetchAdd 1
  | dec => .fetchAdd (-1)
  | add val => .fetchAdd val
  | sub val => .fetchAdd (-val)
  | xchg val => .xchg val
  | cmpxchg val cmp => .cmpxchg cmp val
  | bitset setptn => .bitset setptn
  | bitclr clrptn => .bitclr clrptn

/-- What the call returns where `old` was read. -/
def result (old : UW) : Atomic → UW
  | inc => old + 1
  | dec => old - 1
  | add val => old + val
  | sub val => old - val
  | _ => old

/-- The word after the update. -/
def after (old : UW) (a : Atomic) : UW := (a.rmw.stored old).getD old

end Atomic

/-- `v` is the variable that `intsts` points to. -/
inductive Call
  | spinLock (l : Nat)
  | spinTryLock (l : Nat)
  | iSpinLock (l v : Nat)
  | iSpinTryLock (l v : Nat)
  | spinUnlock (l : Nat)
  | iSpinUnlock (l : Nat)
  | atomic (n : Nat) (a : Atomic)

namespace Call

/-- The lock that the call takes. -/
def lockOf : Call → Option Nat
  | spinLock l => some l
  | spinTryLock l => some l
  | iSpinLock l _ => some l
  | iSpinTryLock l _ => some l
  | _ => none

/-- The lock that the call gives up. -/
def unlockOf : Call → Option Nat
  | spinUnlock l => some l
  | iSpinUnlock l => some l
  | _ => none

def varOf : Call → Option Nat
  | iSpinLock _ v => some v
  | iSpinTryLock _ v => some v
  | _ => none

/-- The update under the hardware lock. -/
def target : Call → Option (Loc × Rmw)
  | spinLock l => some (.splock l, .cmpxchg 0 1)
  | spinTryLock l => some (.splock l, .cmpxchg 0 1)
  | iSpinLock l _ => some (.splock l, .cmpxchg 0 1)
  | iSpinTryLock l _ => some (.splock l, .cmpxchg 0 1)
  | atomic n a => some (.word n, a.rmw)
  | _ => none

end Call

/-- Where a thread is in a call. -/
inductive Pc
  | idle
  /-- the `disint` of ISpinLock and ISpinTryLock -/
  | mask
  /-- the `disint` of ATOMIC_ENTER -/
  | enter
  /-- in `knl_arch_hwlock_claim` -/
  | claim
  | load
  | store
  | release
  /-- the `set_primask` of ATOMIC_LEAVE -/
  | leave
  /-- the `set_primask` of an ISpinTryLock that failed -/
  | restore
  /-- the store of SpinUnlock and ISpinUnlock -/
  | unlock
  /-- the `set_primask` of ISpinUnlock -/
  | unmask
  deriving DecidableEq

structure Thread where
  pc : Pc
  call : Call
  /-- `saved` of ATOMIC_ENTER -/
  saved : UW
  old : UW
  /-- `saved` of ISpinTryLock -/
  sts : UW
  /-- the argument of ISpinUnlock -/
  intsts : UW
  /-- history: the mask that the lock call found, or that the matching one had found -/
  found : UW

inductive Stage
  /-- taken by a call that has not returned yet -/
  | locking (t : Nat)
  | held
  /-- its unlock has been called -/
  | unlocking (t : Nat)
  deriving DecidableEq

/-- A successful lock call, from its store to the store of its unlock. -/
structure Hold where
  stage : Stage
  var : Option Nat
  found : UW

/-- Who uses a variable for `intsts`. -/
inductive Use
  | call (t : Nat)
  | hold (l : Nat)

/-- An atomic update: the thread, the word, the call, and what was read. -/
structure Entry where
  t : Nat
  n : Nat
  a : Atomic
  old : UW

structure Sys where
  mem : Loc → UW
  /-- the thread that has claimed `SPINLOCK_ATOMIC` -/
  hw : Option Nat
  primask : Core → UW
  /-- the thread that a core executes -/
  run : Core → Nat
  thread : Nat → Thread
  var : Nat → UW
  /-- history: the calls that hold a lock, and the variables that calls and holds use -/
  holds : Nat → List Hold
  use : Nat → Option Use
  /-- history: the words at the start, the updates in their order, and the calls of each thread
  that have returned, with what they have returned -/
  word0 : Nat → UW
  log : List Entry
  rets : Nat → List (Entry × UW)
  /-- history: what ISpinUnlock has set, and what the lock call had found -/
  restores : List (UW × UW)

inductive Event
  | call (k : Core) (c : Call)
  | step (k : Core)
  /-- an interrupt, its return, or a dispatch -/
  | switch (k : Core) (t : Nat)
  /-- the code between the calls masks or unmasks -/
  | setMask (k : Core) (m : UW)

namespace Sys

variable (s : Sys)

def setThread (t : Nat) (th : Thread) : Sys := { s with thread := Function.update s.thread t th }

def setMask (k : Core) (m : UW) : Sys := { s with primask := Function.update s.primask k m }

def setHolds (l : Nat) (hs : List Hold) : Sys := { s with holds := Function.update s.holds l hs }

def setUse (v : Nat) (u : Option Use) : Sys := { s with use := Function.update s.use v u }

/-- A lock call may use any variable that no other call or hold uses; an unlock is called for a
lock call that has succeeded, once. -/
def start (t : Nat) (c : Call) : Option Sys :=
  let th := s.thread t
  match c with
  | .iSpinLock _ v | .iSpinTryLock _ v =>
    match s.use v with
    | none => some ((s.setThread t { th with pc := .mask, call := c }).setUse v (some (.call t)))
    | some _ => none
  | .spinUnlock l =>
    match s.holds l with
    | ⟨.held, v, f⟩ :: rest =>
      some ((s.setThread t { th with pc := .unlock, call := c }).setHolds l
        (⟨.unlocking t, v, f⟩ :: rest))
    | _ => none
  | .iSpinUnlock l =>
    match s.holds l with
    | ⟨.held, some v, f⟩ :: rest =>
      some (((s.setThread t
        { th with pc := .unlock, call := c, intsts := s.var v, found := f }).setHolds l
        (⟨.unlocking t, some v, f⟩ :: rest)).setUse v none)
    | _ => none
  | _ => some (s.setThread t { th with pc := .enter, call := c })

/-- The `disint` of the interrupt-preserving calls. -/
def disint (k : Core) (t : Nat) (th : Thread) : Option Sys :=
  let saved := s.primask k
  let s := s.setMask k 1
  match th.call with
  | .iSpinLock _ v =>
    some { s.setThread t { th with pc := .enter, found := saved } with
      var := Function.update s.var v saved }
  | .iSpinTryLock _ _ =>
    some (s.setThread t { th with pc := .enter, sts := saved, found := saved })
  | _ => none

/-- The store, and what it means for the caller. -/
def store (t : Nat) (th : Thread) : Option Sys :=
  match th.call.target with
  | none => none
  | some (loc, rmw) =>
    let s := { s.setThread t { th with pc := .release } with
      mem := rmw.storeTo s.mem loc th.old }
    match th.call.lockOf with
    | some l =>
      if th.old = 0 then some (s.setHolds l (s.holds l ++ [⟨.locking t, none, th.found⟩]))
      else some s
    | none =>
      match th.call with
      | .atomic n a => some { s with log := s.log ++ [⟨t, n, a, th.old⟩] }
      | _ => none

/-- The lock call returns `E_OK`. -/
def granted (t : Nat) (th : Thread) (l : Nat) (v : Option Nat) : Sys :=
  let s := s.setThread t { th with pc := .idle }
  match s.holds l with
  | ⟨_, _, f⟩ :: rest => s.setHolds l (⟨.held, v, f⟩ :: rest)
  | [] => s

/-- The end of the atomic function and what its caller makes of the result. -/
def leave (k : Core) (t : Nat) (th : Thread) : Option Sys :=
  let s := s.setMask k th.saved
  match th.call with
  | .spinLock l =>
    if th.old = 0 then some (s.granted t th l none)
    else some (s.setThread t { th with pc := .enter })
  | .spinTryLock l =>
    if th.old = 0 then some (s.granted t th l none)
    else some (s.setThread t { th with pc := .idle })
  | .iSpinLock l v =>
    if th.old = 0 then some ((s.granted t th l (some v)).setUse v (some (.hold l)))
    else some (s.setThread t { th with pc := .enter })
  | .iSpinTryLock l v =>
    if th.old = 0 then
      some { (s.granted t th l (some v)).setUse v (some (.hold l)) with
        var := Function.update s.var v th.sts }
    else some (s.setThread t { th with pc := .restore })
  | .atomic n a =>
    some { s.setThread t { th with pc := .idle } with
      rets := Function.update s.rets t (s.rets t ++ [(⟨t, n, a, th.old⟩, a.result th.old)]) }
  | _ => none

def next (k : Core) : Option Sys :=
  let t := s.run k
  let th := s.thread t
  match th.pc with
  | .idle => none
  | .mask => s.disint k t th
  | .enter =>
    some ((s.setThread t { th with pc := .claim, saved := s.primask k }).setMask k 1)
  | .claim =>
    match s.hw with
    | none => some { s.setThread t { th with pc := .load } with hw := some t }
    | some _ => some s
  | .load =>
    match th.call.target with
    | some (loc, _) => some (s.setThread t { th with pc := .store, old := s.mem loc })
    | none => none
  | .store => s.store t th
  | .release => some { s.setThread t { th with pc := .leave } with hw := none }
  | .leave => s.leave k t th
  | .restore =>
    match th.call with
    | .iSpinTryLock _ v =>
      some (((s.setThread t { th with pc := .idle }).setMask k th.sts).setUse v none)
    | _ => none
  | .unlock =>
    match th.call with
    | .spinUnlock l =>
      some { (s.setThread t { th with pc := .idle }).setHolds l (s.holds l).tail with
        mem := Function.update s.mem (.splock l) 0 }
    | .iSpinUnlock l =>
      some { (s.setThread t { th with pc := .unmask }).setHolds l (s.holds l).tail with
        mem := Function.update s.mem (.splock l) 0 }
    | _ => none
  | .unmask =>
    some { (s.setThread t { th with pc := .idle }).setMask k th.intsts with
      restores := s.restores ++ [(th.intsts, th.found)] }

def step : Event → Option Sys
  | .call k c => if (s.thread (s.run k)).pc = .idle then s.start (s.run k) c else none
  | .step k => s.next k
  | .switch k t =>
    if s.primask k = 0 ∧ s.run k.other ≠ t then
      some { s with run := Function.update s.run k t }
    else none
  | .setMask k m => if (s.thread (s.run k)).pc = .idle then some (s.setMask k m) else none

/-- Lock words initialized by InitSpinLock, and no call in progress. -/
structure Init (s : Sys) : Prop where
  locks : ∀ l, s.mem (.splock l) = 0
  words : ∀ n, s.mem (.word n) = s.word0 n
  hw : s.hw = none
  run : s.run .core0 ≠ s.run .core1
  idle : ∀ t, (s.thread t).pc = .idle
  holds : ∀ l, s.holds l = []
  use : ∀ v, s.use v = none
  log : s.log = []
  rets : ∀ t, s.rets t = []
  restores : s.restores = []

end Sys

end Spin

end Mtk3Smp
