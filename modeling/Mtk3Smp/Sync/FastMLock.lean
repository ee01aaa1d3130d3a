import Mtk3Smp.Sync.EventFlag
import Mtk3Smp.Lib.Census

/-!
# Fast multi-locks

`fastmlock.c`: a word with a bit for each of the 32 locks, a counter of the tasks in MLockTmo and an
event flag for those that wait. INC, DEC, BTS and BR load a word and store it again while `DI` masks
the interrupts of their own core; the other core can come in between.
-/

namespace Mtk3Smp

open Gcb Census

/-- The words of a FastMLock that change. -/
inductive MlWord
  | flg
  | wai
  deriving DecidableEq, Repr

/-- INC, BTS, DEC and BR with what is left of their caller: in MLockTmo the lock number with the
timeout or with the `ercd` to return, in MUnlock the lock number. -/
inductive MlOp
  | inc (no : Fin 32) (tmo : Tmo)
  | bts (no : Fin 32) (tmo : Tmo)
  | dec (no : Fin 32) (ercd : ER)
  | br (no : Fin 32)
  deriving DecidableEq, Repr

/-- Where a task is with the locks. -/
inductive MlPc
  /-- in none of the calls -/
  | out
  /-- before the load -/
  | load (op : MlOp)
  /-- between the load of `val` and the store -/
  | store (op : MlOp) (val : BitVec 32)
  /-- before tk_wai_flg -/
  | waiFlg (no : Fin 32) (tmo : Tmo)
  /-- in tk_wai_flg -/
  | blocked (no : Fin 32) (tmo : Tmo)
  /-- in MUnlock, before `lock->wai == 0` -/
  | rdWai (no : Fin 32)
  /-- before tk_set_flg -/
  | setFlg (no : Fin 32)
  deriving DecidableEq, Repr

/-- `1 << no` -/
def bit (no : Fin 32) : BitVec 32 := 1 <<< no.val

namespace MlOp

def word : MlOp → MlWord
  | .inc .. | .dec .. => .wai
  | .bts .. | .br .. => .flg

/-- What it stores. -/
def apply (val : BitVec 32) : MlOp → BitVec 32
  | .inc .. => val + 1
  | .bts no _ => val ||| bit no
  | .dec .. => val - 1
  | .br no => val &&& ~~~bit no

/-- How the caller goes on. -/
def next (val : BitVec 32) : MlOp → MlPc
  | .inc no tmo => .load (.bts no tmo)
  | .bts no tmo => if val &&& bit no = 0 then .load (.dec no .E_OK) else .waiFlg no tmo
  | .dec .. => .out
  | .br no => .rdWai no

end MlOp

/-- tk_wai_flg has returned `ercd` to the task. -/
def MlPc.returned (ercd : ER) : MlPc → MlPc
  | .blocked no tmo => if ercd = .E_OK then .load (.bts no tmo) else .load (.dec no ercd)
  | p => p

/-- The event flag that CreateMLock asks for. -/
def mlFlg : Cflg := { tpri := true, wmul := true, iflgptn := 0 }

structure MlSys where
  flg : BitVec 32
  wai : BitVec 32
  id : FlgSys
  pc : Tid → MlPc
  /-- the task that has masked the interrupts of the core -/
  di : Core → Option Tid
  /-- history: MLockTmo has returned E_OK to the task, and it has not called MUnlock -/
  held : Tid → Fin 32 → Bool
  /-- history: the call of the task has changed `flg` -/
  touched : Tid → Bool

inductive MlEvent
  | mLockTmo (t : Tid) (no : Fin 32) (tmo : Tmo)
  | mUnlock (t : Tid) (no : Fin 32)
  /-- the next step of a task that runs on the core `c`; `ddsp` is `in_ddsp()` -/
  | go (c : Core) (t : Tid) (ddsp : Bool)
  | timeout (t : Tid)
  | tkRelWai (t : Tid)
  | chgPri (t : Tid) (priority : Nat)

/-- The calls of tk_wai_flg that have returned. -/
def returnAll (pc : Tid → MlPc) (ret : List (Tid × ER × Option (BitVec 32))) : Tid → MlPc :=
  ret.foldl (fun pc r => Function.update pc r.1 ((pc r.1).returned r.2.1)) pc

namespace MlSys

variable (cfg : TskCfg) (s : MlSys)

def goto (t : Tid) (p : MlPc) : MlSys := { s with pc := Function.update s.pc t p }

def val : MlWord → BitVec 32
  | .flg => s.flg
  | .wai => s.wai

/-- The store of a sequence on the core `c`, and `EI`. -/
def stored (c : Core) (t : Tid) (op : MlOp) (val : BitVec 32) : MlSys :=
  let s := { s with di := Function.update s.di c none }
  let s :=
    match op.word with
    | .flg => { s with
        flg := op.apply val
        touched := Function.update s.touched t (s.touched t || op.apply val != s.flg) }
    | .wai => { s with wai := op.apply val }
  match op with
  | .dec no .E_OK => { s with held := Function.update s.held t (Function.update (s.held t) no true) }
  | _ => s

/-- What a call of the event flag leaves. -/
def called (id : FlgSys) : MlSys :=
  { s with id := { id with ret := [] }, pc := returnAll s.pc id.ret }

/-- The call `e` of the event flag. -/
def call (e : FlgEvent) : Option MlSys := (FlgSys.step mlFlg s.id e).map s.called

/-- The next step of the task. -/
def go (c : Core) (t : Tid) (ddsp : Bool) : Option MlSys :=
  match s.pc t with
  | .out | .blocked .. => none
  | .load op =>
    if s.di c = none then
      some ({ s with di := Function.update s.di c (some t) }.goto t (.store op (s.val op.word)))
    else none
  | .store op val =>
    if s.di c = some t then some ((s.stored c t op val).goto t (op.next val)) else none
  | .waiFlg no tmo =>
    if s.di c = none then
      (s.goto t (.blocked no tmo)).call (.tkWaiFlg t ddsp (bit no) (TWF_ORW ||| TWF_BITCLR) tmo)
    else none
  | .rdWai no =>
    if s.di c = none then some (s.goto t (if s.wai = 0 then .out else .setFlg no)) else none
  | .setFlg no => if s.di c = none then (s.goto t .out).call (.tkSetFlg (bit no)) else none

def step : MlEvent → Option MlSys
  | .mLockTmo t no tmo =>
    if t < cfg.numTskid ∧ s.pc t = .out then
      some ({ s with touched := Function.update s.touched t false }.goto t (.load (.inc no tmo)))
    else none
  -- by a task that has the lock
  | .mUnlock t no =>
    if t < cfg.numTskid ∧ s.pc t = .out ∧ s.held t no = true then
      some ({ s with
        held := Function.update s.held t (Function.update (s.held t) no false) }.goto t
          (.load (.br no)))
    else none
  | .go c t ddsp => if t < cfg.numTskid then s.go c t ddsp else none
  | .timeout t => s.call (.timeout t)
  | .tkRelWai t => s.call (.tkRelWai t)
  | .chgPri t priority => s.call (.chgPri t priority)

/-- What CreateMLock leaves. -/
def created (priority : Tid → Nat) : MlSys :=
  { flg := 0
    wai := 0
    id := FlgSys.created mlFlg priority
    pc := fun _ => .out
    di := fun _ => none
    held := fun _ _ => false
    touched := fun _ => false }

/-- The word for which the core is between a load and the store. -/
def busy (c : Core) : Option MlWord :=
  match s.di c with
  | none => none
  | some t =>
    match s.pc t with
    | .store op _ => some op.word
    | _ => none

/-- "The above must be operated exclusively": INC, DEC, BTS and BR change no word between a load
and a store of it on the other core. -/
def exclusively : MlEvent → Bool
  | .go c t _ =>
    match s.pc t with
    | .store op val => s.busy c.other != some op.word || op.apply val == s.val op.word
    | _ => true
  | _ => true

end MlSys

def mlMachine (cfg : TskCfg) : Lts MlSys MlEvent where
  init s := ∃ priority, s = MlSys.created priority
  step := MlSys.step cfg

/-! ## What the lock promises -/

namespace MlPc

/-- The task is in MLockTmo of the number, between INC and DEC. -/
def inside : MlPc → Option (Fin 32)
  | .load (.bts no _) | .store (.bts no _) _ | .waiFlg no _ | .blocked no _ | .load (.dec no _)
  | .store (.dec no _) _ => some no
  | _ => none

/-- It is in the loop there. -/
def seeks : MlPc → Option (Fin 32)
  | .load (.bts no _) | .store (.bts no _) _ | .waiFlg no _ | .blocked no _ => some no
  | _ => none

/-- It is in MUnlock, after BR. -/
def unlocking : MlPc → Option (Fin 32)
  | .rdWai no | .setFlg no => some no
  | _ => none

/-- MLockTmo is about to return `ercd`. -/
def failing : MlPc → Bool
  | .load (.dec _ ercd) | .store (.dec _ ercd) _ => ercd ≠ .E_OK
  | _ => false

end MlPc

/-- The task is in the loop of MLockTmo and not stopped in tk_wai_flg, nor would it be. -/
def MlSys.CanGo (s : MlSys) (no : Fin 32) (t : Tid) : Prop :=
  (s.pc t).seeks = some no ∧ (∀ tmo, s.pc t ≠ .blocked no tmo) ∧
    ∀ tmo, s.pc t = .waiFlg no tmo → s.id.flgptn &&& bit no ≠ 0

structure MlOk (cfg : TskCfg) (s : MlSys) : Prop where
  exclusive : ∀ no t u, s.held t no = true → s.held u no = true → t = u
  failed : ∀ t, (s.pc t).failing = true → s.touched t = false
  counts : s.wai.toNat = census cfg.numTskid s.pc fun p => p.inside.isSome
  /-- MUnlock returns -/
  unlocks : ∀ c t ddsp no s', (s.pc t).unlocking = some no → s.step cfg (.go c t ddsp) = some s' →
    s'.pc t = .out → (∃ u, (s'.pc u).seeks = some no) → ∃ u, s'.CanGo no u
  /-- no wake-up is lost while a lock is free -/
  wakes : ∀ no, s.flg &&& bit no = 0 → (∀ t, (s.pc t).unlocking ≠ some no) →
    (∃ t, (s.pc t).seeks = some no) → ∃ t, s.CanGo no t

end Mtk3Smp
