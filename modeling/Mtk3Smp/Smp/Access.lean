import Mtk3Smp.Kernel.State

/-!
# Unlocked self-references

The kernel calls evaluate `knl_ctxtsk`, `knl_dispatch_disabled`, `knl_schedtsk` and
`knl_taskindp` before they take the kernel lock. Each of these macros reads the core id and
then the slot it indexes (`knlinc/smp.h:85`), so a call is a program of slot accesses that
its task executes one access at a time, each in two steps; PRIMASK and the PendSV bit
belong to the executing core and take one.
-/

namespace Mtk3Smp

/-- The result of an access program. -/
inductive Ret
  | ercd (e : ER)
  /-- a task ID, 0 for none: the ID of TCB `t` is `t + 1` -/
  | tskid (n : Nat)
  /-- the TCB a reference resolves to -/
  | tcb (x : Cur)
  /-- NULL was dereferenced -/
  | fault
  deriving DecidableEq

/-- A program of slot accesses. -/
inductive Prog
  | ret (r : Ret)
  | primask (k : Bool → Prog)
  | dispatch (k : Prog)
  | taskindp (k : Bool → Prog)
  | ctxtsk (k : Cur → Prog)
  | schedtsk (k : Option Tid → Prog)
  | disabled (k : Nat → Prog)
  | setDisabled (v : Nat) (k : Prog)

namespace Prog

/-- Whether the next access goes through a core id. -/
def indexed : Prog → Bool
  | .ret _ | .primask _ | .dispatch _ => false
  | _ => true

/-- `in_indp` (`cpu_status.h:153`). -/
def inIndp (k : Bool → Prog) : Prog :=
  .taskindp fun b => if b then k true else .ctxtsk fun x => k (x == .null)

/-- `in_loc` (`cpu_status.h:167`). -/
def inLoc (k : Bool → Prog) : Prog :=
  .primask fun b => if b then k true else inIndp k

/-- `in_ddsp` (`cpu_status.h:159`). -/
def inDdsp (k : Bool → Prog) : Prog :=
  .disabled fun d => if d != 0 then k true else inIndp fun b => if b then k true else .primask k

/-- `tskid` of the TCB in a slot; the idle TCBs have none. -/
def tskidOf (x : Cur) (k : Nat → Prog) : Prog :=
  match x with
  | .null => .ret .fault
  | .idle => k 0
  | .task t => k (t + 1)

/-- `tk_get_tid` (`task_manage.c:473`): the macro is evaluated twice. -/
def tkGetTid : Prog :=
  .ctxtsk fun x =>
    if x == .null then .ret (.tskid 0) else .ctxtsk fun y => tskidOf y fun n => .ret (.tskid n)

/-- `CHECK_TSKID_SELF` (`check.h:33`) and `get_tcb_self` (`task.h:72`) for TSK_SELF, as
tk_chg_pri and tk_ref_tsk begin. -/
def tcbSelf : Prog :=
  inIndp fun b => if b then .ret (.ercd .E_ID) else .ctxtsk fun x => .ret (.tcb x)

/-- `CHECK_NONSELF` (`check.h:110`). -/
def checkNonself (id : Nat) : Prog :=
  inIndp fun b =>
    if b then .ret (.ercd .E_OK)
    else .ctxtsk fun x => tskidOf x fun n =>
      .ret (.ercd (if id = n then .E_OBJ else .E_OK))

/-- `CHECK_DISPATCH` (`check.h:219`). -/
def checkDispatch : Prog :=
  inDdsp fun b => .ret (.ercd (if b then .E_CTX else .E_OK))

/-- `tk_dis_dsp` (`cpuctl.c:31`). -/
def tkDisDsp : Prog :=
  inLoc fun b =>
    if b then .ret (.ercd .E_CTX) else .setDisabled DDS_DISABLE (.ret (.ercd .E_OK))

/-- Whether the pointers in a `knl_ctxtsk` and a `knl_schedtsk` slot differ. -/
def slotsDiffer (x : Cur) (y : Option Tid) : Bool :=
  match x, y with
  | .null, none => false
  | .task t, some u => t != u
  | _, _ => true

/-- The test of tk_ena_dsp after its store. -/
def enaTest : Prog :=
  .ctxtsk fun x => .schedtsk fun y =>
    if slotsDiffer x y then .dispatch (.ret (.ercd .E_OK)) else .ret (.ercd .E_OK)

/-- `tk_ena_dsp` (`cpuctl.c:46`). -/
def tkEnaDsp : Prog :=
  inLoc fun b => if b then .ret (.ercd .E_CTX) else .setDisabled DDS_ENABLE enaTest

end Prog

/-- The calls, or beginnings of calls, that refer to their caller outside the kernel lock. -/
inductive Call
  | getTid
  | disDsp
  | enaDsp
  | chgPriSelf
  | refTskSelf
  | nonself (id : Nat)
  | checkDispatch
  deriving DecidableEq

def Call.prog : Call → Prog
  | .getTid => .tkGetTid
  | .disDsp => .tkDisDsp
  | .enaDsp => .tkEnaDsp
  | .chgPriSelf | .refTskSelf => .tcbSelf
  | .nonself id => .checkNonself id
  | .checkDispatch => .checkDispatch

/-- What a task does outside the kernel lock. -/
inductive Thr
  | user
  /-- executing the access program of `call`; `id` is a core id read for the next access -/
  | run (call : Call) (p : Prog) (id : Option Core)
  /-- in a call that may block, CHECK_DISPATCH passed -/
  | passed
  /-- in `knl_LockOBJ(loc)` -/
  | locking (loc : LockId)
  /-- between `knl_LockOBJ(loc)` and `knl_UnlockOBJ(loc)` -/
  | locked (loc : LockId)

def Thr.running : Thr → Bool
  | .run .. => true
  | _ => false

/-- The slot values that an access through core id `i` reads. -/
def Prog.answer (sl : Slots) (indp : Core → Bool) (i : Core) : Prog → Prog
  | .taskindp k => k (indp i)
  | .ctxtsk k => k (sl.ctxtsk i)
  | .schedtsk k => k (sl.schedtsk i)
  | .disabled k => k (sl.dispatchDisabled i)
  | .setDisabled _ k => k
  | p => p

end Mtk3Smp
