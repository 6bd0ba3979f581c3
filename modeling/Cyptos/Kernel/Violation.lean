import Cyptos.Kernel.Boot

/-!
# The violation task (`user_task.rs`)

`user_violation_task` by its points of control: before its load, at the load, and behind it. As for the echo
task the compiled code is a parameter; what is known of it is where it starts and the address in the register
that the compiler picks for the load.
-/

namespace Cyptos
set_option autoImplicit false
open Riscv

/-- A point of `user_violation_task`. -/
inductive ViolationPoint
  /-- On the way to the load. -/
  | setup
  /-- At `ld val, 0(addr)`. -/
  | load
  /-- The load has been refused. -/
  | refused
  /-- The load has completed; the task spins. -/
  | spin
  deriving DecidableEq, Repr

/-- Compiled code of `user_violation_task`. -/
structure ViolationCode where
  entry : BitVec 64
  addr : Reg
  At : ViolationPoint → (Reg → BitVec 64) → BitVec 64 → Prop
  start : ∀ x, At .setup x entry
  load : ∀ {x pc}, At .load x pc → x addr = 0x8000_0000

/-- The hardware lets the load at `addr` read its eight bytes. -/
def ViolationCode.Allowed (code : ViolationCode) (m : Machine) : Prop :=
  ∀ b < 8, m.kernel.pmp.file.permits m.hart.mode .read ((m.hart.x code.addr).toNat + b) = true

/-- What can happen while the violation task runs. -/
inductive ViolationCode.Follows (code : ViolationCode) (m : Machine) : ViolationPoint → Event → ViolationPoint → Prop
  /-- It moves on without passing the load. -/
  | exec {p q : ViolationPoint} {x : Reg → BitVec 64} {pc : BitVec 64} {mem : Mem} (way : q = p ∨ p = .setup ∧ q = .load)
      (at_ : code.At q x pc) : Follows code m p (.exec x pc mem) q
  /-- The load completes. -/
  | loads {x : Reg → BitVec 64} {pc : BitVec 64} {mem : Mem} (allowed : code.Allowed m) (at_ : code.At .spin x pc) :
      Follows code m .load (.exec x pc mem) .spin
  /-- The load raises a load access fault. -/
  | faults {cause tval : BitVec 64} {clobber : Reg → BitVec 64} (exception : isInterrupt cause = false)
      (number : (causeCode cause).toNat = 5) (denied : ¬ code.Allowed m) :
      Follows code m .load (.trap cause tval clobber) .refused
  | interrupt {p : ViolationPoint} {cause tval : BitVec 64} {clobber : Reg → BitVec 64}
      (interrupt : isInterrupt cause = true) : Follows code m p (.trap cause tval clobber) p
  | device {p : ViolationPoint} {rx : List (BitVec 8)} {mtime : BitVec 64} : Follows code m p (.device rx mtime) p

/-- The machine and the point where the violation task stands. -/
structure ViolationState where
  machine : Machine
  point : ViolationPoint

/-- A step of the machine whose slot `i` executes the violation task. -/
structure ViolationStep (code : ViolationCode) (i : Fin maxTasks) (s : ViolationState) (e : Event) (s' : ViolationState) :
    Prop where
  step : s.machine.Step e s'.machine
  follows : s.machine.kernel.sched.current = some i → code.Follows s.machine s.point e s'.point
  stays : s.machine.kernel.sched.current ≠ some i → s'.point = s.point

end Cyptos
