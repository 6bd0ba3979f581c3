import Cyptos.Kernel.Boot

/-!
# The echo task (`user_task.rs`)

`user_echo_task` by its points of control: the head of the loop, the three `ecall`s and what
follows them. Its compiled code is a parameter. What is known of it is what the asm blocks ask for:
the registers at each `ecall`, and that the code goes on behind it with the answer in `a0`.
-/

namespace Cyptos
set_option autoImplicit false
open Riscv

/-- A point of `user_echo_task`. -/
inductive EchoPoint
  /-- The head of the loop. -/
  | poll
  /-- The `ecall` of `SYS_GETC`. -/
  | getc
  /-- `SYS_GETC` has returned `byte`. -/
  | got (byte : BitVec 64)
  /-- The `ecall` of `SYS_PUTC` that echoes `byte`. -/
  | putc (byte : BitVec 64)
  /-- The byte has been echoed. -/
  | put (byte : BitVec 64)
  /-- The `ecall` of `SYS_PUTC` after a carriage return. -/
  | newline
  deriving DecidableEq, Repr

namespace EchoPoint

/-- The point that comes next without a system call; an `ecall` waits for the kernel. -/
def next : EchoPoint → EchoPoint
  | poll => getc
  | got byte => if byte = 0xFF then poll else putc byte
  | put byte => if byte = 13 then newline else poll
  | p => p

/-- The point behind an `ecall` that returns with `a0`. -/
def back (a0 : BitVec 64) : EchoPoint → EchoPoint
  | getc => got a0
  | putc byte => put byte
  | newline => poll
  | p => p

/-- The task stands at an `ecall`. -/
def AtEcall (p : EchoPoint) : Prop :=
  match p with
  | getc | putc _ | newline => True
  | poll | got _ | put _ => False

end EchoPoint

/-- Compiled code of `user_echo_task`: at which registers and program counters it stands at a point. -/
structure EchoCode where
  entry : BitVec 64
  At : EchoPoint → (Reg → BitVec 64) → BitVec 64 → Prop
  start : ∀ x, At .poll x entry
  getc : ∀ {x pc}, At .getc x pc → x .a7 = sysGetc
  got : ∀ {x pc} (a0 : BitVec 64), At .getc x pc → At (.got a0) (Function.update x .a0 a0) (pc + 4)
  putc : ∀ {byte x pc}, At (.putc byte) x pc → x .a7 = sysPutc ∧ x .a0 = byte
  put : ∀ {byte x pc}, At (.putc byte) x pc → At (.put byte) x (pc + 4)
  newline : ∀ {x pc}, At .newline x pc → x .a7 = sysPutc ∧ x .a0 = 10
  again : ∀ {x pc}, At .newline x pc → At .poll x (pc + 4)

end Cyptos
