import Cyptos.Kernel.Trap
import Cyptos.Sim.Parties

/-!
# Reset (`_start`, `clear_bss`)

Every hart of the board starts at `_start` and reads its own `mhartid`; memory is shared. The code of
`_start` is taken line by line. `clear_bss` is compiled code: besides the tests, stores and increments of its
loop it has instructions of its own, which may change any register and its stack frame. Interrupts are off at
reset, so a hart that wakes up from `wfi` goes on with the next instruction.
-/

namespace Cyptos
set_option autoImplicit false
open Riscv Sim

/-- A point of `clear_bss`, with `ptr`. -/
inductive ClearPoint
  | whileTest (ptr : BitVec 64)
  | writeZero (ptr : BitVec 64)
  | addOne (ptr : BitVec 64)
  | ret
  deriving DecidableEq, Repr

/-- The linked image, as far as `_start` and `clear_bss` depend on it. -/
structure StartImage where
  stackTop : BitVec 64
  sbss : BitVec 64
  ebss : BitVec 64
  /-- The addresses behind the two calls of `_start`. -/
  clearReturn : BitVec 64
  kmainReturn : BitVec 64
  /-- The bytes of stack that the compiled `clear_bss` uses. -/
  frame : Nat
  /-- How many instructions it executes on the way to a point. -/
  internal : ClearPoint → Nat
  pace : Nat
  paced : ∀ p, internal p ≤ pace
  /-- The linker puts the stack behind `.bss`. -/
  stack_above : ebss.toNat + frame ≤ stackTop.toNat

/-- The stack frame of `clear_bss`. -/
def StartImage.Frame (img : StartImage) (a : BitVec 64) : Prop :=
  img.stackTop.toNat - img.frame ≤ a.toNat ∧ a.toNat < img.stackTop.toNat

/-- The point after a test, store or increment. -/
def ClearPoint.next (img : StartImage) : ClearPoint → ClearPoint
  | .whileTest ptr => if ptr < img.ebss then .writeZero ptr else .ret
  | .writeZero ptr => .addOne ptr
  | .addOne ptr => .whileTest (ptr + 1)
  | .ret => .ret

/-- What it does to memory. -/
def ClearPoint.store (m : Mem) : ClearPoint → Mem
  | .writeZero ptr => Function.update m ptr 0
  | _ => m

/-- What a hart executes next. In `clear_bss` that is the registers at the call, the point, and how many instructions
come before it. -/
inductive StartPc
  | csrrHartid
  | bnezPark
  | laStackTop
  | callClearBss
  | clearBss (entry : Reg → BitVec 64) (point : ClearPoint) (left : Nat)
  | callKmain
  | kmain
  | wfi
  | jumpWfi

structure StartHart where
  pc : StartPc
  x : Reg → BitVec 64

/-- One line of `_start`. None of them accesses memory. -/
def StartHart.line (img : StartImage) (mhartid : BitVec 64) (h : StartHart) : Option StartHart :=
  match h.pc with
  | .csrrHartid => some ⟨.bnezPark, Function.update h.x .t0 mhartid⟩
  | .bnezPark => some ⟨if h.x .t0 ≠ 0 then .wfi else .laStackTop, h.x⟩
  | .laStackTop => some ⟨.callClearBss, Function.update h.x .sp img.stackTop⟩
  | .callClearBss =>
    let x := Function.update h.x .ra img.clearReturn
    some ⟨.clearBss x (.whileTest img.sbss) (img.internal (.whileTest img.sbss)), x⟩
  | .callKmain => some ⟨.kmain, Function.update h.x .ra img.kmainReturn⟩
  | .wfi => some ⟨.jumpWfi, h.x⟩
  | .jumpWfi => some ⟨.wfi, h.x⟩
  | .clearBss _ _ _ | .kmain => none

/-- What one hart does. From the first instruction of `kmain` on, which does not return, anything may happen to its
registers and to memory. -/
inductive StartHart.Own (img : StartImage) (mhartid : BitVec 64) : StartHart × Mem → StartHart × Mem → Prop
  | line {h h' : StartHart} {m : Mem} (next : h.line img mhartid = some h') : Own img mhartid (h, m) (h', m)
  /-- An instruction of `clear_bss` on the way to its next point. -/
  | internal {entry x : Reg → BitVec 64} {point : ClearPoint} {left : Nat} {m : Mem} (x' : Reg → BitVec 64) {m' : Mem}
      (frame : ∀ a, ¬ img.Frame a → m' a = m a) :
      Own img mhartid (⟨.clearBss entry point (left + 1), x⟩, m) (⟨.clearBss entry point left, x'⟩, m')
  /-- A test, store or increment of its loop. -/
  | loop {entry x : Reg → BitVec 64} {point : ClearPoint} {m : Mem} (inside : point ≠ .ret) (x' : Reg → BitVec 64) :
      Own img mhartid (⟨.clearBss entry point 0, x⟩, m)
        (⟨.clearBss entry (point.next img) (img.internal (point.next img)), x'⟩, point.store m)
  /-- It returns with the registers that a callee has to keep. -/
  | ret {entry x x' : Reg → BitVec 64} {m : Mem} (kept : ∀ r, callerSaved r = false → x' r = entry r) :
      Own img mhartid (⟨.clearBss entry .ret 0, x⟩, m) (⟨.callKmain, x'⟩, m)
  | kernel {h : StartHart} {m : Mem} (inside : h.pc = .kmain) (x : Reg → BitVec 64) (m' : Mem) :
      Own img mhartid (h, m) (⟨.kmain, x⟩, m')

/-- The harts of a board and their memory. -/
abbrev Harts (ι : Type) := Parties ι StartHart Mem

/-- A step of hart `i`, where `mhartid` gives each hart's identifier. -/
def Harts.Step {ι : Type} [DecidableEq ι] (img : StartImage) (mhartid : ι → BitVec 64) :
    Harts ι → ι → Harts ι → Prop :=
  Parties.Step fun i => StartHart.Own img (mhartid i)

end Cyptos
