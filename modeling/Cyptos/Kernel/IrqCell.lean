import Cyptos.Riscv.Status

/-!
# Critical sections (`sync/irq_cell.rs`)

`IrqCell::with_lock` instruction by instruction, in kernel code that an interrupt may suspend
between any two instructions while `mstatus.MIE` is set.
-/

namespace Cyptos
set_option autoImplicit false
open Riscv

/-- An instruction that leaves `MIE` as it is. -/
structure Work (σ : Type) where
  run : BitVec 64 × σ → BitVec 64 × σ
  keeps : ∀ s, Status.mie (run s).1 = Status.mie s.1

/-- Work on the data only. -/
def Work.data {σ : Type} (f : σ → σ) : Work σ := ⟨fun s => (s.1, f s.2), fun _ => rfl⟩

/-- Kernel code: it reads and writes `MIE` in `with_lock` only. -/
inductive Prog (σ : Type)
  | work (w : Work σ)
  | seq (first second : Prog σ)
  | cond (test : BitVec 64 × σ → Bool) (yes no : Prog σ)
  | loop (test : BitVec 64 × σ → Bool) (body : Prog σ)
  | withLock (body : Prog σ)

/-- What is left to do of a program. A `with_lock` in progress keeps the word it has read. -/
inductive Todo (σ : Type)
  | prog (p : Prog σ)
  | clear (mstatus : BitVec 64) (body : Prog σ)
  | leave (mstatus : BitVec 64)
  | enable

/-- A hart in machine mode: the running code, and the code that interrupts have suspended. -/
structure Core (σ : Type) where
  mstatus : BitVec 64
  data : σ
  code : List (Todo σ)
  suspended : List (List (Todo σ))

section Execution

variable {σ : Type}

/-- One instruction. -/
def Core.exec (c : Core σ) (rest : List (Todo σ)) : Todo σ → Core σ
  | .prog (.work w) =>
    let (mstatus, data) := w.run (c.mstatus, c.data)
    { c with mstatus, data, code := rest }
  | .prog (.seq first second) => { c with code := .prog first :: .prog second :: rest }
  | .prog (.cond test yes no) => { c with code := .prog (if test (c.mstatus, c.data) then yes else no) :: rest }
  | .prog (.loop test body) =>
    if test (c.mstatus, c.data) then { c with code := .prog body :: .prog (.loop test body) :: rest }
    else { c with code := rest }
  -- csrr mstatus
  | .prog (.withLock body) => { c with code := .clear c.mstatus body :: rest }
  -- csrc mstatus, 1 << 3
  | .clear mstatus body =>
    { c with mstatus := c.mstatus &&& ~~~(1#64 <<< 3), code := .prog body :: .leave mstatus :: rest }
  | .leave mstatus =>
    if mstatus &&& (1#64 <<< 3) ≠ 0 then { c with code := .enable :: rest }
    else { c with code := rest }
  -- csrs mstatus, 1 << 3
  | .enable => { c with mstatus := c.mstatus ||| (1#64 <<< 3), code := rest }

/-- The program does not touch the saved enable `MPIE`. -/
def Prog.KeepsMpie : Prog σ → Prop
  | .work w => ∀ s, Status.mpie (w.run s).1 = Status.mpie s.1
  | .seq first second => first.KeepsMpie ∧ second.KeepsMpie
  | .cond _ yes no => yes.KeepsMpie ∧ no.KeepsMpie
  | .loop _ body => body.KeepsMpie
  | .withLock body => body.KeepsMpie

/-- Code that an interrupt enters and that returns to the interrupted point by `mret`. -/
structure Handler (σ : Type) where
  program : Prog σ
  keeps : program.KeepsMpie

inductive CoreEvent (σ : Type)
  | exec
  | interrupt (handler : Handler σ)
  | mret

def Core.after (c : Core σ) : CoreEvent σ → Option (Core σ)
  | .exec =>
    match c.code with
    | [] => none
    | todo :: rest => some (c.exec rest todo)
  | .interrupt handler =>
    if Status.mie c.mstatus then
      some { c with
        mstatus := Status.trap .machine c.mstatus, code := [.prog handler.program], suspended := c.code :: c.suspended }
    else none
  | .mret =>
    match c.code, c.suspended with
    | [], top :: rest => some { c with mstatus := Status.mret c.mstatus, code := top, suspended := rest }
    | _, _ => none

def Core.start (mstatus : BitVec 64) (data : σ) (p : Prog σ) : Core σ := ⟨mstatus, data, [.prog p], []⟩

end Execution

end Cyptos
