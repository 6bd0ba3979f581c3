import Cyptos.Kernel.Boot
import Cyptos.Riscv.Checked

/-!
# Execution under protection

`Boot` lets code store anywhere. Here stores pass the PMP, and those of a trap reach a bus that need not
accept them: the doublewords of the frame that `trap_vector` stores, and what the compiled handler stores to
its own stack below the frame. A store of either that is refused is a trap of its own: it is taken in machine
mode and enters the vector again, below where `sp` has moved by then. What the handler leaves on its stack is
dead when it returns, and is not kept.
-/

namespace Cyptos
set_option autoImplicit false
open Riscv Riscv.Pmp

/-- A store of the compiled handler to its stack: the machine about to make it, the number of bytes and where they go. -/
structure StackStore where
  machine : Machine
  width : Nat
  addr : BitVec 64

/-- The compiled `trap_handler` with all that it calls, as far as the source leaves it open: the stores to its own
stack that it makes when a machine calls it, in order. It runs in machine mode. -/
structure HandlerCode where
  stores : Machine → List StackStore
  machine : ∀ m, ∀ s ∈ stores m, s.machine.hart.mode = .machine

/-- From the call of the handler, with the hart `h`, to `mret`. -/
def Machine.handle (m : Machine) (h : Hart) (clobber : Reg → BitVec 64) : Outcome Machine := do
  let s ← trapHandler ⟨TrapFrame.ofMem h.mem (h.x .a0), h.csr, m.kernel⟩
  let h := { h with
    x := fun r => if callerSaved r then clobber r else h.x r
    csr := s.csr
    mem := s.frame.toMem h.mem (h.x .a0) }
  return ⟨(runBlock trapVectorRestore h).mret, s.kernel⟩

section Bus

variable (bus : BitVec 64 → Bool) (vector : Nat → BitVec 64) (code : HandlerCode)

/-- Machine mode can store `width` bytes at `a`. -/
def Machine.storable (m : Machine) (width : Nat) (a : BitVec 64) : Bool :=
  bus a && m.kernel.pmp.file.permitsN width .machine .write a

/-- The first store of the handler's stack that is refused when `m` calls the handler. -/
def HandlerCode.refused (m : Machine) : Option StackStore :=
  (code.stores m).find? fun s => !s.machine.storable bus s.width s.addr

/-- Take a trap and run `trap_vector` up to the call of the handler, whose stack has to be storable as well; or
else the machine about to make the first store that is refused, and the address. `vector k` is the address of the
vector's instruction `k`. -/
def Machine.enter (m : Machine) (cause tval : BitVec 64) : Except (Machine × BitVec 64) Hart :=
  match runChecked (m.storable bus 8) 0 trapVectorSave (m.hart.trapEntry cause tval) with
  | .error fault => .error (⟨{ fault.hart with pc := vector fault.index }, m.kernel⟩, fault.addr)
  | .ok h =>
    match code.refused bus ⟨h, m.kernel⟩ with
    | some s => .error (s.machine, s.addr)
    | none => .ok h

/-- A whole trap under protection. A store that is refused is a store access fault. Without fuel the kernel is still
faulting. -/
def Machine.trapProtected : Nat → Machine → BitVec 64 → BitVec 64 → (Reg → BitVec 64) → Option (Outcome Machine)
  | 0, _, _, _, _ => none
  | fuel + 1, m, cause, tval, clobber =>
    match m.enter bus vector code cause tval with
    | .ok h => some (m.handle h clobber)
    | .error (next, addr) => trapProtected fuel next 7 addr clobber

/-- One step under protection: what code changes it may write to, and a trap comes out of its vector. -/
def Machine.ProtectedStep (m : Machine) (e : Event) (m' : Machine) : Prop :=
  m.Admits e ∧ match e with
    | .exec x pc mem =>
      (∀ a, mem a ≠ m.hart.mem a → m.kernel.pmp.file.permits m.hart.mode .write a.toNat = true) ∧
        m.after (.exec x pc mem) = .ok m'
    | .trap cause tval clobber => ∃ fuel, Machine.trapProtected bus vector code fuel m cause tval clobber = some (.ok m')
    | .writeMstatus v => m.after (.writeMstatus v) = .ok m'
    | .device rx mtime => m.after (.device rx mtime) = .ok m'

end Bus

end Cyptos
