import Cyptos.Kernel.Spec
import Cyptos.Kernel.Trap
import Cyptos.Sim.Run

/-!
# Boot and execution (`main.rs`)

`boot` is the sequence of `kmain` for an arbitrary list of tasks: lock the kernel's PMP
entries, arm the timer, spawn, make the tasks ready and enable interrupts. After it the
machine moves by events: the executing code changes registers, memory and program counter,
devices move on, and traps are taken. A panic ends the run.

The kernel's statics (scheduler, allocator, timer count) are private storage: they are fields of the
machine and not bytes of its memory, so no store of a task and none of the trap vector reaches them,
although the PMP entries let both write to the data they are linked into.
-/

namespace Cyptos
set_option autoImplicit false
open Riscv

/-- Spawn a list of tasks in order. -/
def spawnAll (specs : List TaskSpec) (k : Kernel) (csr : Csrs) : Outcome (Kernel × Csrs) :=
  specs.foldlM (fun s spec => do
    let (_, k, csr) ← spec.spawn s.2 s.1
    return (k, csr)) (k, csr)

/-- `timer::enable_interrupts`. -/
def enableInterrupts (csr : Csrs) : Csrs := { csr with mstatus := csr.mstatus ||| (1 <<< 3) }

/-- The boot sequence after `init_heap` left the allocator as `heap`. -/
def boot (l : Layout) (heap : BumpAllocator) (specs : List TaskSpec) (m : Machine) : Outcome Machine := do
  let (pmp, uart) := pmpInit l m.kernel.pmp m.kernel.uart
  let k : Kernel := { sched := .empty, pmp, uart, timer := m.kernel.timer.init, heap }
  let (k, csr) ← spawnAll specs k m.hart.csr
  let (_, sched, csr) := withLock csr k.sched fun s => ((), schedInit s)
  return ⟨{ m.hart with csr := enableInterrupts csr }, { k with sched }⟩

/-- What can happen to the machine after boot. -/
inductive Event
  /-- The executing code runs for a while without a trap. Its stores are to `mem`, and to no static of the kernel. -/
  | exec (x : Reg → BitVec 64) (pc : BitVec 64) (mem : Mem)
  /-- Machine-mode code writes `mstatus`. -/
  | writeMstatus (v : BitVec 64)
  /-- Bytes arrive at the UART and time passes. -/
  | device (rx : List (BitVec 8)) (mtime : BitVec 64)
  /-- A trap is taken and handled. -/
  | trap (cause tval : BitVec 64) (clobber : Reg → BitVec 64)

/-- When the hardware admits an event: user mode cannot write `mstatus`, and an interrupt is taken in
machine mode only with `MIE` set. -/
def Machine.Admits (m : Machine) : Event → Prop
  | .writeMstatus _ => m.hart.mode = .machine
  | .trap cause _ _ => isInterrupt cause = true → m.hart.mode = .user ∨ Status.mie m.hart.csr.mstatus = true
  | _ => True

/-- The machine after an event. Only traps change the kernel's statics. -/
def Machine.after (m : Machine) : Event → Outcome Machine
  | .exec x pc mem => .ok { m with hart := { m.hart with x, pc, mem } }
  | .writeMstatus v => .ok { m with hart := { m.hart with csr := { m.hart.csr with mstatus := v } } }
  | .device rx mtime => .ok { m with kernel := { m.kernel with
      uart := { m.kernel.uart with rx := m.kernel.uart.rx ++ rx }
      timer := { m.kernel.timer with mtime } } }
  | .trap cause tval clobber => m.trap cause tval clobber

/-- One step of the machine. -/
def Machine.Step (m : Machine) (e : Event) (m' : Machine) : Prop := m.Admits e ∧ m.after e = .ok m'

/-- The machine as it enters `kmain`: machine mode, and no PMP entry locked since reset. -/
structure Reset (m : Machine) : Prop where
  mode : m.hart.mode = .machine
  unlocked : ∀ i, Pmp.locked (m.kernel.pmp.file.cfg i) = false
  addrBits : m.kernel.pmp.file.addrBits = 54

/-- The allocator has been given a heap between user text and the end of the image. -/
structure HeapIn (l : Layout) (heap : BumpAllocator) : Prop where
  start : l.userTextEnd.toNat ≤ heap.heapStart.toNat
  next_ge : heap.heapStart.toNat ≤ heap.next.toNat
  next_le : heap.next.toNat ≤ heap.heapEnd.toNat
  heapEnd : heap.heapEnd = l.eheap

/-- `m` is the machine right after booting the tasks `specs` on the layout `l`. -/
def Booted (l : Layout) (specs : List TaskSpec) (m : Machine) : Prop :=
  ∃ reset heap, Reset reset ∧ HeapIn l heap ∧ boot l heap specs reset = .ok m

/-- `m` is reached from `start` by the events `es`. -/
abbrev Runs (start : Machine) (es : List Event) (m : Machine) : Prop := Sim.Run Machine.Step start es m

end Cyptos
