import Cyptos.Kernel.Boot

/-!
# The QEMU virt board

The layout of `board/qemu-virt/linker.ld` for a kernel with 32 KiB of text and one page of
user text, and the tasks that `kmain` spawns.
-/

namespace Cyptos
set_option autoImplicit false
open Riscv

/-- The image at the start of RAM, with 64 KiB of kernel stack and 16 MiB of heap at its end. -/
def qemuVirt : Layout where
  stext := 0x8000_0000
  userTextEnd := 0x8000_9000
  eheap := 0x8102_0000
  text_lt := by decide
  data_lt := by decide
  stext_aligned := by decide
  userTextEnd_aligned := by decide
  eheap_aligned := by decide
  uart_outside := .inl (by decide)
  physical := by decide

/-- An image whose heap ends with the physical address space. -/
def topOfMemory : Symbols := ⟨0x8000_0000, 0x8000_9000, 0x100_0000_0000_0000⟩

/-- The allocator after the three bytes that `init_heap` allocates. -/
def qemuHeap : BumpAllocator := ⟨0x8002_0000, 0x8102_0000, 0x8002_0003⟩

/-- The hart and the statics as `kmain` is entered. -/
def powerOn : Machine where
  hart := { x := fun _ => 0, pc := 0x8000_0100, mode := .machine, csr := ⟨0, 0, 0, 0, 0⟩, mem := fun _ => 0 }
  kernel :=
    { sched := .empty, pmp := ⟨⟨54, fun _ => 0, fun _ => 0⟩, []⟩, uart := ⟨[], []⟩, timer := ⟨0, 0, 0⟩, heap := .new }

/-- Idle, echo and violation, in the order of `kmain`. -/
def kmainTasks : List TaskSpec :=
  [.machine 0x8000_0200,
   .user 0x8000_8000 0x8000_8000 0x1000 [(uartBase, 0x1000)],
   .user 0x8000_8100 0x8000_8000 0x1000 []]

theorem powerOn_reset : Reset powerOn := ⟨rfl, fun _ => show Pmp.locked 0 = false from rfl, rfl⟩

theorem qemuHeap_in : HeapIn qemuVirt qemuHeap := ⟨by decide, by decide, by decide, rfl⟩

/-- The machine after `kmain` has booted. -/
def kmainBooted : Machine := (boot qemuVirt qemuHeap kmainTasks powerOn).toOption.getD powerOn

theorem kmain_boots : boot qemuVirt qemuHeap kmainTasks powerOn = .ok kmainBooted := Outcome.eq_ok _ rfl

theorem kmain_booted : Booted qemuVirt kmainTasks kmainBooted :=
  ⟨powerOn, qemuHeap, powerOn_reset, qemuHeap_in, kmain_boots⟩

/-- A machine timer interrupt. -/
def timerTick : Event := .trap 0x8000_0000_0000_0007 0 fun _ => 0

/-- The machine after the first timer interrupt, which dispatches the echo task. -/
def echoRunning : Machine := (kmainBooted.after timerTick).toOption.getD kmainBooted

theorem echo_runs : Runs kmainBooted [timerTick] echoRunning :=
  Sim.Run.start.next ⟨fun _ => .inr (by decide), Outcome.eq_ok _ rfl⟩

theorem echo_current : echoRunning.kernel.sched.current = some 1 := rfl

theorem echo_slot : ∃ t, echoRunning.kernel.sched.tasks 1 = some t ∧ t.stackBottom = 0x8002_4000 := ⟨_, rfl, rfl⟩

/-- The machine after the second timer interrupt, which dispatches the violation task. -/
def violationRunning : Machine := (echoRunning.after timerTick).toOption.getD echoRunning

theorem echo_tick : kmainBooted.Step timerTick echoRunning := ⟨fun _ => .inr (by decide), Outcome.eq_ok _ rfl⟩

theorem violation_tick : echoRunning.Step timerTick violationRunning := ⟨fun _ => .inl rfl, Outcome.eq_ok _ rfl⟩

theorem violation_current : violationRunning.kernel.sched.current = some 2 := rfl

/-- The echo task computes for a while. -/
def echoComputes : Event := .exec (fun _ => 1) 0x8000_8004 fun _ => 0

def echoComputed : Machine := (echoRunning.after echoComputes).toOption.getD echoRunning

/-- The violation task runs in its place. -/
def echoWaits : Machine := (echoComputed.after timerTick).toOption.getD echoComputed

theorem echo_waits : Runs kmainBooted [timerTick, echoComputes, timerTick] echoWaits := by
  have computes : echoRunning.Step echoComputes echoComputed := ⟨trivial, rfl⟩
  have ticks : echoComputed.Step timerTick echoWaits := ⟨fun _ => .inl rfl, Outcome.eq_ok _ rfl⟩
  exact (echo_runs.next computes).next ticks

/-- It goes on. -/
def echoResumed : Machine := (echoWaits.after timerTick).toOption.getD echoWaits

theorem echo_resumes : echoWaits.Step timerTick echoResumed := ⟨fun _ => .inl rfl, Outcome.eq_ok _ rfl⟩

end Cyptos
