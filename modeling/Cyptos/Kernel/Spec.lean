import Cyptos.Kernel.Scheduler

/-!
# Task specifications (`sched/task/spec.rs`)
-/

namespace Cyptos
set_option autoImplicit false
open Riscv

/-- Privilege mode and address-space configuration for a task. -/
inductive TaskMode
  | MMode
  | UMode (codeBase codeSize : BitVec 64) (mmio : List (BitVec 64 × BitVec 64))

/-- Complete description of a task that can be registered with the scheduler. -/
structure TaskSpec where
  entry : BitVec 64
  mode : TaskMode

def TaskSpec.machine (entry : BitVec 64) : TaskSpec := ⟨entry, .MMode⟩

def TaskSpec.user (entry codeBase codeSize : BitVec 64) (mmio : List (BitVec 64 × BitVec 64)) : TaskSpec :=
  ⟨entry, .UMode codeBase codeSize mmio⟩

/-- Allocate a task stack; the result is its bottom and its top. -/
def allocTaskStack (heap : BumpAllocator) : Outcome ((BitVec 64 × BitVec 64) × BumpAllocator) :=
  let layout : AllocLayout := ⟨taskStackSize, taskStackAlign⟩
  let (allocation, heap) := heap.alloc layout
  match allocation with
  | none => .error "allocating stack: AllocError"
  | some allocation => .ok ((allocation, allocation + layout.size), heap)

/-- A chain of builder calls: code, a stack of any size, then the MMIO regions in order. -/
def buildConfig (code stack : BitVec 64 × BitVec 64) (mmio : List (BitVec 64 × BitVec 64)) : Outcome PmpConfig := do
  let builder ← PmpConfig.builder.codeRegion code.1 code.2
  let builder ← builder.stackRegion stack.1 stack.2
  let builder ← mmio.foldlM (fun b r => b.mmioRegion r.1 r.2) builder
  return builder.build

/-- The PMP configuration of a user task: code, stack, then the MMIO regions in order. -/
def buildPmp (codeBase codeSize stackBottom : BitVec 64) (mmio : List (BitVec 64 × BitVec 64)) : Outcome PmpConfig :=
  buildConfig (codeBase, codeSize) (stackBottom, taskStackSize) mmio

/-- What `spawn` does once its stack has been allocated: construct the PMP configuration and register the task. -/
def TaskSpec.register (spec : TaskSpec) (csr : Csrs) (sched : SchedulerState) (stackBottom stackTop : BitVec 64) :
    Outcome (TaskId × SchedulerState × Csrs) :=
  match spec.mode with
  | .MMode => createTaskMmode csr sched spec.entry stackTop
  | .UMode codeBase codeSize mmio => do
    let pmp ← buildPmp codeBase codeSize stackBottom mmio
    createTask csr sched spec.entry stackTop (List.ofFn pmp.regions)

/-- Allocate the task stack, construct its PMP configuration, and register it. -/
def TaskSpec.spawn (spec : TaskSpec) (csr : Csrs) (k : Kernel) : Outcome (TaskId × Kernel × Csrs) := do
  let ((stackBottom, stackTop), heap) ← allocTaskStack k.heap
  let (id, sched, csr) ← spec.register csr k.sched stackBottom stackTop
  return (id, { k with sched, heap }, csr)

/-! ## Interleaved spawns -/

/-- A use of the heap: the stack of a task to be spawned, or anything else. -/
inductive HeapUse
  | stack (spec : TaskSpec)
  | other (layout : AllocLayout)

def HeapUse.layout : HeapUse → AllocLayout
  | .stack _ => ⟨taskStackSize, taskStackAlign⟩
  | .other layout => layout

/-- Spawns and other allocations in progress, each under a name of its own, and what the calls of
`spawn` have returned so far. -/
structure Spawning (ι : Type) where
  heap : SharedHeap ι
  sched : SchedulerState
  csr : Csrs
  returned : ι → Option TaskId

inductive SpawnEvent (ι : Type)
  | heap (e : HeapEvent ι)
  | register (i : ι)

/-- One event: an access to the heap, or the rest of a `spawn` whose stack has been allocated. -/
def Spawning.after {ι : Type} [DecidableEq ι] (uses : ι → HeapUse) (s : Spawning ι) : SpawnEvent ι → Outcome (Spawning ι)
  | .heap e => .ok { s with heap := s.heap.after (fun i => (uses i).layout) e }
  | .register i =>
    match uses i, s.heap.calls i, s.returned i with
    | .stack spec, .done (some stackBottom), none => do
      let (id, sched, csr) ← spec.register s.csr s.sched stackBottom (stackBottom + taskStackSize)
      return { s with sched, csr, returned := Function.update s.returned i (some id) }
    -- `expect` on the failed allocation
    | .stack _, .done none, _ => .error "allocating stack: AllocError"
    | _, _, _ => .ok s

def Spawning.start {ι : Type} (heap : BumpAllocator) (csr : Csrs) : Spawning ι :=
  ⟨.start heap, .empty, csr, fun _ => none⟩

end Cyptos
