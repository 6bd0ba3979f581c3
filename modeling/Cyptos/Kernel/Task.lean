import Cyptos.Kernel.Pmp
import Cyptos.Kernel.Frame

/-!
# Task metadata (`sched/task.rs`)
-/

namespace Cyptos
set_option autoImplicit false

/-- Task execution state. -/
inductive TaskState
  | Created | Ready | Running | Dead
  deriving DecidableEq, Repr

structure TaskId where
  val : BitVec 8
  deriving DecidableEq, Repr

/-- Per-task PMP configuration. -/
structure PmpConfig where
  regions : Fin pmpCount → PmpRegion

/-- The configuration with every entry unused. -/
def PmpConfig.empty : PmpConfig := ⟨fun _ => .none⟩

/-- Builder for `PmpConfig`; it starts at entry 4 and advances on each call. -/
structure PmpConfigBuilder where
  regions : Fin pmpCount → PmpRegion
  nextIdx : Nat

def PmpConfig.builder : PmpConfigBuilder := ⟨fun _ => .none, 4⟩

namespace PmpConfigBuilder

def region (b : PmpConfigBuilder) (base size : BitVec 64) (flags : BitVec 8) : Outcome PmpConfigBuilder :=
  if h : b.nextIdx < pmpCount then
    if size ≥ 8 ∧ isPowerOfTwo size then
      if base &&& (size - 1) = 0 then
        .ok ⟨Function.update b.regions ⟨b.nextIdx, h⟩ ⟨base, size, flags⟩, b.nextIdx + 1⟩
      else .error "PMP region base must be aligned to size"
    else .error "PMP region size must be a power of 2 and at least 8 bytes"
  else .error "PMP region table full"

/-- Add a code region (read and execute). -/
def codeRegion (b : PmpConfigBuilder) (base size : BitVec 64) : Outcome PmpConfigBuilder :=
  b.region base size Flags.RX

/-- Add a stack region (read and write). -/
def stackRegion (b : PmpConfigBuilder) (base size : BitVec 64) : Outcome PmpConfigBuilder :=
  b.region base size Flags.RW

/-- Add an MMIO region (read and write). -/
def mmioRegion (b : PmpConfigBuilder) (base size : BitVec 64) : Outcome PmpConfigBuilder :=
  b.region base size Flags.RW

def build (b : PmpConfigBuilder) : PmpConfig := ⟨b.regions⟩

end PmpConfigBuilder

/-- Task control block. -/
structure Task where
  id : TaskId
  state : TaskState
  context : TaskContext
  pmpConfig : PmpConfig
  stackBottom : BitVec 64
  stackTop : BitVec 64
  entryPoint : BitVec 64

/-- A new task in the `Created` state. -/
def Task.new (id : TaskId) (entry stackTop : BitVec 64) : Task where
  id := id
  state := .Created
  context := .newUmode entry stackTop
  pmpConfig := .empty
  stackBottom := stackTop - taskStackSize
  stackTop := stackTop
  entryPoint := entry

end Cyptos
