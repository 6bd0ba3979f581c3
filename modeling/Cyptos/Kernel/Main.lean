import Cyptos.Kernel.Boot

/-!
# The boot sequence of the kernel (`main.rs`)

`kmain` with all that it prints, up to the point where it enables interrupts. What follows is
one more line of text and a loop of `wfi`, in a context that the first timer interrupt leaves
for good.
-/

namespace Cyptos
set_option autoImplicit false
open Riscv

/-- What `kmain` takes from the linker: the layout, where heap and user text start, and the entry points. -/
structure Image where
  layout : Layout
  sheap : BitVec 64
  userTextStart : BitVec 64
  idleTaskEntry : BitVec 64
  userEchoTask : BitVec 64
  userViolationTask : BitVec 64
  heap_after : layout.userTextEnd.toNat ≤ sheap.toNat
  heap_ordered : sheap.toNat ≤ layout.eheap.toNat
  userText_aligned : userTextStart.toNat % 4096 = 0

def printBanner (u : Uart) : Uart :=
  let u := Serial.println u "CyptOS v0.1.0"
  let u := Serial.println u "RV64 bare-metal microkernel"
  Serial.println u "----------------------------"

/-- Initialize the heap and try it with a vector of three bytes, which is freed at once: freeing does nothing. -/
def initHeap (img : Image) (heap : BumpAllocator) (u : Uart) : Outcome (BumpAllocator × Uart) :=
  let heap := heap.init img.sheap img.layout.eheap
  let u := Serial.puts u "[alloc] Heap initialized\n"
  let (v, heap) := heap.alloc ⟨3, 1⟩
  match v with
  | none => .error "memory allocation of 3 bytes failed"
  | some _ => .ok (heap, Serial.println u ("[alloc] Test alloc ok, len=" ++ Serial.fmtDec 3))

/-- `trap::init`, without the write to `mtvec`. -/
def trapInit (u : Uart) : Uart := Serial.println u "[trap] mtvec initialized"

/-- `timer::init` with its message. -/
def timerInit (t : Timer) (u : Uart) : Timer × Uart :=
  (t.init, Serial.println u ("[timer] CLINT initialized, tick=" ++ Serial.fmtDec (tickIntervalUs / 1000) ++ "ms"))

/-- Spawn a task and print its number behind `created`. -/
def spawnAndTell (spec : TaskSpec) (created : String) (k : Kernel) (csr : Csrs) : Outcome (Kernel × Csrs) := do
  let (id, k, csr) ← spec.spawn csr k
  let u ← Serial.putDec (Serial.puts k.uart created) (id.val.setWidth 64)
  return ({ k with uart := Serial.puts u "\n" }, csr)

def Image.idle (img : Image) : TaskSpec := .machine img.idleTaskEntry

def Image.echo (img : Image) : TaskSpec := .user img.userEchoTask img.userTextStart 0x1000 [(uartBase, 0x1000)]

def Image.violation (img : Image) : TaskSpec := .user img.userViolationTask img.userTextStart 0x1000 []

def spawnIdleTask (img : Image) : Kernel → Csrs → Outcome (Kernel × Csrs) :=
  spawnAndTell img.idle "[sched] idle task created: "

def spawnEchoTask (img : Image) : Kernel → Csrs → Outcome (Kernel × Csrs) :=
  spawnAndTell img.echo "[sched] task created: "

def spawnViolationTask (img : Image) : Kernel → Csrs → Outcome (Kernel × Csrs) :=
  spawnAndTell img.violation "[sched] task created: "

/-- `kmain` until interrupts are enabled. -/
def kmain (img : Image) (m : Machine) : Outcome Machine := do
  let uart := printBanner m.kernel.uart
  let (heap, uart) ← initHeap img m.kernel.heap uart
  let uart := trapInit uart
  let (pmp, uart) := pmpInit img.layout m.kernel.pmp uart
  let (timer, uart) := timerInit m.kernel.timer uart
  let (k, csr) ← spawnIdleTask img { sched := .empty, pmp, uart, timer, heap } m.hart.csr
  let (k, csr) ← spawnEchoTask img k csr
  let (k, csr) ← spawnViolationTask img k csr
  let (_, sched, csr) := withLock csr k.sched fun s => ((), schedInit s)
  return ⟨{ m.hart with csr := enableInterrupts csr }, { k with sched }⟩

end Cyptos
