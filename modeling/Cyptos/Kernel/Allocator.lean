import Cyptos.Kernel.Config

/-!
# Bump heap allocator (`allocator.rs`)
-/

namespace Cyptos
set_option autoImplicit false

structure BumpAllocator where
  heapStart : BitVec 64
  heapEnd : BitVec 64
  next : BitVec 64

/-- A `core::alloc::Layout`: size and alignment of a request. -/
structure AllocLayout where
  size : BitVec 64
  align : BitVec 64

namespace BumpAllocator

def new : BumpAllocator := ⟨0, 0, 0⟩

def init (_ : BumpAllocator) (heapStart heapEnd : BitVec 64) : BumpAllocator := ⟨heapStart, heapEnd, heapStart⟩

/-- Align the bump position up to the alignment of a request. -/
def alignUp (current align : BitVec 64) : BitVec 64 := (current + align - 1) &&& ~~~(align - 1)

/-- Allocate without interference: the first compare-exchange succeeds. `none` is the null pointer. -/
def alloc (a : BumpAllocator) (layout : AllocLayout) : Option (BitVec 64) × BumpAllocator :=
  let current := a.next
  let aligned := alignUp current layout.align
  let newNext := aligned + layout.size
  if newNext > a.heapEnd then (none, a) else (some aligned, { a with next := newNext })

end BumpAllocator

/-! ## Interleaved calls -/

/-- Where a call of `alloc` stands between its accesses to `next`. -/
inductive AllocCall
  | load
  | exchange (current : BitVec 64)
  | done (result : Option (BitVec 64))
  deriving DecidableEq, Repr

/-- The next access of a call: the load of `next`, or the check and the compare-exchange, which
retries when another call has moved `next` in the meantime. -/
def AllocCall.advance (layout : AllocLayout) (a : BumpAllocator) : AllocCall → AllocCall × BumpAllocator
  | .load => (.exchange a.next, a)
  | .exchange current =>
    let aligned := BumpAllocator.alignUp current layout.align
    let newNext := aligned + layout.size
    if newNext > a.heapEnd then (.done none, a)
    else if a.next = current then (.done (some aligned), { a with next := newNext })
    else (.load, a)
  | .done result => (.done result, a)

/-- The allocator with the calls on it, each under a name of its own. -/
structure SharedHeap (ι : Type) where
  heap : BumpAllocator
  calls : ι → AllocCall

inductive HeapEvent (ι : Type)
  | advance (i : ι)
  | dealloc (ptr : BitVec 64) (layout : AllocLayout)

/-- One event on the shared allocator; deallocation is a no-op. -/
def SharedHeap.after {ι : Type} [DecidableEq ι] (layouts : ι → AllocLayout) (s : SharedHeap ι) :
    HeapEvent ι → SharedHeap ι
  | .advance i =>
    let (call, heap) := (s.calls i).advance (layouts i) s.heap
    ⟨heap, Function.update s.calls i call⟩
  | .dealloc _ _ => s

/-- All calls are still to be made. -/
def SharedHeap.start {ι : Type} (heap : BumpAllocator) : SharedHeap ι := ⟨heap, fun _ => .load⟩

end Cyptos
