import Cyptos.Logic.Interleaving
import Cyptos.Sim.Optimistic

/-!
# The allocator as a sequential one

`alloc` is an optimistic update of `next`: it loads `next`, decides, and exchanges it. So calls that
interrupt each other anywhere do what the same calls do one after the other, and together they need
only so many accesses.
-/

namespace Cyptos
set_option autoImplicit false
open Sim

/-- What `alloc` makes of the `next` it has loaded. -/
def allocIntent (heapEnd : BitVec 64) (l : AllocLayout) (current : BitVec 64) :
    Intent (BitVec 64) (Option (BitVec 64)) :=
  let aligned := BumpAllocator.alignUp current l.align
  let newNext := aligned + l.size
  if newNext > heapEnd then .answer none else .commit (some aligned) newNext

def AllocCall.attempt : AllocCall → Try (BitVec 64) (Option (BitVec 64))
  | .load => .load
  | .exchange current => .exchange current
  | .done result => .done result

/-- One call after the other, without interference: the answers and the allocator at the end. -/
def allocInOrder {ι : Type} (layouts : ι → AllocLayout) (a : BumpAllocator) :
    List ι → List (Option (BitVec 64)) × BumpAllocator
  | [] => ([], a)
  | i :: later =>
    let (p, a) := a.alloc (layouts i)
    let (ps, a) := allocInOrder layouts a later
    (p :: ps, a)

/-- The calls that the events are accesses of, in order. -/
def accesses {ι : Type} (events : List (HeapEvent ι)) : List ι :=
  events.filterMap fun
    | .advance i => some i
    | .dealloc _ _ => none

/-! ## The model as an object -/

section Object

variable {ι : Type} {layouts : ι → AllocLayout}

/-- The allocator with `next` moved. -/
def BumpAllocator.at (a : BumpAllocator) (next : BitVec 64) : BumpAllocator := { a with next }

def SharedHeap.object (s : SharedHeap ι) : Shared ι (BitVec 64) (Option (BitVec 64)) :=
  ⟨s.heap.next, fun i => (s.calls i).attempt⟩

/-- An allocation is its intent carried out at once. -/
theorem alloc_intent (a : BumpAllocator) (l : AllocLayout) :
    a.alloc l = (((allocIntent a.heapEnd l a.next).apply a.next).1, a.at ((allocIntent a.heapEnd l a.next).apply a.next).2) := by
  simp only [BumpAllocator.alloc, allocIntent]
  split
  · rfl
  · rfl

theorem allocInOrder_eq (a : BumpAllocator) (order : List ι) :
    allocInOrder layouts a order =
      ((inOrder (fun i => allocIntent a.heapEnd (layouts i)) a.next order).1,
        a.at (inOrder (fun i => allocIntent a.heapEnd (layouts i)) a.next order).2) := by
  induction order generalizing a with
  | nil => rfl
  | cons i later ih => simp only [allocInOrder, inOrder, alloc_intent, ih, BumpAllocator.at]

theorem advance_attempt (l : AllocLayout) (a : BumpAllocator) (call : AllocCall) :
    (call.advance l a).1.attempt = (call.attempt.advance (allocIntent a.heapEnd l) a.next).1 ∧
      (call.advance l a).2 = a.at (call.attempt.advance (allocIntent a.heapEnd l) a.next).2 := by
  cases call with
  | load => exact ⟨rfl, rfl⟩
  | done result => exact ⟨rfl, rfl⟩
  | exchange current =>
    by_cases full : BumpAllocator.alignUp current l.align + l.size > a.heapEnd
    · simp [AllocCall.advance, AllocCall.attempt, Try.advance, allocIntent, BumpAllocator.at, full]
    · by_cases same : a.next = current
      · simp [AllocCall.advance, AllocCall.attempt, Try.advance, allocIntent, BumpAllocator.at, full, same]
      · simp [AllocCall.advance, AllocCall.attempt, Try.advance, allocIntent, BumpAllocator.at, full, same]

variable [DecidableEq ι]

theorem object_after (layouts : ι → AllocLayout) (s : SharedHeap ι) (i : ι) :
    (s.after layouts (.advance i)).object =
        s.object.advance (fun i => allocIntent s.heap.heapEnd (layouts i)) i ∧
      (s.after layouts (.advance i)).heap = s.heap.at (s.after layouts (.advance i)).heap.next := by
  obtain ⟨call, heap⟩ := advance_attempt (layouts i) s.heap (s.calls i)
  rw [SharedHeap.after_advance]
  refine ⟨?_, by rw [heap]; rfl⟩
  simp only [SharedHeap.object, Shared.advance, Shared.mk.injEq]
  refine ⟨by rw [heap]; rfl, ?_⟩
  funext j
  by_cases here : j = i
  · subst here
    simp only [Function.update_self, call]
  · simp only [Function.update_of_ne here]

/-- The events move the allocator as their accesses move the object. -/
theorem object_run (s : SharedHeap ι) (events : List (HeapEvent ι)) :
    (s.run layouts events).object =
        s.object.run (fun i => allocIntent s.heap.heapEnd (layouts i)) (accesses events) ∧
      (s.run layouts events).heap = s.heap.at (s.run layouts events).heap.next := by
  induction events generalizing s with
  | nil => exact ⟨rfl, rfl⟩
  | cons e events ih =>
    obtain ⟨object, heap⟩ := ih (s.after layouts e)
    cases e with
    | dealloc ptr layout => exact ⟨object, heap⟩
    | advance i =>
      obtain ⟨first, moved⟩ := object_after layouts s i
      rw [moved] at object heap
      rw [first] at object
      exact ⟨object, heap⟩

end Object

/-! ## Linearization -/

section Linearization

variable {ι : Type} [DecidableEq ι]

/-- **Any interleaving is a sequence.** However calls of `alloc` are interleaved, the calls that have taken
effect can be put in an order in which, one after the other, they get the answers that they have got and
leave the allocator as it is. A call that has been answered is among them. The order keeps to time: at any
earlier point it had a first part, with the calls answered by then in it and the calls not yet begun out of it. -/
theorem allocations_linearizable (layouts : ι → AllocLayout) (heap : BumpAllocator) (events : List (HeapEvent ι)) :
    let s := (SharedHeap.start heap).run layouts events
    ∃ order : List (ι × Option (BitVec 64)), (order.map Prod.fst).Nodup ∧
      allocInOrder layouts heap (order.map Prod.fst) = (order.map Prod.snd, s.heap) ∧
      (∀ i p, s.calls i = .done p → (i, p) ∈ order) ∧
      ∀ before later, events = before ++ later → ∃ first rest, order = first ++ rest ∧
        (∀ i p, ((SharedHeap.start heap).run layouts before).calls i = .done p → (i, p) ∈ first) ∧
        ∀ i, i ∉ accesses before → i ∉ first.map Prod.fst := by
  intro s
  have start : (SharedHeap.start (ι := ι) heap).object = Shared.start heap.next := rfl
  generalize operations : (fun i => allocIntent heap.heapEnd (layouts i)) = ops
  -- what the history of the accesses says about any point of time
  have explained (events : List (HeapEvent ι)) :
      Explains ops heap.next ((Shared.start heap.next).history ops (accesses events))
        ((SharedHeap.start heap).run layouts events).object := by
    rw [(object_run _ events).1, start, ← operations]
    exact Shared.explained _ _ _
  have answered {events : List (HeapEvent ι)} {i : ι} {p : Option (BitVec 64)}
      (done : ((SharedHeap.start heap).run layouts events).calls i = .done p) :
      (i, p) ∈ (Shared.start heap.next).history ops (accesses events) := by
    apply ((explained events).took i p).mp
    simp only [SharedHeap.object, done, AllocCall.attempt, Try.took]
  refine ⟨(Shared.start heap.next).history ops (accesses events), (explained events).once, ?_, fun i p => answered, ?_⟩
  · rw [allocInOrder_eq, operations, (explained events).replay]
    exact Prod.ext rfl (object_run (SharedHeap.start heap) events).2.symm
  · intro before later split
    have parts : accesses events = accesses before ++ accesses later := by
      rw [split]
      exact List.filterMap_append
    refine ⟨(Shared.start heap.next).history ops (accesses before),
      ((Shared.start heap.next).run ops (accesses before)).history ops (accesses later), ?_, fun i p => answered, ?_⟩
    · rw [parts]
      exact Shared.history_append ops _ _ _
    · intro i absent member
      obtain ⟨entry, listed, rfl⟩ := List.mem_map.mp member
      exact absent (Shared.history_own listed)

/-! ## Progress -/

/-- `1` for a call that has not been answered. -/
def AllocCall.pending : AllocCall → Nat
  | .done _ => 0
  | _ => 1

/-- How many of the events are accesses of calls that have not been answered yet. -/
def SharedHeap.work (layouts : ι → AllocLayout) (s : SharedHeap ι) : List (HeapEvent ι) → Nat
  | [] => 0
  | .advance i :: later => (s.calls i).pending + (s.after layouts (.advance i)).work layouts later
  | .dealloc _ _ :: later => s.work layouts later

theorem object_work {layouts : ι → AllocLayout} (s : SharedHeap ι) (events : List (HeapEvent ι)) :
    s.work layouts events = s.object.work (fun i => allocIntent s.heap.heapEnd (layouts i)) (accesses events) := by
  induction events generalizing s with
  | nil => rfl
  | cons e events ih =>
    cases e with
    | dealloc ptr layout => exact ih s
    | advance i =>
      obtain ⟨first, moved⟩ := object_after layouts s i
      have pending : (s.calls i).pending = (s.object.calls i).pending := by
        simp only [SharedHeap.object]
        cases s.calls i <;> rfl
      have rest := ih (s.after layouts (.advance i))
      rw [moved, first] at rest
      simp only [SharedHeap.work, rest, pending]
      rfl

/-- **No livelock.** However `n` calls of `alloc` are interleaved, they make at most `n * (n + 1)` accesses
until all of them have been answered: a call retries only because another one has gone through. -/
theorem allocations_lock_free [Fintype ι] (layouts : ι → AllocLayout) (heap : BumpAllocator)
    (events : List (HeapEvent ι)) :
    (SharedHeap.start heap).work layouts events ≤ Fintype.card ι * (Fintype.card ι + 1) := by
  rw [object_work]
  exact Shared.work_start_le _ heap.next (accesses events)

-- two calls that race need all six accesses
example : (SharedHeap.start (BumpAllocator.new.init 0x8002_0000 0x8102_0000)).work raceLayouts race = 6 := by decide

end Linearization

end Cyptos
