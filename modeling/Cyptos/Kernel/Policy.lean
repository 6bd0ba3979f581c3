import Mathlib.Tactic

/-!
# Task selection (`sched/policy.rs`)

Indices are machine words, and their sums wrap, as in the release profile that the kernel runs
under.
-/

namespace Cyptos
set_option autoImplicit false

def idleTaskIndex : Nat := 0

/-- The index that the scan looks at first. -/
def scanStart (N : BitVec 64) (current : Option (BitVec 64)) : BitVec 64 :=
  current.elim ((BitVec.ofNat 64 idleTaskIndex + 1) % N) fun current => (current + 1) % N

/-- The loop of `select_next_ready` over a list of offsets. The closure `is_ready` is an `FnMut`, so it
may change a state of its own. -/
def scanReady {σ : Type} (N start : BitVec 64) (isReady : BitVec 64 → StateM σ Bool) :
    List (BitVec 64) → StateM σ (Option (BitVec 64))
  | [] => pure none
  | offset :: later =>
    let idx := (start + offset) % N
    if idx ≠ BitVec.ofNat 64 idleTaskIndex then do
      let ready ← isReady idx
      if ready then pure (some idx) else scanReady N start isReady later
    else scanReady N start isReady later

/-- The range `0..N`. -/
def offsets (N : BitVec 64) : List (BitVec 64) := (List.range N.toNat).map (BitVec.ofNat 64)

/-- Select the next ready task: round-robin over the other tasks, idle only when none of them is
ready. -/
def selectNextReady {σ : Type} (N : BitVec 64) (current : Option (BitVec 64)) (isReady : BitVec 64 → StateM σ Bool) :
    StateM σ (Option (BitVec 64)) :=
  if N = 0 then pure none
  else do
    let scan ← scanReady N (scanStart N current) isReady (offsets N)
    if scan.isSome then pure scan
    else do
      let idle ← isReady (BitVec.ofNat 64 idleTaskIndex)
      pure (if idle then some (BitVec.ofNat 64 idleTaskIndex) else none)

section Slots

variable {N : Nat}

/-- The slot of a table that a word is the index of. -/
def slotAt (N : Nat) (idx : BitVec 64) : Option (Fin N) := if h : idx.toNat < N then some ⟨idx.toNat, h⟩ else none

/-- The scheduler's closure looks a slot up, which needs an index inside the table. -/
def slotReady (isReady : Fin N → Bool) (idx : BitVec 64) : Bool := (slotAt N idx).any isReady

/-- `select_next_ready::<N>` as the scheduler calls it, with a closure that only reads a table of `N` slots. -/
def selectSlot (current : Option (Fin N)) (isReady : Fin N → Bool) : Option (Fin N) :=
  let closure (idx : BitVec 64) : StateM Unit Bool := pure (slotReady isReady idx)
  let (selected, ()) := selectNextReady (BitVec.ofNat 64 N) (current.map fun i => BitVec.ofNat 64 i.val) closure ()
  selected.bind (slotAt N)

end Slots

end Cyptos
