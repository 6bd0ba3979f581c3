import Cyptos.Logic.Heap

/-!
# Interleaved allocations

Calls of `alloc` that interrupt each other anywhere between their accesses to `next`. Seen as an
arena, one access changes nothing or grants the block of one call.
-/

namespace Cyptos
set_option autoImplicit false
open Riscv Sim

/-! ## One access -/

/-- What one access of a call does. -/
inductive Advance (l : AllocLayout) (a : BumpAllocator) : AllocCall → AllocCall → BumpAllocator → Prop
  | loads : Advance l a .load (.exchange a.next) a
  | refuses (current : BitVec 64) : Advance l a (.exchange current) (.done none) a
  | retries (current : BitVec 64) : Advance l a (.exchange current) .load a
  | allocates {p : BitVec 64} {a' : BumpAllocator} (alloc : a.alloc l = (some p, a')) :
      Advance l a (.exchange a.next) (.done (some p)) a'
  | stays (result : Option (BitVec 64)) : Advance l a (.done result) (.done result) a

/-- A successful exchange is an allocation without interference. -/
theorem advance_cases (l : AllocLayout) (a : BumpAllocator) (call : AllocCall) :
    Advance l a call (call.advance l a).1 (call.advance l a).2 := by
  cases call with
  | load => exact .loads
  | done result => exact .stays result
  | exchange current =>
    simp only [AllocCall.advance]
    split
    · exact .refuses current
    · rename_i fits
      split
      · rename_i same
        subst same
        refine .allocates ?_
        rw [BumpAllocator.alloc, if_neg fits]
      · exact .retries current

/-- An exchange right after the load does what `alloc` does. -/
theorem exchange_now (l : AllocLayout) (a : BumpAllocator) :
    (AllocCall.exchange a.next).advance l a = (.done (a.alloc l).1, (a.alloc l).2) := by
  simp only [AllocCall.advance, BumpAllocator.alloc, if_true]
  split
  · rfl
  · rfl

/-- A call that has not been answered with a block has not changed the allocator. -/
theorem Advance.heap_same {l : AllocLayout} {a a' : BumpAllocator} {call call' : AllocCall}
    (advance : Advance l a call call' a') (unanswered : ∀ p, call' ≠ .done (some p)) : a' = a := by
  cases advance with
  | loads => rfl
  | refuses => rfl
  | retries => rfl
  | allocates alloc => exact absurd rfl (unanswered _)
  | stays => rfl

/-! ## The shared allocator as an arena -/

section Shared

variable {ι : Type} (layouts : ι → AllocLayout)

/-- The block that a call has been answered with. -/
def AllocCall.block (l : AllocLayout) : AllocCall → Option Block
  | .done (some p) => some ⟨p.toNat, l.size.toNat⟩
  | _ => none

def SharedHeap.arena (s : SharedHeap ι) : Arena ι where
  low := s.heap.heapStart.toNat
  high := s.heap.heapEnd.toNat
  mark := s.heap.next.toNat
  granted := fun i => (s.calls i).block (layouts i)

/-- What holds of the shared allocator at any time. -/
structure HeapSafe (heapStart heapEnd : BitVec 64) (s : SharedHeap ι) : Prop where
  heapStart : s.heap.heapStart = heapStart
  heapEnd : s.heap.heapEnd = heapEnd
  sound : (s.arena layouts).Sound
  aligned : ∀ i p, s.calls i = .done (some p) → p.toNat % (layouts i).align.toNat = 0

variable {layouts} {heapStart heapEnd : BitVec 64} {s : SharedHeap ι}

theorem HeapSafe.ready (safe : HeapSafe layouts heapStart heapEnd s) (bound : heapEnd.toNat < 2 ^ 63) :
    HeapReady s.heap := by
  refine ⟨safe.sound.low_le, safe.sound.le_high, ?_⟩
  rw [safe.heapEnd]
  exact bound

theorem SharedHeap.granted_done {i : ι} {p : BitVec 64} (answered : s.calls i = .done (some p)) :
    (s.arena layouts).granted i = some ⟨p.toNat, (layouts i).size.toNat⟩ := by
  simp only [SharedHeap.arena, answered]
  rfl

theorem HeapSafe.next_in (safe : HeapSafe layouts heapStart heapEnd s) :
    heapStart.toNat ≤ s.heap.next.toNat ∧ s.heap.next.toNat ≤ heapEnd.toNat := by
  rw [← safe.heapStart, ← safe.heapEnd]
  exact ⟨safe.sound.low_le, safe.sound.le_high⟩

/-- A block that was handed out lies in the heap. -/
theorem HeapSafe.inside (safe : HeapSafe layouts heapStart heapEnd s) {i : ι} {p : BitVec 64}
    (answered : s.calls i = .done (some p)) :
    heapStart.toNat ≤ p.toNat ∧ p.toNat + (layouts i).size.toNat ≤ heapEnd.toNat := by
  obtain ⟨low, high⟩ := safe.sound.inside i _ (SharedHeap.granted_done answered)
  rw [← safe.heapStart]
  exact ⟨low, le_trans high safe.next_in.2⟩

/-- Blocks of different calls share no address. -/
theorem HeapSafe.apart (safe : HeapSafe layouts heapStart heapEnd s) {i j : ι} {p q : BitVec 64} (different : i ≠ j)
    (first : s.calls i = .done (some p)) (second : s.calls j = .done (some q)) :
    (⟨p.toNat, (layouts i).size.toNat⟩ : Block).Apart ⟨q.toNat, (layouts j).size.toNat⟩ :=
  safe.sound.apart i j _ _ different (SharedHeap.granted_done first) (SharedHeap.granted_done second)

theorem heapSafe_start (ordered : heapStart.toNat ≤ heapEnd.toNat) :
    HeapSafe layouts heapStart heapEnd (.start (BumpAllocator.new.init heapStart heapEnd)) :=
  ⟨rfl, rfl, Arena.sound_empty ordered, nofun⟩

variable [DecidableEq ι]

theorem SharedHeap.after_advance (s : SharedHeap ι) (i : ι) :
    s.after layouts (.advance i) =
      ⟨((s.calls i).advance (layouts i) s.heap).2,
        Function.update s.calls i ((s.calls i).advance (layouts i) s.heap).1⟩ := rfl

theorem granted_update (calls : ι → AllocCall) (i : ι) (call : AllocCall) :
    (fun j => (Function.update calls i call j).block (layouts j)) =
      Function.update (fun j => (calls j).block (layouts j)) i (call.block (layouts i)) := by
  funext j
  by_cases same : j = i
  · subst same
    simp
  · simp [Function.update_of_ne same]

/-- The call `i` has made an access. -/
def SharedHeap.moved (s : SharedHeap ι) (i : ι) (call : AllocCall) (heap : BumpAllocator) : SharedHeap ι :=
  ⟨heap, Function.update s.calls i call⟩

/-- An event takes a step of the arena to a safe state. -/
def SafeStep (layouts : ι → AllocLayout) (heapStart heapEnd : BitVec 64) (s t : SharedHeap ι) : Prop :=
  (s.arena layouts).Step (t.arena layouts) ∧ HeapSafe layouts heapStart heapEnd t

/-- An access without a new answer leaves the arena as it is. -/
theorem HeapSafe.quiet (safe : HeapSafe layouts heapStart heapEnd s) {i : ι} {call : AllocCall}
    (block : call.block (layouts i) = (s.calls i).block (layouts i))
    (old : ∀ p, call = .done (some p) → s.calls i = .done (some p)) :
    SafeStep layouts heapStart heapEnd s (s.moved i call s.heap) := by
  have arena : (s.moved i call s.heap).arena layouts = s.arena layouts := by
    simp only [SharedHeap.arena, SharedHeap.moved, granted_update, block]
    rw [Function.update_eq_self i fun j => (s.calls j).block (layouts j)]
  refine ⟨by rw [arena]; exact .stay, safe.heapStart, safe.heapEnd, by rw [arena]; exact safe.sound, ?_⟩
  intro j p answered
  by_cases here : j = i
  · subst here
    simp only [SharedHeap.moved, Function.update_self] at answered
    exact safe.aligned j p (old p answered)
  · simp only [SharedHeap.moved, Function.update_of_ne here] at answered
    exact safe.aligned j p answered

/-- A successful exchange grants a block. -/
theorem HeapSafe.granted (safe : HeapSafe layouts heapStart heapEnd s) {i : ι} {p : BitVec 64} {heap : BumpAllocator}
    (grants : Grants s.heap (layouts i) p heap) :
    SafeStep layouts heapStart heapEnd s (s.moved i (.done (some p)) heap) := by
  have arena : (s.moved i (.done (some p)) heap).arena layouts =
      (s.arena layouts).grant i ⟨p.toNat, (layouts i).size.toNat⟩ := by
    simp only [SharedHeap.arena, SharedHeap.moved, granted_update, grants.heapStart, grants.heapEnd, grants.next]
    rfl
  have step := Arena.Step.grant (a := s.arena layouts) i ⟨p.toNat, (layouts i).size.toNat⟩ grants.fresh grants.fits
  rw [← arena] at step
  refine ⟨step, grants.heapStart.trans safe.heapStart, grants.heapEnd.trans safe.heapEnd, safe.sound.step step, ?_⟩
  intro j q answered
  by_cases here : j = i
  · subst here
    simp only [SharedHeap.moved, Function.update_self, AllocCall.done.injEq, Option.some.injEq] at answered
    rw [← answered]
    exact grants.aligned
  · simp only [SharedHeap.moved, Function.update_of_ne here] at answered
    exact safe.aligned j q answered

/-- **One event.** Every access is a step of the arena and keeps the allocator safe. -/
theorem HeapSafe.event (safe : HeapSafe layouts heapStart heapEnd s) (valid : ∀ i, (layouts i).Valid)
    (bound : heapEnd.toNat < 2 ^ 63) (e : HeapEvent ι) :
    SafeStep layouts heapStart heapEnd s (s.after layouts e) := by
  cases e with
  | dealloc ptr layout => exact ⟨.stay, safe⟩
  | advance i =>
    have access := advance_cases (layouts i) s.heap (s.calls i)
    change SafeStep layouts heapStart heapEnd s
      (s.moved i ((s.calls i).advance (layouts i) s.heap).1 ((s.calls i).advance (layouts i) s.heap).2)
    generalize ((s.calls i).advance (layouts i) s.heap).1 = call at access ⊢
    generalize ((s.calls i).advance (layouts i) s.heap).2 = heap at access ⊢
    generalize before : s.calls i = old at access
    cases access with
    | loads => exact safe.quiet (by rw [before]; rfl) nofun
    | refuses current => exact safe.quiet (by rw [before]; rfl) nofun
    | retries current => exact safe.quiet (by rw [before]; rfl) nofun
    | stays result => exact safe.quiet (by rw [before]) fun p same => before.trans same
    | allocates alloc => exact safe.granted (alloc_grants (safe.ready bound) (valid i) alloc)

/-! ## Runs -/

/-- The allocator after a list of events. -/
def SharedHeap.run (layouts : ι → AllocLayout) (s : SharedHeap ι) (events : List (HeapEvent ι)) : SharedHeap ι :=
  events.foldl (SharedHeap.after layouts) s

theorem SharedHeap.run_append (s : SharedHeap ι) (first second : List (HeapEvent ι)) :
    s.run layouts (first ++ second) = (s.run layouts first).run layouts second := List.foldl_append

theorem HeapSafe.run (safe : HeapSafe layouts heapStart heapEnd s) (valid : ∀ i, (layouts i).Valid)
    (bound : heapEnd.toNat < 2 ^ 63) (events : List (HeapEvent ι)) :
    HeapSafe layouts heapStart heapEnd (s.run layouts events) ∧
      s.heap.next.toNat ≤ (s.run layouts events).heap.next.toNat := by
  induction events generalizing s with
  | nil => exact ⟨safe, le_rfl⟩
  | cons e events ih =>
    obtain ⟨step, next⟩ := safe.event valid bound e
    obtain ⟨last, more⟩ := ih next
    exact ⟨last, le_trans step.mark_le more⟩

/-- An answer stands. -/
theorem done_run {i : ι} {result : Option (BitVec 64)} (answered : s.calls i = .done result)
    (events : List (HeapEvent ι)) : (s.run layouts events).calls i = .done result := by
  induction events generalizing s with
  | nil => exact answered
  | cons e events ih =>
    refine ih (s := s.after layouts e) ?_
    cases e with
    | dealloc ptr layout => exact answered
    | advance j =>
      rw [SharedHeap.after_advance]
      by_cases same : i = j
      · subst same
        simp [answered, AllocCall.advance]
      · simp [Function.update_of_ne same, answered]

/-- An access of a call that ends up with the null pointer has not changed the allocator. -/
theorem refused_unchanged {i : ι} {later : List (HeapEvent ι)}
    (refused : (s.run layouts (.advance i :: later)).calls i = .done none) :
    (s.after layouts (.advance i)).heap = s.heap := by
  have access := advance_cases (layouts i) s.heap (s.calls i)
  apply access.heap_same
  intro p answered
  have stands : (s.after layouts (.advance i)).calls i = .done (some p) := by
    rw [SharedHeap.after_advance]
    simpa using answered
  have ends : (s.run layouts (.advance i :: later)).calls i = .done (some p) := done_run stands later
  rw [refused] at ends
  cases ends

end Shared

/-- **Allocator safety.** Under any interleaving of any calls, a block that is handed out is aligned and
inside the heap, blocks of different calls share no address, `next` stays in the heap and never
decreases, and a call that returns the null pointer has changed nothing. -/
theorem allocator_safe {ι : Type} [DecidableEq ι] {layouts : ι → AllocLayout} (valid : ∀ i, (layouts i).Valid)
    {heapStart heapEnd : BitVec 64} (positive : 0 < heapStart.toNat) (ordered : heapStart.toNat ≤ heapEnd.toNat)
    (bound : heapEnd.toNat < 2 ^ 63) (events : List (HeapEvent ι)) :
    let start : SharedHeap ι := .start (BumpAllocator.new.init heapStart heapEnd)
    let s := start.run layouts events
    (∀ i p, s.calls i = .done (some p) → p ≠ 0 ∧ p.toNat % (layouts i).align.toNat = 0 ∧
      heapStart.toNat ≤ p.toNat ∧ p.toNat + (layouts i).size.toNat ≤ heapEnd.toNat) ∧
    (∀ i j p q, i ≠ j → s.calls i = .done (some p) → s.calls j = .done (some q) →
      (⟨p.toNat, (layouts i).size.toNat⟩ : Block).Apart ⟨q.toNat, (layouts j).size.toNat⟩) ∧
    (heapStart.toNat ≤ s.heap.next.toNat ∧ s.heap.next.toNat ≤ heapEnd.toNat) ∧
    (∀ later, s.heap.next.toNat ≤ (s.run layouts later).heap.next.toNat) ∧
    ∀ i before later, events = before ++ .advance i :: later → s.calls i = .done none →
      (start.run layouts (before ++ [.advance i])).heap = (start.run layouts before).heap := by
  intro start s
  have safe : HeapSafe layouts heapStart heapEnd s := ((heapSafe_start ordered).run valid bound events).1
  refine ⟨?_, ?_, safe.next_in, ?_, ?_⟩
  · intro i p answered
    obtain ⟨above, below⟩ := safe.inside answered
    refine ⟨?_, safe.aligned i p answered, above, below⟩
    rintro rfl
    exact absurd above (Nat.not_le.mpr positive)
  · exact fun i j p q different first second => safe.apart different first second
  · exact fun later => (safe.run valid bound later).2
  · intro i before later split refused
    have ends : s = (start.run layouts before).run layouts (.advance i :: later) := by
      simp only [s, split]
      exact SharedHeap.run_append start before _
    rw [ends] at refused
    rw [SharedHeap.run_append]
    exact refused_unchanged refused

/-- A small request and a stack. -/
def raceLayouts : Bool → AllocLayout
  | false => ⟨3, 1⟩
  | true => ⟨8192, 8192⟩

/-- Both calls load `next` before either exchanges it, and one has to retry. -/
def race : List (HeapEvent Bool) :=
  [.advance true, .advance false, .advance false, .advance true, .advance true, .advance true]

def raced : SharedHeap Bool := (SharedHeap.start (BumpAllocator.new.init 0x8002_0000 0x8102_0000)).run raceLayouts race

theorem raced_small : raced.calls false = .done (some 0x8002_0000) := by decide

theorem raced_stack : raced.calls true = .done (some 0x8002_2000) := by decide

theorem allocator_safe_race :
    (⟨(0x8002_0000 : BitVec 64).toNat, (raceLayouts false).size.toNat⟩ : Block).Apart
      ⟨(0x8002_2000 : BitVec 64).toNat, (raceLayouts true).size.toNat⟩ := by
  have valid : ∀ b, (raceLayouts b).Valid := by
    intro b
    cases b with
    | false => exact ⟨⟨0, rfl⟩, by decide⟩
    | true => exact ⟨⟨13, rfl⟩, by decide⟩
  have positive : 0 < (0x8002_0000 : BitVec 64).toNat := by decide
  have ordered : (0x8002_0000 : BitVec 64).toNat ≤ (0x8102_0000 : BitVec 64).toNat := by decide
  obtain ⟨-, apart, -⟩ := allocator_safe valid positive ordered (by decide) race
  have safe : ∀ i j p q, i ≠ j → raced.calls i = .done (some p) → raced.calls j = .done (some q) →
    (⟨p.toNat, (raceLayouts i).size.toNat⟩ : Block).Apart ⟨q.toNat, (raceLayouts j).size.toNat⟩ := apart
  exact safe false true _ _ Bool.false_ne_true raced_small raced_stack

end Cyptos
