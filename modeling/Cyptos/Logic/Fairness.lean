import Cyptos.Logic.Selection

/-!
# No starvation

A selection is the first ready task that is not idle, in cyclic order after the current one. So
while a task stays ready, each selection brings the scan closer to it: the number of normal
indices from the current one up to the waiting one shrinks.
-/

namespace Cyptos
set_option autoImplicit false

/-- Iterate the policy over a list of ready sets. -/
def selections {N : Nat} (current : Option (Fin N)) : List (Fin N → Bool) → List (Option (Fin N))
  | [] => []
  | isReady :: later =>
    let next := selectSlot current isReady
    next :: selections next later

/-- How many normal indices the scan passes until it reaches `j`, with `j` itself. -/
def waiting {N : Nat} (j : Fin N) (current : Option (Fin N)) : Nat :=
  if position current < j.val then j.val - position current else N - 1 - position current + j.val

/-! ## One selection -/

section Step

variable {N : Nat} {current : Option (Fin N)} {isReady : Fin N → Bool} {j : Fin N}

theorem position_lt (current : Option (Fin N)) (pos : 0 < N) : position current < N := by
  cases current with
  | none => exact pos
  | some c => exact c.isLt

theorem waiting_pos (normal : j.val ≠ idleTaskIndex) : 0 < waiting j current := by
  have pos : j.val ≠ 0 := normal
  unfold waiting
  split
  · omega
  · omega

theorem waiting_le (j : Fin N) (current : Option (Fin N)) : waiting j current ≤ N - 1 := by
  have bound := j.isLt
  unfold waiting
  split
  · omega
  · omega

/-- Passing fewer indices than it takes to reach `j` leaves fewer still to pass. -/
theorem waiting_of_offsets {p s d o : Nat} {j : Nat} (inside : p < N) (bound : d < N) (before : o ≤ d)
    (target : ((p + 1) % N + d) % N = j) (hit : ((p + 1) % N + o) % N = s) (normal : s ≠ 0) (other : s ≠ j) :
    (if s < j then j - s else N - 1 - s + j) < if p < j then j - p else N - 1 - p + j := by
  have start := mod_cases (x := p + 1) (N := N) (by omega)
  have small : (p + 1) % N < N := Nat.mod_lt _ (by omega)
  have first := mod_cases (x := (p + 1) % N + d) (N := N) (by omega)
  have second := mod_cases (x := (p + 1) % N + o) (N := N) (by omega)
  rw [target] at first
  rw [hit] at second
  rcases start with ⟨below, start⟩ | ⟨above, start⟩
  · rw [start] at first second
    split
    · split
      · omega
      · omega
    · split
      · omega
      · omega
  · rw [start] at first second
    split
    · split
      · omega
      · omega
    · split
      · omega
      · omega

/-- While `j` is ready, a selection picks a normal task: `j` itself, or one closer to it. -/
theorem selectSlot_closer (table : N ≤ 2 ^ 63) (current : Option (Fin N)) (normal : j.val ≠ idleTaskIndex)
    (ready : isReady j = true) :
    ∃ s : Fin N, selectSlot current isReady = some s ∧ s.val ≠ idleTaskIndex ∧
      (s = j ∨ waiting j (some s) < waiting j current) := by
  have pos : 0 < N := j.pos
  have inside : (position current + 1) % N < N := Nat.mod_lt _ pos
  obtain ⟨s, select, notIdle, nearest⟩ := selectSlot_nearest table current normal ready
  refine ⟨s, select, notIdle, ?_⟩
  by_cases same : s = j
  · exact .inl same
  · have before := nearest.resolve_left same
    have target := index_cyclicDistance inside j.isLt
    have hit := index_cyclicDistance inside s.isLt
    have bound := cyclicDistance_lt inside j.val
    exact .inr (waiting_of_offsets (position_lt current pos) bound before.le target hit notIdle
      fun val => same (Fin.ext val))

end Step

/-! ## A run of selections -/

section Run

variable {N : Nat} {j : Fin N} (table : N ≤ 2 ^ 63)
include table

theorem selections_reach (normal : j.val ≠ idleTaskIndex) {current : Option (Fin N)} {ready : List (Fin N → Bool)}
    (always : ∀ isReady ∈ ready, isReady j = true) (enough : waiting j current ≤ ready.length) :
    some j ∈ selections current ready := by
  induction ready generalizing current with
  | nil => exact absurd enough (Nat.not_le.mpr (waiting_pos normal))
  | cons isReady later ih =>
    obtain ⟨s, select, -, closer⟩ := selectSlot_closer table current normal (always isReady (by simp))
    simp only [selections, select]
    rcases closer with rfl | closer
    · exact List.mem_cons_self
    · refine List.mem_cons_of_mem _ (ih (fun r member => always r (by simp [member])) ?_)
      rw [List.length_cons] at enough
      omega

theorem selections_normal (normal : j.val ≠ idleTaskIndex) {current : Option (Fin N)} {ready : List (Fin N → Bool)}
    (always : ∀ isReady ∈ ready, isReady j = true) {chosen : Option (Fin N)}
    (member : chosen ∈ selections current ready) :
    ∃ i : Fin N, chosen = some i ∧ i.val ≠ idleTaskIndex := by
  induction ready generalizing current with
  | nil => simp [selections] at member
  | cons isReady later ih =>
    obtain ⟨s, select, notIdle, -⟩ := selectSlot_closer table current normal (always isReady (by simp))
    simp only [selections, select] at member
    rcases List.mem_cons.mp member with rfl | member
    · exact ⟨s, rfl, notIdle⟩
    · exact ih (fun r member => always r (by simp [member])) member

/-- Until `j` is selected, every selection is closer to it than all earlier ones. -/
theorem selections_distinct (normal : j.val ≠ idleTaskIndex) {current : Option (Fin N)} {ready : List (Fin N → Bool)}
    (always : ∀ isReady ∈ ready, isReady j = true) {before after : List (Option (Fin N))}
    (split : selections current ready = before ++ some j :: after) (fresh : some j ∉ before) :
    before.Nodup ∧ ∀ s ∈ before, waiting j s < waiting j current := by
  induction before generalizing current ready with
  | nil => exact ⟨List.nodup_nil, nofun⟩
  | cons chosen before ih =>
    cases ready with
    | nil => cases split
    | cons isReady later =>
      obtain ⟨s, select, -, closer⟩ := selectSlot_closer table current normal (always isReady (by simp))
      simp only [selections, select, List.cons_append, List.cons.injEq] at split
      obtain ⟨rfl, rest⟩ := split
      have unseen : some j ∉ before := fun member => fresh (List.mem_cons_of_mem _ member)
      obtain ⟨distinct, below⟩ := ih (fun r member => always r (by simp [member])) rest unseen
      have nearer : waiting j (some s) < waiting j current :=
        closer.resolve_left fun same => fresh (by rw [same]; exact List.mem_cons_self)
      refine ⟨List.nodup_cons.mpr ⟨fun again => Nat.lt_irrefl _ (below _ again), distinct⟩, ?_⟩
      intro t member
      rcases List.mem_cons.mp member with rfl | member
      · exact nearer
      · exact lt_trans (below t member) nearer

end Run

/-- **No starvation.** In a table of at most `2 ^ 63` slots, while a normal task stays ready, `N - 1` selections from
any starting point select it, never select idle, and select no task twice before it. -/
theorem no_starvation {N : Nat} (table : N ≤ 2 ^ 63) {j : Fin N} (normal : j.val ≠ idleTaskIndex)
    (current : Option (Fin N)) {ready : List (Fin N → Bool)} (always : ∀ isReady ∈ ready, isReady j = true)
    (length : ready.length = N - 1) :
    some j ∈ selections current ready ∧
      (∀ chosen ∈ selections current ready, ∃ i : Fin N, chosen = some i ∧ i.val ≠ idleTaskIndex) ∧
      ∀ before after, selections current ready = before ++ some j :: after → some j ∉ before → before.Nodup := by
  refine ⟨?_, ?_, ?_⟩
  · apply selections_reach table normal always
    rw [length]
    exact waiting_le j current
  · exact fun chosen member => selections_normal table normal always member
  · exact fun before after split fresh => (selections_distinct table normal always split fresh).1

/-- Four slots, task 2 always ready, the others coming and going. -/
theorem no_starvation_four :
    some 2 ∈ selections (N := 4) (some 2) [fun i => i = 2 ∨ i = 3, fun i => i = 1 ∨ i = 2, fun _ => true] :=
  (no_starvation (N := 4) (by decide) (j := 2) (by decide) (some 2) (by decide) rfl).1

/-- The last slot but one of the largest table. -/
def lateSlot : Fin (2 ^ 64 - 1) := ⟨2 ^ 64 - 3, by decide⟩

/-- That slot and idle are ready. -/
def lateReady (i : Fin (2 ^ 64 - 1)) : Bool := i.val == 2 ^ 64 - 3 || i.val == 0

theorem lateReady_few (idx : BitVec 64) (ready : slotReady lateReady idx = true) : idx = idleWord ∨ idx = widest - 2 := by
  obtain ⟨i, place, on⟩ := slotReady_iff.mp ready
  rw [lateReady, Bool.or_eq_true, beq_iff_eq, beq_iff_eq] at on
  rcases on with late | idle
  · exact .inr (BitVec.eq_of_toNat_eq (place.trans late))
  · exact .inl (BitVec.eq_of_toNat_eq (place.trans idle))

/-- In the largest table idle is selected although its current slot is ready all the time. -/
theorem starvation_when_wrapping :
    lateSlot.val ≠ idleTaskIndex ∧ (∀ isReady ∈ List.replicate (2 ^ 64 - 2) lateReady, isReady lateSlot = true) ∧
      ∃ i : Fin (2 ^ 64 - 1), i.val = idleTaskIndex ∧
        some i ∈ selections (some lateSlot) (List.replicate (2 ^ 64 - 2) lateReady) := by
  have idle : slotReady lateReady idleWord = true := slotReady_iff.mpr ⟨⟨0, by decide⟩, rfl, rfl⟩
  have select : selectSlot (some lateSlot) lateReady = some ⟨0, by decide⟩ := by
    have missed : scanHit (BitVec.ofNat 64 (2 ^ 64 - 1)) ((some lateSlot).map fun i => BitVec.ofNat 64 i.val)
        (slotReady lateReady) = none := widest_scan_misses lateReady_few
    rw [selectSlot_eq (by decide), nextReady, missed, idle]
    exact slotAt_eq_some.mpr rfl
  refine ⟨by decide, fun isReady member => ?_, ⟨0, by decide⟩, rfl, ?_⟩
  · rw [List.eq_of_mem_replicate member]
    decide
  · rw [show 2 ^ 64 - 2 = (2 ^ 64 - 3) + 1 by norm_num, List.replicate_succ]
    simp only [selections, select]
    exact List.mem_cons_self

end Cyptos
