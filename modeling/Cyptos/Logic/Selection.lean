import Cyptos.Kernel.Policy

/-!
# Round robin

What `select_next_ready` selects: the ready task, other than idle, that comes first in cyclic order after
the current one, and idle when there is none. The closure is asked about slots of the table only; a closure
that records its arguments shows which. In a table of at most `2 ^ 63` slots no sum wraps, so that the scan
comes around to every slot; beyond that it can miss some.
-/

namespace Cyptos
set_option autoImplicit false

/-- The hit of a search over offsets is the first one. -/
theorem findSome_range {α : Type} {f : Nat → Option α} {n : Nat} {b : α} (found : (List.range n).findSome? f = some b) :
    ∃ o < n, f o = some b ∧ ∀ k < o, f k = none := by
  induction n with
  | zero => cases found
  | succ n ih =>
    rw [List.range_succ, List.findSome?_append, Option.or_eq_some_iff] at found
    rcases found with early | ⟨missed, last⟩
    · obtain ⟨o, bound, hit, before⟩ := ih early
      exact ⟨o, Nat.lt_succ_of_lt bound, hit, before⟩
    · have miss := List.findSome?_eq_none_iff.mp missed
      refine ⟨n, Nat.lt_succ_self n, ?_, fun k below => miss k (List.mem_range.mpr below)⟩
      simpa using last

/-- One wrap at most. -/
theorem mod_cases {x N : Nat} (bound : x < 2 * N) : x < N ∧ x % N = x ∨ N ≤ x ∧ x % N = x - N := by
  rcases Nat.lt_or_ge x N with below | above
  · exact .inl ⟨below, Nat.mod_eq_of_lt below⟩
  · refine .inr ⟨above, ?_⟩
    rw [Nat.mod_eq_sub_mod above]
    exact Nat.mod_eq_of_lt (by omega)

/-! ## Cyclic order -/

/-- How far `i` is from `start`, going up and around in a table of `N` slots. -/
def cyclicDistance (N start i : Nat) : Nat := (i + N - start) % N

section Distance

variable {N start : Nat} (inside : start < N)
include inside

theorem index_cyclicDistance {i : Nat} (bound : i < N) : (start + cyclicDistance N start i) % N = i := by
  rw [cyclicDistance]
  rcases mod_cases (x := i + N - start) (N := N) (by omega) with ⟨below, same⟩ | ⟨above, same⟩
  · rw [same, show start + (i + N - start) = i + N by omega, Nat.add_mod_right, Nat.mod_eq_of_lt bound]
  · rw [same, show start + (i + N - start - N) = i by omega, Nat.mod_eq_of_lt bound]

theorem cyclicDistance_index {offset : Nat} (bound : offset < N) :
    cyclicDistance N start ((start + offset) % N) = offset := by
  rw [cyclicDistance]
  rcases mod_cases (x := start + offset) (N := N) (by omega) with ⟨below, same⟩ | ⟨above, same⟩
  · rw [same, show start + offset + N - start = offset + N by omega, Nat.add_mod_right, Nat.mod_eq_of_lt bound]
  · rw [same, show start + offset - N + N - start = offset by omega, Nat.mod_eq_of_lt bound]

theorem cyclicDistance_lt (i : Nat) : cyclicDistance N start i < N := Nat.mod_lt _ (by omega)

/-- Different slots are at different distances. -/
theorem cyclicDistance_ne {i j : Nat} (bound : i < N) (bound' : j < N) (other : i ≠ j) :
    cyclicDistance N start i ≠ cyclicDistance N start j := by
  intro same
  apply other
  rw [← index_cyclicDistance inside bound, same, index_cyclicDistance inside bound']

end Distance

/-- The current slot comes last. -/
theorem current_last {N c j : Nat} (bound : c < N) (below : j < N) (other : j ≠ c) :
    cyclicDistance N ((c + 1) % N) j < cyclicDistance N ((c + 1) % N) c := by
  have inside : (c + 1) % N < N := Nat.mod_lt _ (by omega)
  have around : ((c + 1) % N + (N - 1)) % N = c := by
    rw [Nat.mod_add_mod, show c + 1 + (N - 1) = c + N by omega, Nat.add_mod_right, Nat.mod_eq_of_lt bound]
  have last : cyclicDistance N ((c + 1) % N) (((c + 1) % N + (N - 1)) % N) = N - 1 :=
    cyclicDistance_index inside (by omega)
  rw [around] at last
  have differ := cyclicDistance_ne inside below bound other
  have small := cyclicDistance_lt inside j
  omega

/-! ## The scan -/

/-- The idle task's index as a word. -/
abbrev idleWord : BitVec 64 := BitVec.ofNat 64 idleTaskIndex

/-- What the scan returns at one offset. -/
def scanAt (N start : BitVec 64) (ready : BitVec 64 → Bool) (offset : BitVec 64) : Option (BitVec 64) :=
  if (start + offset) % N ≠ idleWord ∧ ready ((start + offset) % N) then some ((start + offset) % N) else none

/-- The closure reports a fixed set of ready slots, whatever it does to its state. -/
def Reports {σ : Type} (isReady : BitVec 64 → StateM σ Bool) (ready : BitVec 64 → Bool) : Prop :=
  ∀ i s, (isReady i s).1 = ready i

/-- The scan is a search for the first hit. -/
theorem scanReady_fst {σ : Type} {isReady : BitVec 64 → StateM σ Bool} {ready : BitVec 64 → Bool}
    (reports : Reports isReady ready) (N start : BitVec 64) (offsets : List (BitVec 64)) (s : σ) :
    (scanReady N start isReady offsets s).1 = offsets.findSome? (scanAt N start ready) := by
  induction offsets generalizing s with
  | nil => rfl
  | cons offset later ih =>
    rw [List.findSome?_cons, scanAt]
    by_cases idle : (start + offset) % N = idleWord
    · rw [if_neg fun hit => hit.1 idle, scanReady, if_neg (not_not.mpr idle)]
      exact ih s
    · obtain ⟨answer, s', asked⟩ : ∃ answer s', isReady ((start + offset) % N) s = (answer, s') := ⟨_, _, rfl⟩
      have told : answer = ready ((start + offset) % N) := by rw [← reports _ s, asked]
      rw [scanReady, if_pos idle]
      simp only [bind, StateT.bind, asked]
      cases hit : ready ((start + offset) % N) with
      | true =>
        rw [hit] at told
        rw [told, if_pos rfl, if_pos ⟨idle, rfl⟩]
        rfl
      | false =>
        rw [hit] at told
        rw [told, if_neg Bool.false_ne_true, if_neg fun both => Bool.false_ne_true both.2]
        exact ih s'

/-- The closure of a fixed set of ready slots that records what it is asked. -/
def recording (ready : BitVec 64 → Bool) : BitVec 64 → StateM (List (BitVec 64)) Bool := fun i asked =>
  (ready i, asked ++ [i])

theorem recording_reports (ready : BitVec 64 → Bool) : Reports (recording ready) ready := fun _ _ => rfl

/-- The scan asks about the slots at its offsets only. -/
theorem scanReady_asks {N start : BitVec 64} (ready : BitVec 64 → Bool) {P : BitVec 64 → Prop}
    (slot : ∀ offset, P ((start + offset) % N)) (offsets asked : List (BitVec 64)) (before : ∀ i ∈ asked, P i) :
    ∀ i ∈ (scanReady N start (recording ready) offsets asked).2, P i := by
  induction offsets generalizing asked with
  | nil => exact before
  | cons offset later ih =>
    have extended : ∀ i ∈ asked ++ [(start + offset) % N], P i :=
      List.forall_mem_append.mpr ⟨before, List.forall_mem_singleton.mpr (slot offset)⟩
    by_cases idle : (start + offset) % N = idleWord
    · rw [scanReady, if_neg (not_not.mpr idle)]
      exact ih asked before
    · rw [scanReady, if_pos idle]
      simp only [bind, StateT.bind, recording]
      split
      · exact extended
      · exact ih _ extended

/-! ## The selection -/

/-- The search of the scan, by the numbers of its offsets. -/
def scanHit (N : BitVec 64) (current : Option (BitVec 64)) (ready : BitVec 64 → Bool) : Option (BitVec 64) :=
  (List.range N.toNat).findSome? fun o => scanAt N (scanStart N current) ready (BitVec.ofNat 64 o)

/-- What is selected among the slots that are ready. -/
def nextReady (N : BitVec 64) (current : Option (BitVec 64)) (ready : BitVec 64 → Bool) : Option (BitVec 64) :=
  (scanHit N current ready).or (if ready idleWord then some idleWord else none)

section Select

variable {N : BitVec 64} {current : Option (BitVec 64)} {ready : BitVec 64 → Bool}

theorem table_nonempty (pos : 0 < N) : N ≠ 0 := by
  rintro rfl
  exact absurd pos (by decide)

/-- The answer is the scan's or idle's. -/
theorem selectNextReady_fst {σ : Type} {isReady : BitVec 64 → StateM σ Bool} (reports : Reports isReady ready)
    (pos : 0 < N) (s : σ) : (selectNextReady N current isReady s).1 = nextReady N current ready := by
  obtain ⟨scan, s', run⟩ : ∃ scan s', scanReady N (scanStart N current) isReady (offsets N) s = (scan, s') := ⟨_, _, rfl⟩
  have search : scan = scanHit N current ready := by
    have first := scanReady_fst reports N (scanStart N current) (offsets N) s
    rw [run, offsets, List.findSome?_map] at first
    exact first
  rw [selectNextReady, if_neg (table_nonempty pos)]
  simp only [bind, StateT.bind, run]
  rw [nextReady, ← search]
  cases scan with
  | some i => rfl
  | none =>
    have told := reports idleWord s'
    rw [← told]
    rfl

/-- The closure is asked about slots of the table only. -/
theorem selectNextReady_asks (pos : 0 < N) : ∀ i ∈ (selectNextReady N current (recording ready) []).2, i < N := by
  have scanned := scanReady_asks ready (P := fun i => i < N)
    (fun offset => BitVec.umod_lt (scanStart N current + offset) pos) (offsets N) [] nofun
  obtain ⟨scan, asked, run⟩ : ∃ scan asked,
    scanReady N (scanStart N current) (recording ready) (offsets N) [] = (scan, asked) := ⟨_, _, rfl⟩
  rw [run] at scanned
  rw [selectNextReady, if_neg (table_nonempty pos)]
  simp only [bind, StateT.bind, run]
  cases scan with
  | some i => exact scanned
  | none => exact List.forall_mem_append.mpr ⟨scanned, List.forall_mem_singleton.mpr pos⟩

theorem scan_nothing (pos : 0 < N) (unready : ∀ i < N, i ≠ idleWord → ready i = false) : scanHit N current ready = none := by
  apply List.findSome?_eq_none_iff.mpr
  intro o _
  rw [scanAt]
  split
  · rename_i hit
    have off := unready _ (BitVec.umod_lt _ pos) hit.1
    rw [off] at hit
    cases hit.2
  · rfl

/-- What the scan hits is a ready slot other than idle. -/
theorem scanHit_ready (pos : 0 < N) {s : BitVec 64} (hit : scanHit N current ready = some s) :
    s < N ∧ s ≠ idleWord ∧ ready s = true := by
  obtain ⟨o, -, here⟩ := List.exists_of_findSome?_eq_some hit
  rw [scanAt] at here
  split at here
  · rename_i chosen
    obtain rfl := Option.some.inj here
    exact ⟨BitVec.umod_lt _ pos, chosen⟩
  · cases here

/-- Only what is ready is chosen. -/
theorem nextReady_ready (pos : 0 < N) {s : BitVec 64} (here : nextReady N current ready = some s) : ready s = true := by
  rcases Option.or_eq_some_iff.mp here with hit | ⟨-, idle⟩
  · exact (scanHit_ready pos hit).2.2
  · split at idle
    · rename_i on
      rw [← Option.some.inj idle]
      exact on
    · cases idle

/-! ## Tables in which no sum wraps -/

/-- In a table of at most `2 ^ 63` slots the sum of start and offset fits into a word. -/
theorem toNat_scan_index {start : BitVec 64} {o : Nat} (table : N.toNat ≤ 2 ^ 63) (inside : start < N) (bound : o < N.toNat) :
    ((start + BitVec.ofNat 64 o) % N).toNat = (start.toNat + o) % N.toNat := by
  have below : start.toNat < N.toNat := inside
  rw [BitVec.toNat_umod, BitVec.toNat_add, BitVec.toNat_ofNat, Nat.mod_eq_of_lt (a := o) (by omega),
    Nat.mod_eq_of_lt (a := start.toNat + o) (by omega)]

theorem scanStart_lt (pos : 0 < N) (current : Option (BitVec 64)) : scanStart N current < N := by
  cases current with
  | none => exact BitVec.umod_lt _ pos
  | some c => exact BitVec.umod_lt _ pos

theorem toNat_scanStart (table : N.toNat ≤ 2 ^ 63) (inside : ∀ c, current = some c → c < N) :
    (scanStart N current).toNat = current.elim (1 % N.toNat) fun c => (c.toNat + 1) % N.toNat := by
  cases current with
  | none => rfl
  | some c =>
    have below : c.toNat < N.toNat := inside c rfl
    have one : (1 : BitVec 64).toNat = 1 := rfl
    simp only [scanStart, Option.elim_some]
    rw [BitVec.toNat_umod, BitVec.toNat_add, one, Nat.mod_eq_of_lt (a := c.toNat + 1) (by omega)]

/-- The scan finds the nearest ready slot other than idle. -/
theorem scan_nearest (table : N.toNat ≤ 2 ^ 63) (current : Option (BitVec 64)) {i : BitVec 64} (bound : i < N)
    (normal : i ≠ idleWord) (isReady : ready i = true) :
    ∃ s, scanHit N current ready = some s ∧ (s < N ∧ s ≠ idleWord ∧ ready s = true) ∧
      ∀ j < N, j ≠ idleWord → ready j = true → j ≠ s →
        cyclicDistance N.toNat (scanStart N current).toNat s.toNat <
          cyclicDistance N.toNat (scanStart N current).toNat j.toNat := by
  have pos : 0 < N := by bv_omega
  have start := scanStart_lt pos current
  have inside : (scanStart N current).toNat < N.toNat := start
  -- a ready slot is a hit at its distance, so no slot nearer than the first hit is ready
  have hits (j : BitVec 64) (below : j < N) (notIdle : j ≠ idleWord) (on : ready j = true) :
      scanAt N (scanStart N current) ready
        (BitVec.ofNat 64 (cyclicDistance N.toNat (scanStart N current).toNat j.toNat)) = some j := by
    have there : (scanStart N current +
        BitVec.ofNat 64 (cyclicDistance N.toNat (scanStart N current).toNat j.toNat)) % N = j := by
      apply BitVec.eq_of_toNat_eq
      rw [toNat_scan_index table start (cyclicDistance_lt inside _), index_cyclicDistance inside below]
    rw [scanAt, there, if_pos ⟨notIdle, on⟩]
  cases scan : scanHit N current ready with
  | none =>
    have miss := List.findSome?_eq_none_iff.mp scan _ (List.mem_range.mpr (cyclicDistance_lt inside i.toNat))
    rw [hits i bound normal isReady] at miss
    cases miss
  | some s =>
    refine ⟨s, rfl, scanHit_ready pos scan, fun j below notIdle on other => ?_⟩
    obtain ⟨o, range, hit, before⟩ := findSome_range scan
    have place : s.toNat = ((scanStart N current).toNat + o) % N.toNat := by
      rw [← toNat_scan_index table start range]
      rw [scanAt] at hit
      split at hit
      · rw [Option.some.inj hit]
      · cases hit
    have differ : cyclicDistance N.toNat (scanStart N current).toNat j.toNat ≠ o := by
      intro same
      apply other
      apply BitVec.eq_of_toNat_eq
      rw [place, ← same, index_cyclicDistance inside below]
    rw [place, cyclicDistance_index inside range]
    by_contra nearer
    have miss := before _ (lt_of_le_of_ne (Nat.le_of_not_lt nearer) differ)
    rw [hits j below notIdle on] at miss
    cases miss

theorem nextReady_of_ready (table : N.toNat ≤ 2 ^ 63) (current : Option (BitVec 64)) {i : BitVec 64} (bound : i < N)
    (isReady : ready i = true) :
    ∃ s, nextReady N current ready = some s := by
  rw [nextReady]
  by_cases normal : i = idleWord
  · rw [← normal, isReady]
    cases scanHit N current ready with
    | some s => exact ⟨s, rfl⟩
    | none => exact ⟨i, rfl⟩
  · obtain ⟨s, scan, -⟩ := scan_nearest table current bound normal isReady
    exact ⟨s, by rw [scan]; rfl⟩

end Select

/-- **Round robin.** In a table of at most `2 ^ 63` slots: if a task other than idle is ready, the nearest one in
cyclic order after the current task is selected, the current task itself coming last; otherwise idle, if it is
ready. The closure is only asked about slots of the table, and no sum exceeds a word. -/
theorem select_next_ready_round_robin {N : BitVec 64} (pos : 0 < N) (table : N.toNat ≤ 2 ^ 63)
    {current : Option (BitVec 64)} (inside : ∀ c, current = some c → c < N) (ready : BitVec 64 → Bool) :
    let start := current.elim (1 % N.toNat) fun c => (c.toNat + 1) % N.toNat
    let run := selectNextReady N current (recording ready) []
    ((∃ i < N, i ≠ idleWord ∧ ready i = true) →
        ∃ s, run.1 = some s ∧ (s < N ∧ s ≠ idleWord ∧ ready s = true) ∧
          ∀ j < N, j ≠ idleWord → ready j = true → j ≠ s →
            cyclicDistance N.toNat start s.toNat < cyclicDistance N.toNat start j.toNat) ∧
      (∀ c, current = some c → ∀ j < N, j ≠ c →
        cyclicDistance N.toNat start j.toNat < cyclicDistance N.toNat start c.toNat) ∧
      ((∀ i < N, i ≠ idleWord → ready i = false) → run.1 = if ready idleWord then some idleWord else none) ∧
      (∀ i ∈ run.2, i < N) ∧
      (∀ c, current = some c → c.toNat + 1 < 2 ^ 64) ∧ ∀ offset < N.toNat, (scanStart N current).toNat + offset < 2 ^ 64 := by
  intro start run
  have first : run.1 = nextReady N current ready := selectNextReady_fst (recording_reports ready) pos []
  have from_start : (scanStart N current).toNat = start := toNat_scanStart table inside
  refine ⟨?_, ?_, ?_, selectNextReady_asks pos, ?_, ?_⟩
  · rintro ⟨i, bound, normal, isReady⟩
    obtain ⟨s, scan, chosen, nearest⟩ := scan_nearest table current bound normal isReady
    rw [from_start] at nearest
    refine ⟨s, ?_, chosen, nearest⟩
    rw [first, nextReady, scan]
    rfl
  · rintro c rfl j below other
    exact current_last (inside c rfl) below fun same => other (BitVec.eq_of_toNat_eq same)
  · intro unready
    rw [first, nextReady, scan_nothing pos unready]
    rfl
  · intro c here
    have below : c.toNat < N.toNat := inside c here
    omega
  · intro offset bound
    have below : (scanStart N current).toNat < N.toNat := scanStart_lt pos current
    omega

/-- Four slots with task 3 current, tasks 2 and 3 ready: task 2 is selected after asking about 1 and 2. -/
theorem round_robin_four :
    let ready := fun i => i == 2 || i == 3
    selectNextReady 4 (some 3) (recording ready) [] = (some 2, [1, 2]) ∧
      ∀ i ∈ (selectNextReady 4 (some 3) (recording ready) []).2, i < 4 := by
  intro ready
  have inside : ∀ c : BitVec 64, some 3 = some c → c < 4 := by simp
  obtain ⟨-, -, -, slots, -⟩ := select_next_ready_round_robin (by decide) (by decide) inside ready
  exact ⟨rfl, slots⟩

/-! ## Tables in which a sum wraps -/

/-- The number of slots of the largest table there is. -/
def widest : BitVec 64 := BitVec.ofNat 64 (2 ^ 64 - 1)

/-- With the last slot but one current, the scan of the largest table starts at the last slot, goes on with slot 0,
and with slot 0 again because the sum has wrapped. So it ends one slot early, and never comes back to the current
slot. -/
theorem widest_scan_misses {ready : BitVec 64 → Bool} (few : ∀ i, ready i = true → i = idleWord ∨ i = widest - 2) :
    scanHit widest (some (widest - 2)) ready = none := by
  have start : scanStart widest (some (widest - 2)) = BitVec.ofNat 64 (2 ^ 64 - 2) := by decide
  have size : widest.toNat = 2 ^ 64 - 1 := by decide
  have last : (widest - 2).toNat = 2 ^ 64 - 3 := by decide
  apply List.findSome?_eq_none_iff.mpr
  intro o member
  have bound := List.mem_range.mp member
  rw [start, scanAt]
  split
  · rename_i hit
    have index := congrArg BitVec.toNat ((few _ hit.2).resolve_left hit.1)
    rw [BitVec.toNat_umod, BitVec.toNat_add, BitVec.toNat_ofNat, BitVec.toNat_ofNat, size, last] at index
    rw [size] at bound
    omega
  · rfl

/-- Its current slot alone is ready, and nothing is selected. -/
theorem round_robin_wraps :
    let ready := fun i => i == widest - 2
    (widest - 2 < widest ∧ widest - 2 ≠ idleWord ∧ ready (widest - 2) = true) ∧
      (selectNextReady widest (some (widest - 2)) (recording ready) []).1 = none := by
  intro ready
  refine ⟨by decide, ?_⟩
  have few : ∀ i, ready i = true → i = idleWord ∨ i = widest - 2 := fun i on => .inr (eq_of_beq on)
  rw [selectNextReady_fst (recording_reports ready) (by decide), nextReady, widest_scan_misses few]
  decide

/-! ## The scheduler's view -/

/-- The index that the scan starts behind: bootstrap scans as if idle were current. -/
def position {N : Nat} : Option (Fin N) → Nat
  | none => idleTaskIndex
  | some c => c.val

section Slots

variable {N : Nat} {current : Option (Fin N)} {isReady : Fin N → Bool}

theorem slotAt_eq_some {idx : BitVec 64} {i : Fin N} : slotAt N idx = some i ↔ idx.toNat = i.val := by
  rw [slotAt]
  split
  · rw [Option.some.injEq, Fin.ext_iff]
  · rename_i outside
    refine ⟨nofun, fun same => absurd i.isLt ?_⟩
    rw [← same]
    exact outside

theorem slotReady_iff {idx : BitVec 64} : slotReady isReady idx = true ↔ ∃ i : Fin N, idx.toNat = i.val ∧ isReady i = true := by
  rw [slotReady, Option.any_eq_true]
  constructor
  · rintro ⟨i, here, ready⟩
    exact ⟨i, slotAt_eq_some.mp here, ready⟩
  · rintro ⟨i, here, ready⟩
    exact ⟨i, slotAt_eq_some.mpr here, ready⟩

/-- The table's slots as the words that the scan deals with. -/
theorem selectSlot_eq (pos : 0 < BitVec.ofNat 64 N) : selectSlot current isReady =
    (nextReady (BitVec.ofNat 64 N) (current.map fun i => BitVec.ofNat 64 i.val) (slotReady isReady)).bind (slotAt N) := by
  have reports : Reports (fun idx => (pure (slotReady isReady idx) : StateM Unit Bool)) (slotReady isReady) := fun _ _ => rfl
  rw [← selectNextReady_fst reports pos ()]
  rfl

section Table

variable (table : N ≤ 2 ^ 63)
include table

theorem toNat_slot (i : Fin N) : (BitVec.ofNat 64 i.val).toNat = i.val := by
  have bound := i.isLt
  rw [BitVec.toNat_ofNat]
  exact Nat.mod_eq_of_lt (by omega)

theorem toNat_table : (BitVec.ofNat 64 N).toNat = N := by
  rw [BitVec.toNat_ofNat]
  exact Nat.mod_eq_of_lt (by omega)

theorem table_pos (i : Fin N) : 0 < BitVec.ofNat 64 N := by
  have pos := i.pos
  rw [BitVec.lt_def, toNat_table table]
  exact pos

theorem slot_lt (i : Fin N) : BitVec.ofNat 64 i.val < BitVec.ofNat 64 N := by
  rw [BitVec.lt_def, toNat_table table, toNat_slot table i]
  exact i.isLt

theorem slot_normal {i : Fin N} (normal : i.val ≠ idleTaskIndex) : BitVec.ofNat 64 i.val ≠ idleWord := fun same =>
  normal (by rw [← toNat_slot table i, same]; rfl)

theorem slotReady_slot (i : Fin N) : slotReady isReady (BitVec.ofNat 64 i.val) = isReady i := by
  rw [slotReady, slotAt_eq_some.mpr (toNat_slot table i), Option.any_some]

theorem scanStart_position (current : Option (Fin N)) :
    (scanStart (BitVec.ofNat 64 N) (current.map fun i => BitVec.ofNat 64 i.val)).toNat = (position current + 1) % N := by
  have size := toNat_table table
  rw [toNat_scanStart (by rw [size]; exact table) ?_, size]
  · cases current with
    | none => rfl
    | some c =>
      rw [Option.map_some, Option.elim_some, toNat_slot table c]
      rfl
  · intro c here
    obtain ⟨i, -, rfl⟩ := Option.map_eq_some_iff.mp here
    exact slot_lt table i

/-- Only ready tasks are selected. -/
theorem selectSlot_ready {i : Fin N} (selected : selectSlot current isReady = some i) : isReady i = true := by
  rw [selectSlot_eq (table_pos table i), Option.bind_eq_some_iff] at selected
  obtain ⟨s, here, slot⟩ := selected
  have ready := nextReady_ready (table_pos table i) here
  rw [slotReady, slot] at ready
  exact ready

/-- Nothing is selected only when nothing is ready. -/
theorem selectSlot_none (none : selectSlot current isReady = none) (i : Fin N) : isReady i = false := by
  by_contra on
  have ready : slotReady isReady (BitVec.ofNat 64 i.val) = true := by
    rw [slotReady_slot table i]
    exact Bool.eq_true_of_not_eq_false on
  have size := toNat_table table
  obtain ⟨s, here⟩ := nextReady_of_ready (by rw [size]; exact table) (current.map fun i => BitVec.ofNat 64 i.val)
    (slot_lt table i) ready
  have inside := nextReady_ready (table_pos table i) here
  rw [selectSlot_eq (table_pos table i), here, Option.bind_some] at none
  rw [slotReady, none] at inside
  cases inside

/-- While a task other than idle is ready, that task or one that comes before it is selected. -/
theorem selectSlot_nearest (current : Option (Fin N)) {j : Fin N} (normal : j.val ≠ idleTaskIndex) (ready : isReady j = true) :
    let start := (position current + 1) % N
    ∃ s : Fin N, selectSlot current isReady = some s ∧ s.val ≠ idleTaskIndex ∧
      (s = j ∨ cyclicDistance N start s < cyclicDistance N start j) := by
  intro start
  have on : slotReady isReady (BitVec.ofNat 64 j.val) = true := by
    rw [slotReady_slot table j]
    exact ready
  have size := toNat_table table
  obtain ⟨s, scan, ⟨-, notIdle, inside⟩, nearest⟩ := scan_nearest (by rw [size]; exact table)
    (current.map fun i => BitVec.ofNat 64 i.val) (slot_lt table j) (slot_normal table normal) on
  rw [size, scanStart_position table current] at nearest
  obtain ⟨i, place, -⟩ := slotReady_iff.mp inside
  refine ⟨i, ?_, ?_, ?_⟩
  · rw [selectSlot_eq (table_pos table i), nextReady, scan]
    exact slotAt_eq_some.mpr place
  · intro idle
    apply notIdle
    apply BitVec.eq_of_toNat_eq
    rw [place, idle]
    rfl
  · by_cases same : i = j
    · exact .inl same
    · have apart : BitVec.ofNat 64 j.val ≠ s := fun word => same (Fin.ext (by rw [← place, ← word, toNat_slot table j]))
      have closer := nearest _ (slot_lt table j) (slot_normal table normal) on apart
      rw [place, toNat_slot table j] at closer
      exact .inr closer

end Table

end Slots

end Cyptos
