import Mathlib.Tactic

/-!
# Periodic deadlines

A clock with one deadline. Time passes, and once the deadline is due it may fire, which sets the next
deadline one period ahead. So it never fires more often than once a period; and if it always fires
within some latency, the deadline moves by at most the period and the latency each time.
-/

namespace Sim
set_option autoImplicit false

/-- The time, the deadline, and the times it has fired at, latest first, down to the time it was started. -/
structure Clock where
  now : Nat
  deadline : Nat
  fired : List Nat

/-- What can happen to a clock. -/
inductive Clock.Step (period : Nat) (c : Clock) : Clock → Prop
  | pass {now : Nat} (later : c.now ≤ now) : Step period c { c with now }
  | fire (due : c.deadline ≤ c.now) : Step period c ⟨c.now, c.now + period, c.now :: c.fired⟩

/-- The deadline is one period after the clock last fired, and it has fired at most once a period. -/
structure Clock.Regular (period : Nat) (c : Clock) : Prop where
  armed : ∃ last earlier, c.fired = last :: earlier ∧ c.deadline = last + period ∧ last ≤ c.now
  spaced : c.fired.IsChain fun later earlier => earlier + period ≤ later

section Clocks

variable {period : Nat} {c c' : Clock}

theorem Clock.regular_start (now period : Nat) : Clock.Regular period ⟨now, now + period, [now]⟩ :=
  ⟨⟨now, [], rfl, rfl, le_rfl⟩, List.isChain_singleton now⟩

theorem Clock.Regular.step (regular : c.Regular period) (step : c.Step period c') : c'.Regular period := by
  obtain ⟨last, earlier, fired, deadline, past⟩ := regular.armed
  cases step with
  | pass later => exact ⟨⟨last, earlier, fired, deadline, le_trans past later⟩, regular.spaced⟩
  | fire due =>
    refine ⟨⟨c.now, c.fired, rfl, rfl, le_rfl⟩, ?_⟩
    have spaced := regular.spaced
    rw [fired] at spaced ⊢
    exact List.isChain_cons_cons.mpr ⟨by omega, spaced⟩

theorem Clock.Regular.deadline_le (regular : c.Regular period) : c.deadline ≤ c.now + period := by
  obtain ⟨last, earlier, fired, deadline, past⟩ := regular.armed
  omega

/-- Times that lie a period apart take a period each. -/
theorem spaced_length {first last : Nat} {earlier : List Nat}
    (spaced : (last :: earlier).IsChain fun later earlier => earlier + period ≤ later)
    (ends : (last :: earlier).getLast? = some first) : first + earlier.length * period ≤ last := by
  induction earlier generalizing last with
  | nil =>
    obtain rfl : last = first := by simpa using ends
    simp
  | cons time earlier ih =>
    obtain ⟨gap, rest⟩ := List.isChain_cons_cons.mp spaced
    rw [List.getLast?_cons_cons] at ends
    have before := ih rest ends
    rw [List.length_cons, Nat.add_mul, Nat.one_mul]
    omega

/-- A clock that was started at `first` fires at most once a period. -/
theorem Clock.Regular.rate (regular : c.Regular period) {first : Nat} (started : c.fired.getLast? = some first) :
    first + (c.fired.length - 1) * period ≤ c.now := by
  obtain ⟨last, earlier, fired, -, past⟩ := regular.armed
  have spaced := regular.spaced
  rw [fired] at started spaced ⊢
  exact le_trans (spaced_length spaced started) past

/-- The clock is not overdue by more than `latency`. -/
def Clock.Prompt (latency : Nat) (c : Clock) : Prop := c.now < c.deadline + latency

/-- Each time a prompt clock fires, its deadline moves by at most the period and the latency. -/
theorem Clock.Step.deadline_le {latency : Nat} (step : c.Step period c') (prompt : c.Prompt latency) :
    c'.deadline + c.fired.length * (period + latency) ≤ c.deadline + c'.fired.length * (period + latency) := by
  cases step with
  | pass later => exact le_rfl
  | fire due =>
    unfold Clock.Prompt at prompt
    simp only [List.length_cons, Nat.add_mul, Nat.one_mul]
    omega

end Clocks

end Sim
