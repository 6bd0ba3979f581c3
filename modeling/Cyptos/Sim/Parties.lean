import Cyptos.Sim.Run

/-!
# Parties over a shared memory

Each party steps with its own state and the memory; steps of different parties interleave in any order.
Parties that leave the memory alone can be removed from a run.
-/

namespace Sim
set_option autoImplicit false

section Parties

variable {ι ν μ : Type} [DecidableEq ι]

/-- The states of the parties and the memory they share. -/
structure Parties (ι ν μ : Type) where
  states : ι → ν
  mem : μ

/-- The state that party `i` steps from. -/
def Parties.view (s : Parties ι ν μ) (i : ι) : ν × μ := (s.states i, s.mem)

/-- One step of party `i`, as `own` has it. -/
def Parties.Step (own : ι → ν × μ → ν × μ → Prop) (s : Parties ι ν μ) (i : ι) (t : Parties ι ν μ) : Prop :=
  ∃ b, own i (s.view i) b ∧ t = ⟨Function.update s.states i b.1, b.2⟩

variable {own : ι → ν × μ → ν × μ → Prop} {s t u : Parties ι ν μ} {i j : ι} {es : List ι}

theorem Parties.Step.view_self (step : Parties.Step own s i t) : own i (s.view i) (t.view i) := by
  obtain ⟨b, move, rfl⟩ := step
  simpa [Parties.view] using move

theorem Parties.Step.other (step : Parties.Step own s i t) (other : j ≠ i) : t.states j = s.states j := by
  obtain ⟨b, -, rfl⟩ := step
  exact Function.update_of_ne other _ _

/-- If a party can always step, every schedule has a run. -/
theorem Run.scheduled (total : ∀ i a, ∃ b, own i a b) (s : Parties ι ν μ) (es : List ι) :
    ∃ t, Run (Parties.Step own) s es t := by
  induction es using List.reverseRecOn with
  | nil => exact ⟨s, .start⟩
  | append_singleton es i ih =>
    obtain ⟨t, before⟩ := ih
    obtain ⟨b, move⟩ := total i (t.view i)
    exact ⟨_, before.next ⟨b, move, rfl⟩⟩

/-- In states with `P`, a step of party `i` keeps `P` and the memory. -/
def Silent (own : ι → ν × μ → ν × μ → Prop) (i : ι) (P : ν → Prop) : Prop :=
  ∀ a b, P a.1 → own i a b → P b.1 ∧ b.2 = a.2

/-- **Removing silent parties.** If all parties but one are silent, they stay so, and the steps of the remaining one are
a run on its own, over the same memory. -/
theorem Run.solo {one : ι} {P : ι → ν → Prop} (silent : ∀ i ≠ one, Silent own i (P i))
    (run : Run (Parties.Step own) s es t) (start : ∀ i ≠ one, P i (s.states i)) :
    (∀ i ≠ one, P i (t.states i)) ∧
      Run (fun a _ b => own one a b) (s.view one) (List.replicate (es.count one) ()) (t.view one) := by
  induction run with
  | start => exact ⟨start, .start⟩
  | @next es t u e before step ih =>
    obtain ⟨quiet, alone⟩ := ih
    have kept (i : ι) (other : i ≠ one) : P i (u.states i) := by
      by_cases moved : i = e
      · subst moved
        exact (silent i other _ _ (quiet i other) step.view_self).1
      · rw [step.other moved]
        exact quiet i other
    refine ⟨kept, ?_⟩
    rw [List.count_append]
    by_cases moved : e = one
    · subst moved
      rw [List.count_singleton_self, List.replicate_add]
      exact alone.next step.view_self
    · have same : u.view one = t.view one := by
        have memory := (silent e moved _ _ (quiet e moved) step.view_self).2
        exact Prod.ext (step.other (Ne.symm moved)) memory
      rw [List.count_singleton, if_neg (by simpa using moved), Nat.add_zero, same]
      exact alone

end Parties

end Sim
