import Mathlib.Tactic

/-!
# Runs of a labelled transition system

Finite runs with their labels, the invariant rule, and history variables: a run can be
observed by a ghost state that its steps update but never depend on.
-/

namespace Sim
set_option autoImplicit false

section Runs

variable {σ ε γ : Type}

/-- A run from `s`, with its labels oldest first. -/
inductive Run (step : σ → ε → σ → Prop) (s : σ) : List ε → σ → Prop
  | start : Run step s [] s
  | next {es : List ε} {t u : σ} {e : ε} : Run step s es t → step t e u → Run step s (es ++ [e]) u

variable {step : σ → ε → σ → Prop} {s t : σ} {es : List ε}

/-- A predicate that holds at the start and is kept by every step holds along every run. -/
theorem Run.invariant {P : σ → Prop} (run : Run step s es t) (start : P s)
    (keep : ∀ t e u, P t → step t e u → P u) : P t := by
  induction run with
  | start => exact start
  | next _ move ih => exact keep _ _ _ ih move

/-- An invariant may use another one that is already known. -/
theorem Run.invariant_with {P Q : σ → Prop} (run : Run step s es t) (known : ∀ es t, Run step s es t → Q t)
    (start : P s) (keep : ∀ t e u, Q t → P t → step t e u → P u) : P t := by
  induction run with
  | start => exact start
  | next before move ih => exact keep _ _ _ (known _ _ before) ih move

/-- A run of a step relation is a run of every wider one. -/
theorem Run.mono {wide : σ → ε → σ → Prop} (run : Run step s es t) (le : ∀ t e u, step t e u → wide t e u) :
    Run wide s es t := by
  induction run with
  | start => exact .start
  | next _ move ih => exact ih.next (le _ _ _ move)

theorem Run.append {u : σ} {fs : List ε} (first : Run step s es t) (second : Run step t fs u) :
    Run step s (es ++ fs) u := by
  induction second with
  | start => simpa using first
  | next _ move ih =>
    rw [← List.append_assoc]
    exact ih.next move

/-- A run stays outside `P`, or has a first step into it. -/
theorem Run.first (P : σ → Prop) (run : Run step s es t) :
    Run (fun a e b => step a e b ∧ ¬ P b) s es t ∨
      ∃ before e after u v, es = before ++ e :: after ∧ Run (fun a e b => step a e b ∧ ¬ P b) s before u ∧
        step u e v ∧ P v ∧ Run step v after t := by
  induction run with
  | start => exact .inl .start
  | @next es t u e _ move ih =>
    rcases ih with outside | ⟨before, e', after, a, b, rfl, outside, enters, inside, rest⟩
    · by_cases inside : P u
      · exact .inr ⟨es, e, [], t, u, rfl, outside, move, inside, .start⟩
      · exact .inl (outside.next ⟨move, inside⟩)
    · exact .inr ⟨before, e', after ++ [e], a, b, List.append_assoc _ _ _, outside, enters, inside, rest.next move⟩

/-- Executing a list of labels with a step function is a run. -/
theorem Run.of_foldlM {κ : Type} {next : σ → ε → Except κ σ} (done : es.foldlM next s = .ok t) :
    Run (fun s e t => next s e = .ok t) s es t := by
  induction es generalizing s with
  | nil =>
    cases done
    exact .start
  | cons e es ih =>
    rw [List.foldlM_cons] at done
    cases move : next s e with
    | error k =>
      rw [move] at done
      cases done
    | ok u =>
      rw [move] at done
      exact Run.append (Run.start.next move) (ih done)

/-- The step relation with a history variable that `observe` updates. -/
def Observed (step : σ → ε → σ → Prop) (observe : γ → σ → ε → γ) (a : σ × γ) (e : ε) (b : σ × γ) : Prop :=
  step a.1 e b.1 ∧ b.2 = observe a.2 a.1 e

/-- Every run has a history. -/
theorem Run.observed (observe : γ → σ → ε → γ) (g : γ) (run : Run step s es t) :
    ∃ g', Run (Observed step observe) (s, g) es (t, g') := by
  induction run with
  | start => exact ⟨g, .start⟩
  | @next es t u e _ move ih =>
    obtain ⟨g', before⟩ := ih
    exact ⟨observe g' t e, before.next ⟨move, rfl⟩⟩

end Runs

end Sim
