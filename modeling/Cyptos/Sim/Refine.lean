import Cyptos.Sim.Run

/-!
# Refinement

A transition system refines another one along an abstraction function: every step is answered by a
run of the abstract system with the same visible labels. The labels of a run that belong to one
component are a run of that component.
-/

namespace Sim
set_option autoImplicit false

section Refinement

variable {σ ε τ α ν β : Type} {step : σ → ε → σ → Prop} {astep : τ → α → τ → Prop}

/-- The history of what each step shows. -/
def tracing (shown : σ → ε → List α) (trace : List α) (s : σ) (e : ε) : List α := trace ++ shown s e

/-- From states with `inv`, every step is answered through `abs` by abstract steps whose visible labels are
those that the step shows. -/
structure Refines (step : σ → ε → σ → Prop) (astep : τ → α → τ → Prop) (inv : σ → Prop) (abs : σ → τ)
    (shown : σ → ε → List α) (visible : α → Bool) : Prop where
  keeps : ∀ s e s', inv s → step s e s' → inv s'
  answers : ∀ s e s', inv s → step s e s' → ∃ ls, Run astep (abs s) ls (abs s') ∧ ls.filter visible = shown s e

variable {inv : σ → Prop} {abs : σ → τ} {shown : σ → ε → List α} {visible : α → Bool}

/-- **Refinement of runs.** The trace of every run is the visible part of an abstract run. -/
theorem Refines.run (refines : Refines step astep inv abs shown visible) {s t : σ} {es : List ε} {trace : List α}
    (start : inv s) (run : Run (Observed step (tracing shown)) (s, []) es (t, trace)) :
    ∃ ls, Run astep (abs s) ls (abs t) ∧ ls.filter visible = trace := by
  have kept := run.invariant (P := fun a => inv a.1 ∧ ∃ ls, Run astep (abs s) ls (abs a.1) ∧ ls.filter visible = a.2)
    ⟨start, [], .start, rfl⟩ ?_
  · exact kept.2
  · rintro ⟨t, trace⟩ e ⟨u, trace'⟩ ⟨holds, ls, before, seen⟩ ⟨move, rfl⟩
    obtain ⟨more, after, more_seen⟩ := refines.answers t e u holds move
    refine ⟨refines.keeps t e u holds move, ls ++ more, before.append after, ?_⟩
    rw [List.filter_append, seen, more_seen]
    rfl

/-- **Projection.** If each step either moves a component as its own label says or leaves it alone, a run of the
whole is a run of the component. -/
theorem Run.project {own : ν → β → ν → Prop} {s t : σ} {es : List ε} (run : Run step s es t) (view : σ → ν)
    (label : ε → Option β) (moves : ∀ s e t b, step s e t → label e = some b → own (view s) b (view t))
    (keeps : ∀ s e t, step s e t → label e = none → view t = view s) :
    Run own (view s) (es.filterMap label) (view t) := by
  induction run with
  | start => exact .start
  | @next es t u e _ move ih =>
    rw [List.filterMap_append]
    cases labelled : label e with
    | none =>
      rw [keeps t e u move labelled, List.filterMap_cons_none labelled, List.filterMap_nil, List.append_nil]
      exact ih
    | some b =>
      rw [List.filterMap_cons_some labelled, List.filterMap_nil]
      exact ih.next (moves t e u b move labelled)

end Refinement

end Sim
