import Mathlib.Tactic

/-!
# Optimistic updates

Calls on a shared object that look at its state, decide what to do about it, and then either answer at once
or exchange the state for a new one, provided that it has not moved in the meantime. Each call takes
effect at one of its own accesses, so any interleaving of calls is a sequence of them; and a call has to
retry only because another one has gone through, which bounds the accesses of all calls together.
-/

namespace Sim
set_option autoImplicit false

/-- What a call makes of the state it has seen: an answer, or an answer with a new state. -/
inductive Intent (σ ρ : Type)
  | answer (r : ρ)
  | commit (r : ρ) (s : σ)

/-- Where a call stands between its accesses. -/
inductive Try (σ ρ : Type)
  | load
  | exchange (seen : σ)
  | done (r : ρ)

/-- An object and the calls on it, each under a name of its own. -/
structure Shared (ι σ ρ : Type) where
  state : σ
  calls : ι → Try σ ρ

/-! ## One call after the other -/

section Sequence

variable {ι σ ρ : Type}

/-- The intent carried out at once. -/
def Intent.apply (s : σ) : Intent σ ρ → ρ × σ
  | .answer r => (r, s)
  | .commit r s' => (r, s')

/-- The calls `order` without interference: their answers and the last state. -/
def inOrder (ops : ι → σ → Intent σ ρ) (s : σ) : List ι → List ρ × σ
  | [] => ([], s)
  | i :: later =>
    let (r, s) := (ops i s).apply s
    let (rs, s) := inOrder ops s later
    (r :: rs, s)

theorem inOrder_append (ops : ι → σ → Intent σ ρ) (s : σ) (first second : List ι) :
    inOrder ops s (first ++ second) =
      ((inOrder ops s first).1 ++ (inOrder ops (inOrder ops s first).2 second).1,
        (inOrder ops (inOrder ops s first).2 second).2) := by
  induction first generalizing s with
  | nil => rfl
  | cons i first ih => simp only [List.cons_append, inOrder, ih]

/-- Whether a call has taken effect, and with what answer. An answer without an exchange takes effect at
the load: that is when the state was what the answer says. -/
def Try.took (op : σ → Intent σ ρ) : Try σ ρ → Option ρ
  | .load => none
  | .exchange seen =>
    match op seen with
    | .answer r => some r
    | .commit _ _ => none
  | .done r => some r

/-- The history `log` explains the object: it ends in its state, and it holds each call that has taken
effect once, with its answer. -/
structure Explains (ops : ι → σ → Intent σ ρ) (start : σ) (log : List (ι × ρ)) (s : Shared ι σ ρ) : Prop where
  replay : inOrder ops start (log.map Prod.fst) = (log.map Prod.snd, s.state)
  once : (log.map Prod.fst).Nodup
  took : ∀ i r, (s.calls i).took (ops i) = some r ↔ (i, r) ∈ log

/-- All calls are still to be made. -/
def Shared.start (state : σ) : Shared ι σ ρ := ⟨state, fun _ => .load⟩

theorem explains_start (ops : ι → σ → Intent σ ρ) (state : σ) : Explains ops state [] (Shared.start state) :=
  ⟨rfl, List.nodup_nil, fun _ _ => ⟨nofun, nofun⟩⟩

end Sequence

/-! ## Interleaved calls -/

section Accesses

variable {ι σ ρ : Type} [DecidableEq ι] [DecidableEq σ]

/-- One access of a call: the load, or the exchange, which retries if the state has moved. -/
def Try.advance (op : σ → Intent σ ρ) (s : σ) : Try σ ρ → Try σ ρ × σ
  | .load => (.exchange s, s)
  | .exchange seen =>
    match op seen with
    | .answer r => (.done r, s)
    | .commit r s' => if s = seen then (.done r, s') else (.load, s)
  | .done r => (.done r, s)

def Shared.advance (ops : ι → σ → Intent σ ρ) (s : Shared ι σ ρ) (i : ι) : Shared ι σ ρ :=
  let (call, state) := (s.calls i).advance (ops i) s.state
  ⟨state, Function.update s.calls i call⟩

def Shared.run (ops : ι → σ → Intent σ ρ) (s : Shared ι σ ρ) (accesses : List ι) : Shared ι σ ρ :=
  accesses.foldl (Shared.advance ops) s

/-- The call that takes effect at an access of `i`, with its answer. -/
def Shared.effect (ops : ι → σ → Intent σ ρ) (s : Shared ι σ ρ) (i : ι) : List (ι × ρ) :=
  match (s.calls i).took (ops i), ((s.calls i).advance (ops i) s.state).1.took (ops i) with
  | none, some r => [(i, r)]
  | _, _ => []

/-- The calls that have taken effect, in order, with their answers. -/
def Shared.history (ops : ι → σ → Intent σ ρ) (s : Shared ι σ ρ) : List ι → List (ι × ρ)
  | [] => []
  | i :: later => s.effect ops i ++ (s.advance ops i).history ops later

theorem Shared.history_append (ops : ι → σ → Intent σ ρ) (s : Shared ι σ ρ) (first second : List ι) :
    s.history ops (first ++ second) = s.history ops first ++ (s.run ops first).history ops second := by
  induction first generalizing s with
  | nil => rfl
  | cons i first ih =>
    simp only [List.cons_append, Shared.history, ih, List.append_assoc]
    rfl

/-- Only a call that makes an access takes effect. -/
theorem Shared.history_own {ops : ι → σ → Intent σ ρ} {s : Shared ι σ ρ} {accesses : List ι} {entry : ι × ρ}
    (member : entry ∈ s.history ops accesses) : entry.1 ∈ accesses := by
  induction accesses generalizing s with
  | nil => cases member
  | cons i later ih =>
    rcases List.mem_append.mp member with here | there
    · unfold Shared.effect at here
      split at here
      · rw [List.mem_singleton.mp here]
        exact List.mem_cons_self
      · cases here
    · exact List.mem_cons_of_mem i (ih there)

/-! ## Linearization -/

variable {ops : ι → σ → Intent σ ρ} {start : σ} {log : List (ι × ρ)} {s : Shared ι σ ρ}

/-- What an access does to its call and to the state, by what has taken effect. -/
inductive Access (op : σ → Intent σ ρ) (s : σ) (call : Try σ ρ) : Try σ ρ → σ → Prop
  | quiet {call' : Try σ ρ} (same : call'.took op = call.took op) : Access op s call call' s
  | effect {call' : Try σ ρ} {r : ρ} {s' : σ} (before : call.took op = none) (after : call'.took op = some r)
      (applied : (op s).apply s = (r, s')) : Access op s call call' s'

omit [DecidableEq ι] in
theorem access_cases (op : σ → Intent σ ρ) (s : σ) (call : Try σ ρ) :
    Access op s call (call.advance op s).1 (call.advance op s).2 := by
  cases call with
  | done r => exact .quiet rfl
  | load =>
    cases intent : op s with
    | answer r => exact .effect (r := r) rfl (by simp only [Try.advance, Try.took, intent]) (by rw [intent]; rfl)
    | commit r s' => exact .quiet (by simp only [Try.advance, Try.took, intent])
  | exchange seen =>
    cases intent : op seen with
    | answer r =>
      simp only [Try.advance, intent]
      exact .quiet (by simp only [Try.took, intent])
    | commit r s' =>
      simp only [Try.advance, intent]
      split
      · rename_i same
        subst same
        exact .effect (by simp only [Try.took, intent]) rfl (by rw [intent]; rfl)
      · exact .quiet (by simp only [Try.took, intent])

/-- **One access.** The history of the accesses so far explains the object. -/
theorem Explains.advance (explains : Explains ops start log s) (i : ι) :
    Explains ops start (log ++ s.effect ops i) (s.advance ops i) := by
  have access := access_cases (ops i) s.state (s.calls i)
  simp only [Shared.effect, Shared.advance]
  generalize ((s.calls i).advance (ops i) s.state).1 = call at access ⊢
  generalize ((s.calls i).advance (ops i) s.state).2 = state at access ⊢
  cases access with
  | quiet same =>
    have none : (match (s.calls i).took (ops i), call.took (ops i) with
        | none, some r => [(i, r)]
        | _, _ => []) = [] := by
      rw [same]
      cases (s.calls i).took (ops i) with
      | none => rfl
      | some r => rfl
    rw [none, List.append_nil]
    refine ⟨explains.replay, explains.once, fun j r => ?_⟩
    rw [← explains.took]
    by_cases here : j = i
    · subst here
      simp only [Function.update_self, same]
    · simp only [Function.update_of_ne here]
  | effect before after applied =>
    rename_i r
    rw [before, after]
    have fresh : ∀ r', (i, r') ∉ log := by
      intro r' member
      rw [(explains.took i r').mpr member] at before
      cases before
    refine ⟨?_, ?_, fun j r' => ?_⟩
    · simp only [List.map_append, List.map_cons, List.map_nil, inOrder_append, explains.replay, inOrder, applied]
    · rw [List.map_append, List.map_singleton]
      refine explains.once.append (List.nodup_singleton i) ?_
      intro j inLog single
      obtain rfl := List.mem_singleton.mp single
      obtain ⟨entry, member, rfl⟩ := List.mem_map.mp inLog
      exact fresh entry.2 member
    · rw [List.mem_append, List.mem_singleton, Prod.mk.injEq, ← explains.took]
      by_cases here : j = i
      · subst here
        simp only [Function.update_self, after, before, Option.some.injEq, reduceCtorEq, true_and, false_or]
        exact eq_comm
      · simp only [Function.update_of_ne here, here, false_and, or_false]

theorem Explains.run (explains : Explains ops start log s) (accesses : List ι) :
    Explains ops start (log ++ s.history ops accesses) (s.run ops accesses) := by
  induction accesses generalizing log s with
  | nil =>
    rw [Shared.history, List.append_nil]
    exact explains
  | cons i later ih =>
    have rest := ih (explains.advance i)
    rw [List.append_assoc] at rest
    exact rest

/-- **Linearization.** The calls that have taken effect, in the order of their effects, are a sequential
execution with the same answers and the same last state. -/
theorem Shared.explained (ops : ι → σ → Intent σ ρ) (state : σ) (accesses : List ι) :
    Explains ops state ((Shared.start state).history ops accesses) ((Shared.start state).run ops accesses) :=
  (explains_start ops state).run accesses

end Accesses

/-! ## Progress -/

section Progress

variable {ι σ ρ : Type} [DecidableEq σ]

/-- `1` for a call that has not been answered. -/
def Try.pending : Try σ ρ → Nat
  | .done _ => 0
  | _ => 1

/-- The accesses that a call still needs if no other call goes through: three if it has to retry. -/
def Try.toGo (op : σ → Intent σ ρ) (s : σ) : Try σ ρ → Nat
  | .load => 2
  | .exchange seen =>
    match op seen with
    | .answer _ => 1
    | .commit _ _ => if s = seen then 1 else 3
  | .done _ => 0

/-- What the accesses of other calls cost a call. -/
theorem Try.toGo_le (op : σ → Intent σ ρ) (s s' : σ) (call : Try σ ρ) :
    call.toGo op s' ≤ call.toGo op s + 2 * call.pending := by
  cases call with
  | load => exact Nat.le_add_right _ _
  | done r => exact le_rfl
  | exchange seen =>
    simp only [Try.toGo, Try.pending]
    split
    · omega
    · split
      · omega
      · split
        · omega
        · omega

/-- An access of a pending call answers it, or leaves it pending and closer to its answer, and the state as
it was. -/
theorem Try.advance_progress (op : σ → Intent σ ρ) (s : σ) {call : Try σ ρ} (pending : call.pending = 1) :
    ((call.advance op s).1.pending = 0 ∧ 0 < call.toGo op s ∧ (call.advance op s).1.toGo op (call.advance op s).2 = 0) ∨
      (call.advance op s).1.pending = 1 ∧ (call.advance op s).2 = s ∧
        (call.advance op s).1.toGo op s + 1 ≤ call.toGo op s := by
  cases call with
  | done r => cases pending
  | load =>
    refine .inr ⟨rfl, rfl, ?_⟩
    simp only [Try.advance, Try.toGo]
    split
    · omega
    · simp
  | exchange seen =>
    cases intent : op seen with
    | answer r =>
      left
      simp [Try.advance, Try.toGo, Try.pending, intent]
    | commit r s' =>
      by_cases same : s = seen
      · left
        simp [Try.advance, Try.toGo, Try.pending, intent, same]
      · right
        simp [Try.advance, Try.toGo, Try.pending, intent, same]

variable [DecidableEq ι]

/-- The accesses of calls that have not been answered yet. -/
def Shared.work (ops : ι → σ → Intent σ ρ) (s : Shared ι σ ρ) : List ι → Nat
  | [] => 0
  | i :: later => (s.calls i).pending + (s.advance ops i).work ops later

variable [Fintype ι] {ops : ι → σ → Intent σ ρ} {s : Shared ι σ ρ}

def Shared.pending (s : Shared ι σ ρ) : Nat := ∑ i, (s.calls i).pending

/-- What is left to do, counting that each pending call may send every other one back once. -/
def Shared.potential (ops : ι → σ → Intent σ ρ) (s : Shared ι σ ρ) : Nat :=
  ∑ i, (s.calls i).toGo (ops i) s.state + s.pending * (s.pending - 1)

/-- **One access.** Each access of a pending call uses up some of the potential. -/
theorem Shared.potential_advance (ops : ι → σ → Intent σ ρ) (s : Shared ι σ ρ) (i : ι) :
    (s.calls i).pending + (s.advance ops i).potential ops ≤ s.potential ops := by
  have others {f : ι → Try σ ρ → Nat} {call : Try σ ρ} :
      ∑ j ∈ Finset.univ.erase i, f j (Function.update s.calls i call j) =
        ∑ j ∈ Finset.univ.erase i, f j (s.calls j) := by
    refine Finset.sum_congr rfl fun j member => ?_
    rw [Function.update_of_ne (Finset.ne_of_mem_erase member)]
  have split (f : ι → Nat) : ∑ j, f j = f i + ∑ j ∈ Finset.univ.erase i, f j :=
    (Finset.add_sum_erase Finset.univ f (Finset.mem_univ i)).symm
  by_cases pending : (s.calls i).pending = 1
  · have step := Try.advance_progress (ops i) s.state pending
    simp only [Shared.potential, Shared.pending, Shared.advance] at step ⊢
    generalize ((s.calls i).advance (ops i) s.state).1 = call at step ⊢
    generalize ((s.calls i).advance (ops i) s.state).2 = state at step ⊢
    rw [split fun j => (Function.update s.calls i call j).toGo (ops j) state,
      split fun j => (Function.update s.calls i call j).pending,
      split fun j => (s.calls j).toGo (ops j) s.state, split fun j => (s.calls j).pending]
    rw [others (f := fun j c => c.toGo (ops j) state), others (f := fun _ c => c.pending)]
    simp only [Function.update_self, pending]
    rcases step with ⟨answered, some, none⟩ | ⟨waits, rfl, closer⟩
    · -- the other calls that wait may have to retry
      have retry : ∑ j ∈ Finset.univ.erase i, (s.calls j).toGo (ops j) state ≤
          ∑ j ∈ Finset.univ.erase i, (s.calls j).toGo (ops j) s.state +
            2 * ∑ j ∈ Finset.univ.erase i, (s.calls j).pending := by
        rw [Finset.mul_sum, ← Finset.sum_add_distrib]
        exact Finset.sum_le_sum fun j _ => Try.toGo_le (ops j) s.state state (s.calls j)
      rw [answered, none]
      generalize ∑ j ∈ Finset.univ.erase i, (s.calls j).pending = waiting at retry ⊢
      rcases waiting with _ | waiting
      · omega
      · simp only [Nat.zero_add, Nat.add_sub_cancel, Nat.add_sub_cancel_left]
        nlinarith
    · rw [waits]
      omega
  · have done : ∃ r, s.calls i = .done r := by
      cases call : s.calls i with
      | done r => exact ⟨r, rfl⟩
      | load => exact absurd (by rw [call]; rfl) pending
      | exchange seen => exact absurd (by rw [call]; rfl) pending
    obtain ⟨r, call⟩ := done
    have same : s.advance ops i = s := by
      simp only [Shared.advance, call, Try.advance]
      rw [← call, Function.update_eq_self]
    rw [same, call]
    simp [Try.pending]

theorem Shared.work_le (ops : ι → σ → Intent σ ρ) (s : Shared ι σ ρ) (accesses : List ι) :
    s.work ops accesses + (s.run ops accesses).potential ops ≤ s.potential ops := by
  induction accesses generalizing s with
  | nil => exact (Nat.zero_add _).le
  | cons i later ih =>
    have rest := ih (s := s.advance ops i)
    have first := Shared.potential_advance ops s i
    simp only [Shared.work, Shared.run, List.foldl_cons] at rest first ⊢
    omega

/-- **Progress.** However they are interleaved, `n` calls make at most `n * (n + 1)` accesses until all of
them are answered. -/
theorem Shared.work_start_le (ops : ι → σ → Intent σ ρ) (state : σ) (accesses : List ι) :
    (Shared.start state).work ops accesses ≤ Fintype.card ι * (Fintype.card ι + 1) := by
  have bound := Shared.work_le ops (Shared.start state) accesses
  have total : (Shared.start state).potential ops = Fintype.card ι * (Fintype.card ι + 1) := by
    simp only [Shared.potential, Shared.pending, Shared.start, Try.toGo, Try.pending, Finset.sum_const,
      Finset.card_univ, smul_eq_mul, mul_one]
    rcases Fintype.card ι with _ | n
    · rfl
    · simp only [Nat.add_sub_cancel]
      ring
  omega

end Progress

end Sim
