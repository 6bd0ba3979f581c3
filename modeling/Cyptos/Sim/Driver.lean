import Cyptos.Sim.Run

/-!
# Polling drivers

A driver reads, writes and polls the registers of a device that moves on between any two accesses. What
a driver ensures is said by recursion over its accesses; the rules ask for conditions that the device's
own moves do not spoil. Whatever a driver ensures holds in every interleaving with the device.
-/

namespace Sim
set_option autoImplicit false

/-- A device with states `δ` and registers `ρ` of words `β`. -/
structure Device (δ ρ β : Type) where
  read : δ → ρ → β × δ
  write : δ → ρ → β → δ
  Moves : δ → δ → Prop

/-- Code that accesses a device. -/
inductive Driver (ρ β α : Type)
  | done (a : α)
  | read (r : ρ) (next : β → Driver ρ β α)
  | write (r : ρ) (b : β) (next : Driver ρ β α)
  /-- Read a register until it is `ready`. -/
  | poll (r : ρ) (ready : β → Bool) (next : Driver ρ β α)

namespace Driver

variable {δ ρ β α γ : Type}

def bind : Driver ρ β α → (α → Driver ρ β γ) → Driver ρ β γ
  | done a, f => f a
  | read r next, f => read r fun b => (next b).bind f
  | write r b next, f => write r b (next.bind f)
  | poll r ready next, f => poll r ready (next.bind f)

instance : Monad (Driver ρ β) where
  pure := done
  bind := bind

/-- Who makes a step. -/
inductive Actor
  | device | driver

/-- One step of a driver with its device. -/
inductive Step (dev : Device δ ρ β) : Driver ρ β α × δ → Actor → Driver ρ β α × δ → Prop
  | move {p : Driver ρ β α} {d d' : δ} (moves : dev.Moves d d') : Step dev (p, d) .device (p, d')
  | read {r : ρ} {next : β → Driver ρ β α} {d : δ} :
      Step dev (.read r next, d) .driver (next (dev.read d r).1, (dev.read d r).2)
  | write {r : ρ} {b : β} {next : Driver ρ β α} {d : δ} : Step dev (.write r b next, d) .driver (next, dev.write d r b)
  | ready {r : ρ} {ready : β → Bool} {next : Driver ρ β α} {d : δ} (yes : ready (dev.read d r).1 = true) :
      Step dev (.poll r ready next, d) .driver (next, (dev.read d r).2)
  | again {r : ρ} {ready : β → Bool} {next : Driver ρ β α} {d : δ} (no : ready (dev.read d r).1 = false) :
      Step dev (.poll r ready next, d) .driver (.poll r ready next, (dev.read d r).2)

/-! ## What a driver ensures -/

section Ensures

variable {dev : Device δ ρ β} {inv : δ → Prop} {post : α → δ → Prop}

/-- The device moves on, and a poll of `r` that is not ready may come between. -/
def Waits (dev : Device δ ρ β) (r : ρ) (ready : β → Bool) (d d' : δ) : Prop :=
  dev.Moves d d' ∨ ready (dev.read d r).1 = false ∧ d' = (dev.read d r).2

/-- From `d` the driver keeps `inv` at all times and ends with `post` only. -/
def Ensures (dev : Device δ ρ β) (inv : δ → Prop) (post : α → δ → Prop) : Driver ρ β α → δ → Prop
  | done a, d => ∀ d', Relation.ReflTransGen dev.Moves d d' → inv d' ∧ post a d'
  | read r next, d => ∀ d', Relation.ReflTransGen dev.Moves d d' →
      inv d' ∧ Ensures dev inv post (next (dev.read d' r).1) (dev.read d' r).2
  | write r b next, d => ∀ d', Relation.ReflTransGen dev.Moves d d' →
      inv d' ∧ Ensures dev inv post next (dev.write d' r b)
  | poll r ready next, d => ∀ d', Relation.ReflTransGen (Waits dev r ready) d d' →
      inv d' ∧ (ready (dev.read d' r).1 = true → Ensures dev inv post next (dev.read d' r).2)

theorem Ensures.inv_now {p : Driver ρ β α} {d : δ} (ensures : Ensures dev inv post p d) : inv d := by
  cases p with
  | done a => exact (ensures d .refl).1
  | read r next => exact (ensures d .refl).1
  | write r b next => exact (ensures d .refl).1
  | poll r ready next => exact (ensures d .refl).1

theorem Ensures.step {p q : Driver ρ β α} {d d' : δ} {who : Actor} (ensures : Ensures dev inv post p d)
    (step : Step dev (p, d) who (q, d')) : Ensures dev inv post q d' := by
  cases step with
  | move moves =>
    cases p with
    | done a => exact fun u later => ensures u (.head moves later)
    | read r next => exact fun u later => ensures u (.head moves later)
    | write r b next => exact fun u later => ensures u (.head moves later)
    | poll r ready next => exact fun u later => ensures u (.head (.inl moves) later)
  | read => exact (ensures d .refl).2
  | write => exact (ensures d .refl).2
  | ready yes => exact (ensures d .refl).2 yes
  | again no => exact fun u later => ensures u (.head (.inr ⟨no, rfl⟩) later)

/-- **Soundness.** In every interleaving with the device the invariant holds all the time, and the
postcondition when the driver is done. -/
theorem Ensures.run {p q : Driver ρ β α} {d d' : δ} {steps : List Actor} (ensures : Ensures dev inv post p d)
    (run : Run (Step dev) (p, d) steps (q, d')) : inv d' ∧ ∀ a, q = done a → post a d' := by
  have kept := run.invariant (P := fun s => Ensures dev inv post s.1 s.2) ensures
    fun _ _ _ ensures step => ensures.step step
  refine ⟨kept.inv_now, ?_⟩
  rintro a rfl
  exact (kept d' .refl).2

theorem Ensures.mono {post' : α → δ → Prop} (le : ∀ a d, post a d → post' a d) {p : Driver ρ β α} {d : δ}
    (ensures : Ensures dev inv post p d) : Ensures dev inv post' p d := by
  induction p generalizing d with
  | done a => exact fun d' later => ⟨(ensures d' later).1, le a d' (ensures d' later).2⟩
  | read r next ih => exact fun d' later => ⟨(ensures d' later).1, ih _ (ensures d' later).2⟩
  | write r b next ih => exact fun d' later => ⟨(ensures d' later).1, ih (ensures d' later).2⟩
  | poll r ready next ih => exact fun d' later => ⟨(ensures d' later).1, fun yes => ih ((ensures d' later).2 yes)⟩

/-- Drivers in sequence. -/
theorem Ensures.bind {post' : γ → δ → Prop} {f : α → Driver ρ β γ} {p : Driver ρ β α} {d : δ}
    (ensures : Ensures dev inv (fun a d => Ensures dev inv post' (f a) d) p d) :
    Ensures dev inv post' (p.bind f) d := by
  induction p generalizing d with
  | done a => exact (ensures d .refl).2
  | read r next ih => exact fun d' later => ⟨(ensures d' later).1, ih _ (ensures d' later).2⟩
  | write r b next ih => exact fun d' later => ⟨(ensures d' later).1, ih (ensures d' later).2⟩
  | poll r ready next ih => exact fun d' later => ⟨(ensures d' later).1, fun yes => ih ((ensures d' later).2 yes)⟩

end Ensures

/-! ## Rules -/

section Rules

variable {dev : Device δ ρ β} {inv pre : δ → Prop} {post : α → δ → Prop}

/-- The device's own moves do not spoil `pre`. -/
def Stable (dev : Device δ ρ β) (pre : δ → Prop) : Prop := ∀ d d', pre d → dev.Moves d d' → pre d'

theorem Stable.later {d d' : δ} (stable : Stable dev pre) (now : pre d) (later : Relation.ReflTransGen dev.Moves d d') :
    pre d' := by
  induction later with
  | refl => exact now
  | tail _ moves ih => exact stable _ _ ih moves

/-- `p` started under `pre` ensures `post`. -/
def Triple (dev : Device δ ρ β) (inv pre : δ → Prop) (p : Driver ρ β α) (post : α → δ → Prop) : Prop :=
  ∀ d, pre d → Ensures dev inv post p d

theorem Triple.done {a : α} (stable : Stable dev pre) (safe : ∀ d, pre d → inv d) (ends : ∀ d, pre d → post a d) :
    Triple dev inv pre (.done a) post :=
  fun _ now d' later => ⟨safe d' (stable.later now later), ends d' (stable.later now later)⟩

theorem Triple.read {r : ρ} {next : β → Driver ρ β α} (stable : Stable dev pre) (safe : ∀ d, pre d → inv d)
    (rest : ∀ d, pre d → Ensures dev inv post (next (dev.read d r).1) (dev.read d r).2) :
    Triple dev inv pre (.read r next) post :=
  fun _ now d' later => ⟨safe d' (stable.later now later), rest d' (stable.later now later)⟩

theorem Triple.write {r : ρ} {b : β} {next : Driver ρ β α} {mid : δ → Prop} (stable : Stable dev pre)
    (safe : ∀ d, pre d → inv d) (writes : ∀ d, pre d → mid (dev.write d r b)) (rest : Triple dev inv mid next post) :
    Triple dev inv pre (.write r b next) post :=
  fun _ now d' later => ⟨safe d' (stable.later now later), rest _ (writes d' (stable.later now later))⟩

theorem Triple.poll {r : ρ} {ready : β → Bool} {next : Driver ρ β α} {mid : δ → Prop} (stable : Stable dev pre)
    (safe : ∀ d, pre d → inv d) (again : ∀ d, pre d → ready (dev.read d r).1 = false → pre (dev.read d r).2)
    (finds : ∀ d, pre d → ready (dev.read d r).1 = true → mid (dev.read d r).2) (rest : Triple dev inv mid next post) :
    Triple dev inv pre (.poll r ready next) post := by
  intro d now d' later
  have kept : pre d' := by
    induction later with
    | refl => exact now
    | tail _ waits ih =>
      rcases waits with moves | ⟨no, rfl⟩
      · exact stable _ _ ih moves
      · exact again _ ih no
  exact ⟨safe d' kept, fun yes => rest _ (finds d' kept yes)⟩

theorem Triple.bind {p : Driver ρ β α} {f : α → Driver ρ β γ} {mid : α → δ → Prop} {post' : γ → δ → Prop}
    (first : Triple dev inv pre p mid) (second : ∀ a, Triple dev inv (mid a) (f a) post') :
    Triple dev inv pre (p.bind f) post' :=
  fun d now => Ensures.bind ((first d now).mono fun a d' holds => second a d' holds)

end Rules

/-! ## Runs of a sequence -/

section Sequences

variable {dev : Device δ ρ β} {f : α → Driver ρ β γ} {p p' : Driver ρ β α} {d d' : δ} {steps : List Actor}

theorem Step.bind {who : Actor} (step : Step dev (p, d) who (p', d')) : Step dev (p.bind f, d) who (p'.bind f, d') := by
  cases step with
  | move moves => exact .move moves
  | read => exact .read
  | write => exact .write
  | ready yes => exact .ready yes
  | again no => exact .again no

/-- A step of a sequence whose first driver is not done is one of the first driver. -/
theorem Step.bind_inv {who : Actor} {t : Driver ρ β γ × δ} (step : Step dev (p.bind f, d) who t) (busy : ∀ a, p ≠ done a) :
    ∃ p', t.1 = p'.bind f ∧ Step dev (p, d) who (p', t.2) := by
  cases p with
  | done a => exact absurd rfl (busy a)
  | read r next =>
    cases step with
    | move moves => exact ⟨_, rfl, .move moves⟩
    | read => exact ⟨_, rfl, .read⟩
  | write r b next =>
    cases step with
    | move moves => exact ⟨_, rfl, .move moves⟩
    | write => exact ⟨_, rfl, .write⟩
  | poll r ready next =>
    cases step with
    | move moves => exact ⟨_, rfl, .move moves⟩
    | ready yes => exact ⟨_, rfl, .ready yes⟩
    | again no => exact ⟨_, rfl, .again no⟩

theorem run_bind {t : Driver ρ β α × δ} (run : Run (Step dev) (p, d) steps t) :
    Run (Step dev) (p.bind f, d) steps (t.1.bind f, t.2) := by
  induction run with
  | start => exact .start
  | next _ step ih => exact ih.next step.bind

/-- Up to any point of its run a sequence is in the first driver, or has gone on to the second. -/
theorem bind_progress {t : Driver ρ β γ × δ} (run : Run (Step dev) (p.bind f, d) steps t) :
    (∃ p', t.1 = p'.bind f ∧ Run (Step dev) (p, d) steps (p', t.2)) ∨
      ∃ first second a u, steps = first ++ second ∧ Run (Step dev) (p, d) first (done a, u) ∧
        Run (Step dev) (f a, u) second t := by
  induction run with
  | start => exact .inl ⟨p, rfl, .start⟩
  | @next _ t t' who before step ih =>
    obtain ⟨q, v⟩ := t
    rcases ih with ⟨p', here, inside⟩ | ⟨first, second, a, u, rfl, ended, later⟩
    · obtain rfl : q = p'.bind f := here
      by_cases ended : ∃ a, p' = done a
      · obtain ⟨a, rfl⟩ := ended
        exact .inr ⟨_, [who], a, v, rfl, inside, Run.start.next step⟩
      · obtain ⟨p'', there, move⟩ := step.bind_inv fun a same => ended ⟨a, same⟩
        exact .inl ⟨p'', there, inside.next move⟩
    · exact .inr ⟨first, second ++ [who], a, u, List.append_assoc _ _ _, ended, later.next step⟩

/-- A finished run of a sequence is a finished run of its first driver and then one of the second. -/
theorem bind_split {c : γ} (run : Run (Step dev) (p.bind f, d) steps (done c, d')) :
    ∃ first second a u, steps = first ++ second ∧ Run (Step dev) (p, d) first (done a, u) ∧
      Run (Step dev) (f a, u) second (done c, d') := by
  rcases bind_progress run with ⟨p', here, inside⟩ | split
  · cases p' with
    | done a =>
      refine ⟨steps, [], a, d', (List.append_nil _).symm, inside, ?_⟩
      have here : done c = f a := here
      rw [here]
      exact .start
    | _ => cases here
  · exact split

section Write

variable {r : ρ} {b : β} {next : Driver ρ β α}

/-- A run from a write has only waited, or has made it and gone on. -/
theorem write_progress {t : Driver ρ β α × δ} (run : Run (Step dev) (.write r b next, d) steps t) :
    t.1 = .write r b next ∧ Relation.ReflTransGen dev.Moves d t.2 ∨
      ∃ before after u, steps = before ++ .driver :: after ∧ Relation.ReflTransGen dev.Moves d u ∧
        Run (Step dev) (.write r b next, d) before (.write r b next, u) ∧
        Run (Step dev) (next, dev.write u r b) after t := by
  induction run with
  | start => exact .inl ⟨rfl, .refl⟩
  | @next _ t t' who before step ih =>
    obtain ⟨q, v⟩ := t
    rcases ih with ⟨here, moved⟩ | ⟨first, second, u, rfl, moved, waits, later⟩
    · obtain rfl : q = .write r b next := here
      cases step with
      | move moves => exact .inl ⟨rfl, moved.tail moves⟩
      | write => exact .inr ⟨_, [], v, rfl, moved, before, .start⟩
    · exact .inr ⟨first, second ++ [who], u, List.append_assoc _ _ _, moved, waits, later.next step⟩

theorem write_split {c : α} (run : Run (Step dev) (.write r b next, d) steps (done c, d')) :
    ∃ before after u, steps = before ++ .driver :: after ∧ Relation.ReflTransGen dev.Moves d u ∧
      Run (Step dev) (.write r b next, d) before (.write r b next, u) ∧
      Run (Step dev) (next, dev.write u r b) after (done c, d') := by
  rcases write_progress run with ⟨here, -⟩ | split
  · cases here
  · exact split

end Write

end Sequences

/-! ## Completion -/

section Completion

variable {dev : Device δ ρ β}

/-- Some run completes the driver. -/
def CanFinish (dev : Device δ ρ β) (p : Driver ρ β α) (d : δ) : Prop :=
  ∃ steps a d', Run (Step dev) (p, d) steps (done a, d')

/-- Every poll of the driver is for a register and condition in `S`. -/
def PollsOnly (S : ρ → (β → Bool) → Prop) : Driver ρ β α → Prop
  | done _ => True
  | read _ next => ∀ b, PollsOnly S (next b)
  | write _ _ next => PollsOnly S next
  | poll r ready next => S r ready ∧ PollsOnly S next

theorem PollsOnly.bind {S : ρ → (β → Bool) → Prop} {p : Driver ρ β α} {f : α → Driver ρ β γ} (first : PollsOnly S p)
    (second : ∀ a, PollsOnly S (f a)) : PollsOnly S (p.bind f) := by
  induction p with
  | done a => exact second a
  | read r next ih => exact fun b => ih b (first b)
  | write r b next ih => exact ih first
  | poll r ready next ih => exact ⟨first.1, ih first.2⟩

theorem PollsOnly.step {S : ρ → (β → Bool) → Prop} {p q : Driver ρ β α} {d d' : δ} {who : Actor} (polls : PollsOnly S p)
    (step : Step dev (p, d) who (q, d')) : PollsOnly S q := by
  cases step with
  | move moves => exact polls
  | read => exact polls _
  | write => exact polls
  | ready yes => exact polls.2
  | again no => exact polls

theorem moves_run {p : Driver ρ β α} {d d' : δ} (moves : Relation.ReflTransGen dev.Moves d d') :
    ∃ steps, Run (Step dev) (p, d) steps (p, d') := by
  induction moves with
  | refl => exact ⟨[], .start⟩
  | tail _ move ih =>
    obtain ⟨steps, run⟩ := ih
    exact ⟨_, run.next (.move move)⟩

/-- A driver can be completed if from every state the device can get ready for each of its polls. -/
theorem PollsOnly.canFinish {S : ρ → (β → Bool) → Prop}
    (gets : ∀ r ready, S r ready → ∀ d, ∃ d', Relation.ReflTransGen dev.Moves d d' ∧ ready (dev.read d' r).1 = true)
    {p : Driver ρ β α} (polls : PollsOnly S p) (d : δ) : CanFinish dev p d := by
  induction p generalizing d with
  | done a => exact ⟨[], a, d, .start⟩
  | read r next ih =>
    obtain ⟨steps, a, d', run⟩ := ih _ (polls _) (dev.read d r).2
    exact ⟨_, a, d', Run.append (Run.start.next .read) run⟩
  | write r b next ih =>
    obtain ⟨steps, a, d', run⟩ := ih polls (dev.write d r b)
    exact ⟨_, a, d', Run.append (Run.start.next .write) run⟩
  | poll r ready next ih =>
    obtain ⟨u, moves, yes⟩ := gets r ready polls.1 d
    obtain ⟨waits, before⟩ := moves_run (p := .poll r ready next) moves
    obtain ⟨steps, a, d', run⟩ := ih polls.2 (dev.read u r).2
    exact ⟨_, a, d', Run.append (before.next (.ready yes)) run⟩

end Completion

end Driver

end Sim
