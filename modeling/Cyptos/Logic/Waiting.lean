import Cyptos.Logic.Containment
import Cyptos.Logic.Fairness
import Cyptos.Logic.Ticks

/-!
# Waiting for the processor

A ready task that is not idle comes closer to its turn with every reschedule, whether a timer interrupt
or a kill brings it about. So it waits for as many turns as there are other slots, besides idle's, at most. The
kernel always returns from a timer interrupt; with interrupts that are taken in time this bounds the time a
ready task waits.
-/

namespace Cyptos
set_option autoImplicit false
open Riscv Sim

/-- The task in slot `j` is ready. -/
def SchedulerState.Waits (st : SchedulerState) (j : Fin maxTasks) : Prop :=
  ∃ t, st.tasks j = some t ∧ t.state = .Ready

/-- The trap reschedules: a timer interrupt, or an access fault that kills. -/
def Machine.Reschedules (m : Machine) : Event → Prop
  | .trap cause tval _ => m.response cause tval = .preempt ∨ m.response cause tval = .kill
  | _ => False

instance (m : Machine) : (e : Event) → Decidable (m.Reschedules e)
  | .trap _ _ _ => inferInstanceAs (Decidable (_ ∨ _))
  | .exec _ _ _ => inferInstanceAs (Decidable False)
  | .writeMstatus _ => inferInstanceAs (Decidable False)
  | .device _ _ => inferInstanceAs (Decidable False)

theorem not_reschedules {m : Machine} {cause tval : BitVec 64} {clobber : Reg → BitVec 64}
    (response : m.response cause tval = .resume) : ¬ m.Reschedules (.trap cause tval clobber) := by
  rintro (preempt | kill)
  · rw [response] at preempt
    cases preempt
  · rw [response] at kill
    cases kill

/-! ## One step -/

/-- A switch to another task is a turn closer to `j`, which stays ready. -/
theorem Switched.closer {s r : TrapState} {j : Fin maxTasks} (switched : Switched s r) (inv : SchedInv s.kernel.sched)
    (normal : j.val ≠ idleTaskIndex) (waits : s.kernel.sched.Waits j) (other : s.kernel.sched.current ≠ some j)
    (away : r.kernel.sched.current ≠ some j) :
    r.kernel.sched.Waits j ∧ waiting j r.kernel.sched.current < waiting j s.kernel.sched.current := by
  obtain ⟨t, slot, ready⟩ := waits
  have here := saved_ready inv slot (.inl ready)
  obtain ⟨i, select, -, closer⟩ := selectSlot_closer (by decide) s.kernel.sched.current normal here
  cases switched with
  | idle none =>
    rw [none] at select
    cases select
  | @switch k u uart chosen chosenSlot =>
    rw [chosen] at select
    obtain rfl := Option.some.inj select
    have apart : j ≠ k := fun same => away (by rw [same]; rfl)
    refine ⟨⟨t, ?_, ready⟩, closer.resolve_left (Ne.symm apart)⟩
    have saved := saved_slot slot
    rw [if_neg other] at saved
    refine (dispatch_tasks s.saved k j).trans ?_
    rw [if_neg apart, saved]

section Step

variable {l : Layout} {idle : BitVec 64} {rest : List TaskSpec} {m m' : Machine} {e : Event} {j : Fin maxTasks}

/-- What a running system of tasks with an idle task keeps. -/
structure Going (l : Layout) (idle : BitVec 64) (rest : List TaskSpec) (m : Machine) : Prop where
  sound : Sound l (.machine idle :: rest) m.kernel.sched
  confined : Confined (.machine idle :: rest) m
  alive : Alive m.kernel.sched

theorem Going.step (going : Going l idle rest m) (step : m.Step e m') : Going l idle rest m' :=
  ⟨going.sound.step step, going.confined.step going.sound step, going.alive.step going.sound going.confined step⟩

theorem going_of_run {start : Machine} {es : List Event} (booted : Booted l (.machine idle :: rest) start)
    (run : Runs start es m) : Going l idle rest m :=
  ⟨sound_of_run booted run, confined_of_run booted run, alive_of_run booted run⟩

theorem Alive.not_current {st : SchedulerState} (alive : Alive st) (waits : st.Waits j) : st.current ≠ some j := by
  intro cur
  obtain ⟨t, slot, running⟩ := alive.running j cur
  obtain ⟨t', slot', ready⟩ := waits
  rw [slot] at slot'
  obtain rfl := Option.some.inj slot'
  rw [running] at ready
  cases ready

theorem Rescheduled.closer {cause tval : BitVec 64} {base : SchedulerState} {s r : TrapState}
    (resched : Rescheduled m cause tval base m' s r) (inv : SchedInv base) (normal : j.val ≠ idleTaskIndex)
    (waits : base.Waits j) (other : base.current ≠ some j) (away : m'.kernel.sched.current ≠ some j) :
    m'.kernel.sched.Waits j ∧ waiting j m'.kernel.sched.current < waiting j base.current := by
  rw [resched.kernel] at away ⊢
  have sched := resched.sched
  subst sched
  exact resched.switched.closer inv normal waits other away

/-- **A step that does not dispatch `j`** keeps it ready, and brings it closer to its turn if it reschedules. -/
theorem Going.closer (going : Going l idle rest m) (step : m.Step e m') (normal : j.val ≠ idleTaskIndex)
    (waits : m.kernel.sched.Waits j) (away : m'.kernel.sched.current ≠ some j) :
    m'.kernel.sched.Waits j ∧
      waiting j m'.kernel.sched.current + (if m.Reschedules e then 1 else 0) ≤ waiting j m.kernel.sched.current := by
  have other := going.alive.not_current waits
  have quiet {e : Event} (same : m'.kernel.sched = m.kernel.sched) (none : ¬ m.Reschedules e) :
      m'.kernel.sched.Waits j ∧
        waiting j m'.kernel.sched.current + (if m.Reschedules e then 1 else 0) ≤ waiting j m.kernel.sched.current := by
    rw [if_neg none, same]
    exact ⟨waits, le_rfl⟩
  cases e with
  | exec x pc mem =>
    cases step.2
    exact quiet rfl id
  | writeMstatus v =>
    cases step.2
    exact quiet rfl id
  | device rx mtime =>
    cases step.2
    exact quiet rfl id
  | trap cause tval clobber =>
    cases trap_cases step.2 with
    | stay response sched pmp hart =>
      exact quiet sched (not_reschedules response)
    | preempt response resched =>
      obtain ⟨ready, closer⟩ := resched.closer going.sound.inv normal waits other away
      rw [if_pos (.inl response)]
      exact ⟨ready, closer⟩
    | kill response resched =>
      have kept : m.kernel.sched.killed.Waits j := by
        obtain ⟨t, slot, ready⟩ := waits
        refine ⟨t, ?_, ready⟩
        rw [killed_tasks, if_neg other, slot]
      have current := killed_current m.kernel.sched
      obtain ⟨ready, closer⟩ := resched.closer (killed_inv going.sound.inv) normal kept (by rw [current]; exact other) away
      rw [current] at closer
      rw [if_pos (.inr response)]
      exact ⟨ready, closer⟩

end Step

/-! ## Turns -/

/-- A step after which `j` is not the current task. -/
def AwayStep (j : Fin maxTasks) (m : Machine) (e : Event) (m' : Machine) : Prop :=
  m.Step e m' ∧ m'.kernel.sched.current ≠ some j

/-- The reschedules so far. -/
def countTurns (n : Nat) (m : Machine) (e : Event) : Nat := if m.Reschedules e then n + 1 else n

section Turns

variable {l : Layout} {idle : BitVec 64} {rest : List TaskSpec} {start m m' : Machine} {es later : List Event}
variable {j : Fin maxTasks}

/-- While `j` is away, the turns so far and those still to wait for are no more than at the start. -/
theorem turns_of_run (going : Going l idle rest m) (normal : j.val ≠ idleTaskIndex) (waits : m.kernel.sched.Waits j)
    {n : Nat} (run : Run (Observed (AwayStep j) countTurns) (m, 0) later (m', n)) :
    m'.kernel.sched.Waits j ∧ n + waiting j m'.kernel.sched.current ≤ waiting j m.kernel.sched.current := by
  have kept := run.invariant (P := fun s => Going l idle rest s.1 ∧ s.1.kernel.sched.Waits j ∧
      s.2 + waiting j s.1.kernel.sched.current ≤ waiting j m.kernel.sched.current)
    ⟨going, waits, (Nat.zero_add _).le⟩ ?_
  · exact kept.2
  · rintro ⟨t, n⟩ e ⟨u, n'⟩ ⟨going, waits, bound⟩ ⟨⟨step, away⟩, rfl⟩
    obtain ⟨ready, closer⟩ := going.closer step normal waits away
    refine ⟨going.step step, ready, ?_⟩
    simp only [countTurns] at closer bound ⊢
    split
    · rename_i resched
      rw [if_pos resched] at closer
      omega
    · rename_i none
      rw [if_neg none] at closer
      omega

/-- **Turns.** With the idle task spawned first, a ready task that is not idle is dispatched before the kernel
has rescheduled `MAX_TASKS - 1` times, whether for a timer interrupt or for a kill. -/
theorem waits_bounded_turns (booted : Booted l (.machine idle :: rest) start) (run : Runs start es m)
    (normal : j.val ≠ idleTaskIndex) (waits : m.kernel.sched.Waits j) {n : Nat}
    (away : Run (Observed (AwayStep j) countTurns) (m, 0) later (m', n)) : n ≤ maxTasks - 2 := by
  obtain ⟨-, bound⟩ := turns_of_run (going_of_run booted run) normal waits away
  have most := waiting_le j m.kernel.sched.current
  have some : 0 < waiting j m'.kernel.sched.current := waiting_pos normal
  omega

end Turns

/-- The first timer interrupt of the board is one turn that the violation task waits for. -/
theorem waits_bounded_turns_violation :
    Run (Observed (AwayStep 2) countTurns) (kmainBooted, 0) [timerTick] (echoRunning, 1) ∧ 1 ≤ maxTasks - 2 := by
  have waits : kmainBooted.kernel.sched.Waits 2 := ⟨_, rfl, rfl⟩
  have step : AwayStep 2 kmainBooted timerTick echoRunning :=
    ⟨⟨fun _ => .inr (by decide), Outcome.eq_ok _ rfl⟩, by rw [echo_current]; decide⟩
  have turn : countTurns 0 kmainBooted timerTick = 1 := if_pos (.inl rfl)
  have run : Run (Observed (AwayStep 2) countTurns) (kmainBooted, 0) [timerTick] (echoRunning, 1) :=
    Run.start.next ⟨step, turn.symm⟩
  exact ⟨run, waits_bounded_turns kmain_booted Run.start (by decide) waits run⟩

/-! ## Time -/

/-- The timer interrupt is taken within `latency` of its deadline. -/
def Machine.Prompt (latency : Nat) (m : Machine) : Prop :=
  m.kernel.timer.mtime.toNat < m.kernel.timer.mtimecmp.toNat + latency

/-- A step on a board whose clock runs and whose timer interrupts are prompt. -/
structure PromptStep (latency : Nat) (m : Machine) (e : Event) (m' : Machine) : Prop where
  timed : TimedStep m e m'
  prompt : m'.Prompt latency

/-- One after which `j` is not the current task. -/
structure WaitStep (latency : Nat) (j : Fin maxTasks) (m : Machine) (e : Event) (m' : Machine) : Prop
    extends PromptStep latency m e m' where
  away : m'.kernel.sched.current ≠ some j

theorem response_timer {m : Machine} {cause : BitVec 64} (timer : TimerTrap cause) (tval : BitVec 64) :
    m.response cause tval = .preempt := by
  rw [Machine.response, TrapState.response, trapState_eq, respond_preempt]
  exact timer

section Time

variable {l : Layout} {idle : BitVec 64} {rest : List TaskSpec} {start m m' : Machine} {es later : List Event}
variable {j : Fin maxTasks} {latency : Nat} {times times' : List Nat}

/-- Every timer interrupt is a reschedule. -/
theorem tickTimes_length (times : List Nat) (m : Machine) (e : Event) :
    (tickTimes times m e).length ≤ times.length + if m.Reschedules e then 1 else 0 := by
  cases e with
  | trap cause tval clobber =>
    unfold tickTimes
    simp only
    split
    · rename_i timer
      rw [if_pos (.inl (response_timer timer tval))]
      rfl
    · exact Nat.le_add_right _ _
  | exec x pc mem => exact Nat.le_add_right _ _
  | writeMstatus v => exact Nat.le_add_right _ _
  | device rx mtime => exact Nat.le_add_right _ _

/-- While `j` waits, the interrupts so far and the turns still to come are no more than at the start, and the
deadline has moved by a period and the latency for each interrupt at most. -/
structure Waited (latency : Nat) (j : Fin maxTasks) (m : Machine) (times : List Nat) (m' : Machine) (times' : List Nat) :
    Prop where
  turns : times'.length + waiting j m'.kernel.sched.current ≤ times.length + waiting j m.kernel.sched.current
  deadline : m'.kernel.timer.mtimecmp.toNat + times.length * (tickPeriod + latency) ≤
    m.kernel.timer.mtimecmp.toNat + times'.length * (tickPeriod + latency)

theorem Waited.step {u : Machine} {e : Event} (waited : Waited latency j m times m' times')
    (going : Going l idle rest m') (normal : j.val ≠ idleTaskIndex) (waits : m'.kernel.sched.Waits j)
    (prompt : m'.Prompt latency) (step : WaitStep latency j m' e u)
    (range : m'.kernel.timer.mtime.toNat + tickPeriod < 2 ^ 64) :
    u.kernel.sched.Waits j ∧ Waited latency j m times u (tickTimes times' m' e) := by
  obtain ⟨ready, closer⟩ := going.closer step.timed.1 normal waits step.away
  refine ⟨ready, ?_, ?_⟩
  · have ticks := tickTimes_length times' m' e
    have turns := waited.turns
    omega
  · have moved : (u.clock (tickTimes times' m' e)).deadline + (m'.clock times').fired.length * (tickPeriod + latency) ≤
        (m'.clock times').deadline + (u.clock (tickTimes times' m' e)).fired.length * (tickPeriod + latency) :=
      (step.timed.clock range).deadline_le prompt
    simp only [Machine.clock] at moved
    have before := waited.deadline
    omega

theorem WaitStep.mtime_le {e : Event} (step : WaitStep latency j m e m') :
    m.kernel.timer.mtime.toNat ≤ m'.kernel.timer.mtime.toNat := step.timed.mtime_le

end Time

end Cyptos
