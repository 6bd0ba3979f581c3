import Cyptos.Logic.Sharing

/-!
# Equal shares

Between two live tasks other than idle, turns alternate: each turn of the one that comes first in the
cyclic order behind the running task puts it behind the other. So over any stretch of a run their turns
differ by one at most, however many other tasks there are and whichever of them are killed. The idle
task gets no turn while another task lives.
-/

namespace Cyptos
set_option autoImplicit false
open Riscv Sim

/-! ## The cyclic order -/

section Cyclic

variable {N start i k : Nat}

theorem cyclicDistance_eq (inside : start < N) (bound : i < N) :
    cyclicDistance N start i = if start ≤ i then i - start else i + N - start := by
  rw [cyclicDistance]
  split
  · rw [show i + N - start = i - start + N by omega, Nat.add_mod_right, Nat.mod_eq_of_lt (by omega)]
  · exact Nat.mod_eq_of_lt (by omega)

/-- Distances once the scan starts behind `k`: slots beyond `k` come closer, `k` and those before it go to the end. -/
theorem cyclicDistance_behind (inside : start < N) (bound : i < N) (bound' : k < N) :
    cyclicDistance N ((k + 1) % N) i + cyclicDistance N start k + 1 =
      cyclicDistance N start i + if cyclicDistance N start k < cyclicDistance N start i then 0 else N := by
  have next : (k + 1) % N = if k + 1 = N then 0 else k + 1 := by
    split
    · rename_i last
      rw [last, Nat.mod_self]
    · exact Nat.mod_eq_of_lt (by omega)
  have there : (k + 1) % N < N := Nat.mod_lt _ (by omega)
  rw [cyclicDistance_eq there bound, cyclicDistance_eq inside bound, cyclicDistance_eq inside bound', next]
  split_ifs <;> omega

end Cyclic

/-- The turn that `i` has ahead of `j`: the scan behind `running` comes to it first. -/
def lead (running : Option (Fin maxTasks)) (i j : Fin maxTasks) : Nat :=
  if cyclicDistance maxTasks ((position running + 1) % maxTasks) i <
    cyclicDistance maxTasks ((position running + 1) % maxTasks) j then 1 else 0

theorem lead_le (running : Option (Fin maxTasks)) (i j : Fin maxTasks) : lead running i j ≤ 1 := by
  unfold lead
  split <;> decide

/-- **One turn.** A turn of `i` uses up its lead on `j`, a turn of `j` gives it back, and no other turn changes it. -/
theorem Turn.lead {alive : Fin maxTasks → Bool} {running : Option (Fin maxTasks)} {i j k : Fin maxTasks}
    (turn : Turn alive running k) (normal : i.val ≠ idleTaskIndex) (normal' : j.val ≠ idleTaskIndex) (lives : alive i = true)
    (lives' : alive j = true) (other : i ≠ j) :
    (if k = i then 1 else 0) + lead (some k) i j = (if k = j then 1 else 0) + lead running i j := by
  have inside : (position running + 1) % maxTasks < maxTasks := Nat.mod_lt _ (by decide)
  have behind_i := cyclicDistance_behind inside i.isLt k.isLt
  have behind_j := cyclicDistance_behind inside j.isLt k.isLt
  have far_i := cyclicDistance_lt inside i.val
  have far_j := cyclicDistance_lt inside j.val
  have first := (turn.nearest i normal lives).2
  have second := (turn.nearest j normal' lives').2
  unfold Cyptos.lead
  rw [show position (some k) = k.val from rfl]
  by_cases here : k = i
  · subst here
    have closer := second.resolve_left other
    rw [if_neg (lt_irrefl _)] at behind_i
    rw [if_pos closer] at behind_j
    rw [if_pos rfl, if_neg other, if_neg (by omega), if_pos closer]
  · have closer := first.resolve_left here
    rw [if_pos closer] at behind_i
    by_cases there : k = j
    · subst there
      rw [if_neg (lt_irrefl _)] at behind_j
      rw [if_neg here, if_pos rfl, if_pos (by omega), if_neg (by omega)]
    · rw [if_pos (second.resolve_left there)] at behind_j
      rw [if_neg here, if_neg there]
      congr 1
      apply if_congr _ rfl rfl
      omega

/-! ## Turns of the machine -/

/-- The task that an event dispatches, by a timer interrupt or after a kill. -/
def Machine.dispatched (m : Machine) (e : Event) : Option (Fin maxTasks) :=
  if m.Reschedules e then (m.after e).toOption.bind fun m' => m'.kernel.sched.current else none

/-- What an event does to the turns: nothing, or it gives one. -/
inductive Turned (m : Machine) (e : Event) (m' : Machine) : Prop
  | stays (nobody : m.dispatched e = none) (current : m'.kernel.sched.current = m.kernel.sched.current)
      (alive : m'.kernel.sched.alive = m.kernel.sched.alive)
  | turns {j : Fin maxTasks} (given : m.dispatched e = some j) (current : m'.kernel.sched.current = some j)
      (turn : Turn m'.kernel.sched.alive m.kernel.sched.current j)
      (fewer : ∀ i, m'.kernel.sched.alive i = true → m.kernel.sched.alive i = true)

section Turns

variable {l : Layout} {idle : BitVec 64} {rest : List TaskSpec} {m m' : Machine} {e : Event}

theorem Rescheduled.turned {cause tval : BitVec 64} {clobber : Reg → BitVec 64} {base : SchedulerState} {s r : TrapState}
    (resched : Rescheduled m cause tval base m' s r) (after : m.after (.trap cause tval clobber) = .ok m')
    (reschedules : m.Reschedules (.trap cause tval clobber)) (inv : SchedInv base) (settled : base.Settled)
    (live : ∃ t, base.tasks 0 = some t ∧ t.Live) (current : base.current = m.kernel.sched.current)
    (fewer : ∀ i, base.alive i = true → m.kernel.sched.alive i = true) : Turned m (.trap cause tval clobber) m' := by
  have sched := resched.sched
  subst sched
  obtain ⟨j, new, turn⟩ := resched.switched.turn inv settled live
  have alive : m'.kernel.sched.alive = s.kernel.sched.alive := by
    rw [resched.kernel]
    exact funext resched.switched.alive
  rw [← resched.kernel] at new
  refine .turns (j := j) ?_ new ?_ fun i lives => fewer i (alive ▸ lives)
  · rw [Machine.dispatched, if_pos reschedules, after]
    exact new
  · rw [alive, ← current]
    exact turn

/-- Without a reschedule nobody gets a turn. -/
theorem turned_of_same (none : ¬ m.Reschedules e) (sched : m'.kernel.sched = m.kernel.sched) : Turned m e m' :=
  .stays (if_neg none) (congrArg SchedulerState.current sched) (congrArg SchedulerState.alive sched)

theorem Going.turned (going : Going l idle rest m) (settled : m.kernel.sched.Settled) (step : m.Step e m') :
    Turned m e m' := by
  have inv := going.sound.inv
  obtain ⟨-, after⟩ := step
  cases e with
  | exec x pc mem =>
    cases after
    exact turned_of_same id rfl
  | writeMstatus v =>
    cases after
    exact turned_of_same id rfl
  | device rx mtime =>
    cases after
    exact turned_of_same id rfl
  | trap cause tval clobber =>
    cases trap_cases after with
    | stay response sched pmp hart => exact turned_of_same (not_reschedules response) sched
    | preempt response resched =>
      exact resched.turned after (.inl response) inv settled going.alive.idle rfl fun _ lives => lives
    | kill response resched =>
      obtain ⟨i, t, spec, dispatched, -, -, other⟩ := going.alive.user going.sound going.confined (response_kill response)
      refine resched.turned after (.inr response) (killed_inv inv) settled.killed
        (killed_idle dispatched.current other going.alive.idle) (killed_current _) fun k lives => ?_
      rw [killed_alive] at lives
      split at lives
      · cases lives
      · exact lives

end Turns

/-! ## Shares -/

/-- The turns of each task so far. -/
def countDispatches (n : Fin maxTasks → Nat) (m : Machine) (e : Event) (i : Fin maxTasks) : Nat :=
  n i + if m.dispatched e = some i then 1 else 0

section Shares

variable {l : Layout} {idle : BitVec 64} {rest : List TaskSpec} {start m m' : Machine} {es later : List Event}
variable {i j : Fin maxTasks}

theorem Shares.step {e : Event} (shares : Shares l idle rest m) (step : m.Step e m') : Shares l idle rest m' :=
  shares_refines.keeps m e m' shares step

theorem shares_of_run (booted : Booted l (.machine idle :: rest) start) (run : Runs start es m) : Shares l idle rest m :=
  run.invariant booted.shares fun _ _ _ shares step => shares.step step

/-- **Turns in balance.** While two tasks other than idle live, their turns and the lead of the one on the other add up. -/
theorem turns_balanced (shares : Shares l idle rest m) (normal : i.val ≠ idleTaskIndex) (normal' : j.val ≠ idleTaskIndex)
    (other : i ≠ j) {n : Fin maxTasks → Nat} (run : Run (Observed Machine.Step countDispatches) (m, fun _ => 0) later (m', n))
    (lives : m'.kernel.sched.alive i = true) (lives' : m'.kernel.sched.alive j = true) :
    n i + lead m'.kernel.sched.current i j = n j + lead m.kernel.sched.current i j := by
  have kept := run.invariant (P := fun a => Shares l idle rest a.1 ∧
      (a.1.kernel.sched.alive i = true → a.1.kernel.sched.alive j = true →
        a.2 i + lead a.1.kernel.sched.current i j = a.2 j + lead m.kernel.sched.current i j))
    ⟨shares, fun _ _ => rfl⟩ ?_
  · exact kept.2 lives lives'
  · rintro ⟨t, n⟩ e ⟨u, n'⟩ ⟨shares, balanced⟩ ⟨step, rfl⟩
    refine ⟨shares.step step, fun lives lives' => ?_⟩
    simp only [countDispatches] at balanced step lives lives' ⊢
    cases shares.going.turned shares.settled step with
    | stays nobody current alive =>
      rw [alive] at lives lives'
      rw [nobody, current]
      simpa using balanced lives lives'
    | @turns k given current turn fewer =>
      have before := balanced (fewer i lives) (fewer j lives')
      have turned := turn.lead normal normal' lives lives' other
      simp only [given, Option.some.injEq, current] at turned ⊢
      omega

/-- **Equal shares.** With the idle task spawned first, over every stretch of every run the numbers of turns of two tasks
other than idle that both live differ by one at most, whatever other tasks there are, run or get killed. -/
theorem equal_shares (booted : Booted l (.machine idle :: rest) start) (run : Runs start es m)
    (normal : i.val ≠ idleTaskIndex) (normal' : j.val ≠ idleTaskIndex) {n : Fin maxTasks → Nat}
    (stretch : Run (Observed Machine.Step countDispatches) (m, fun _ => 0) later (m', n))
    (lives : m'.kernel.sched.alive i = true) (lives' : m'.kernel.sched.alive j = true) : n i ≤ n j + 1 := by
  by_cases same : i = j
  · rw [same]
    exact Nat.le_succ _
  · have balanced := turns_balanced (shares_of_run booted run) normal normal' same stretch lives lives'
    have first := lead_le m.kernel.sched.current i j
    omega

/-- The idle task runs only when no other task lives. -/
def Fallback (st : SchedulerState) : Prop :=
  ∀ c, st.current = some c → c.val = idleTaskIndex → ∀ k : Fin maxTasks, k.val ≠ idleTaskIndex → st.alive k = false

theorem Fallback.step {e : Event} (fallback : Fallback m.kernel.sched) (shares : Shares l idle rest m)
    (step : m.Step e m') : Fallback m'.kernel.sched := by
  cases shares.going.turned shares.settled step with
  | stays nobody current alive =>
    rw [Fallback, current, alive]
    exact fallback
  | @turns j given current turn fewer =>
    intro c cur isIdle k normal
    rw [current] at cur
    obtain rfl := Option.some.inj cur
    by_contra lives
    exact (turn.nearest k normal (by simpa using lives)).1 isIdle

/-- **Work conservation.** With the idle task spawned first, whenever a task has been dispatched, it is the idle task
exactly if all other tasks are dead. -/
theorem idle_only_fallback (booted : Booted l (.machine idle :: rest) start) (run : Runs start es m) {c : Fin maxTasks}
    (cur : m.kernel.sched.current = some c) :
    c.val = idleTaskIndex ↔
      ∀ (k : Fin maxTasks) t, k.val ≠ idleTaskIndex → m.kernel.sched.tasks k = some t → t.state = .Dead := by
  have fallback : Fallback m.kernel.sched := by
    refine run.invariant_with (P := fun m => Fallback m.kernel.sched) (fun _ _ before => shares_of_run booted before) ?_
      fun _ _ _ shares fallback step => fallback.step shares step
    intro c cur
    rw [booted.state.current] at cur
    cases cur
  constructor
  · intro isIdle k t normal slot
    have dead := fallback c cur isIdle k normal
    rw [SchedulerState.alive, slot] at dead
    simpa [Task.alive] using dead
  · intro dead
    by_contra normal
    obtain ⟨t, slot, running⟩ := (shares_of_run booted run).going.alive.running c cur
    have state := dead c t normal slot
    rw [running] at state
    cases state

end Shares

/-- The echo task has had a turn and the violation task has had one. -/
theorem equal_shares_kmain : ∃ n,
    Run (Observed Machine.Step countDispatches) (kmainBooted, fun _ => 0) [timerTick, timerTick] (violationRunning, n) ∧
      n 1 ≤ n 2 + 1 := by
  have run : Runs kmainBooted [timerTick, timerTick] violationRunning := echo_runs.next violation_tick
  obtain ⟨n, stretch⟩ := run.observed countDispatches fun _ => 0
  exact ⟨n, stretch, equal_shares kmain_booted .start (by decide) (by decide) stretch rfl rfl⟩

/-- While the echo task runs, some task other than idle is not dead. -/
theorem idle_only_fallback_echo : ¬ ∀ (k : Fin maxTasks) t, k.val ≠ idleTaskIndex →
    echoRunning.kernel.sched.tasks k = some t → t.state = .Dead := by
  intro dead
  have isIdle := (idle_only_fallback kmain_booted echo_runs echo_current).mpr dead
  exact absurd isIdle (by decide)

end Cyptos
