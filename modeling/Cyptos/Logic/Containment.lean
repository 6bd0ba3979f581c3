import Cyptos.Logic.Privilege

/-!
# Killed tasks and contained faults

With the idle task in slot 0 the scheduler always finds a task to run: the idle task is never
killed, since only user tasks are, and it is ready whenever it is not running. So a killed task is
never gone back to, and a fault of a user task ends with that task.
-/

namespace Cyptos
set_option autoImplicit false
open Riscv

/-- A task that is ready or running. -/
def Task.Live (t : Task) : Prop := t.state = .Ready ∨ t.state = .Running

/-- The idle task is alive, and the current task is running. -/
structure Alive (st : SchedulerState) : Prop where
  idle : ∃ t, st.tasks 0 = some t ∧ t.Live
  running : ∀ i, st.current = some i → ∃ t, st.tasks i = some t ∧ t.state = .Running

/-! ## Switching with a live idle task -/

section Switching

variable {s r : TrapState}

/-- A live task is ready once the current one has been saved. -/
theorem saved_ready (inv : SchedInv s.kernel.sched) {i : Fin maxTasks} {t : Task}
    (slot : s.kernel.sched.tasks i = some t) (live : t.Live) :
    s.saved.isReady i = true := by
  refine (isReady_iff s.saved i).mpr ⟨_, saved_slot slot, ?_⟩
  split
  · rw [save_eq]
    rcases live with ready | running
    · simp [ready]
    · simp [running]
  · rename_i other
    rcases live with ready | running
    · exact ready
    · exact absurd (inv.running i t slot running) other

/-- Conversely a task that is ready then was ready or running before. -/
theorem live_of_saved {i : Fin maxTasks} {u : Task} (slot : s.saved.tasks i = some u) (ready : u.state = .Ready) :
    ∃ t, s.kernel.sched.tasks i = some t ∧ t.Live := by
  obtain ⟨t, before, rfl⟩ := saved_occupied slot
  refine ⟨t, before, ?_⟩
  split at ready
  · rw [save_eq] at ready
    simp only at ready
    split at ready
    · exact .inr (by assumption)
    · exact .inl ready
  · exact .inl ready

/-- With the idle task alive a switch dispatches a task that was alive. -/
theorem Switched.dispatches (switched : Switched s r) (inv : SchedInv s.kernel.sched)
    (idle : ∃ t, s.kernel.sched.tasks 0 = some t ∧ t.Live) :
    Alive r.kernel.sched ∧ ∃ j t, r.kernel.sched.current = some j ∧ s.kernel.sched.tasks j = some t ∧ t.Live := by
  obtain ⟨t₀, slot₀, live₀⟩ := idle
  have ready₀ := saved_ready inv slot₀ live₀
  cases switched with
  | idle none =>
    rw [selectSlot_none (by decide) none 0] at ready₀
    cases ready₀
  | @switch j t uart chosen slot =>
    have tasks (i : Fin maxTasks) := dispatch_tasks s.saved j i
    refine ⟨⟨?_, ?_⟩, ?_⟩
    · obtain ⟨u, here, ready⟩ := (isReady_iff s.saved 0).mp ready₀
      have after := tasks 0
      rw [here] at after
      split at after
      · exact ⟨_, after, .inr rfl⟩
      · exact ⟨u, after, .inl ready⟩
    · intro i cur
      obtain rfl : j = i := Option.some.inj cur
      have after := tasks j
      rw [if_pos rfl, slot] at after
      exact ⟨_, after, rfl⟩
    · obtain ⟨u, before, live⟩ := live_of_saved slot (chosen_ready chosen slot)
      exact ⟨j, u, rfl, before, live⟩

/-- A running task that a switch leaves is ready. -/
theorem Switched.leaves {i j : Fin maxTasks} {t : Task} (switched : Switched s r)
    (cur : s.kernel.sched.current = some i) (slot : s.kernel.sched.tasks i = some t) (running : t.state = .Running)
    (new : r.kernel.sched.current = some j) (other : j ≠ i) :
    ∃ t', r.kernel.sched.tasks i = some t' ∧ t'.state = .Ready := by
  have saved := saved_slot slot
  rw [if_pos cur, save_eq] at saved
  cases switched with
  | idle none =>
    refine ⟨_, saved, ?_⟩
    simp [running]
  | @switch k u uart chosen chosenSlot =>
    obtain rfl : k = j := Option.some.inj new
    have after := dispatch_tasks s.saved k i
    rw [if_neg (Ne.symm other), saved] at after
    refine ⟨_, after, ?_⟩
    simp [running]

end Switching

/-! ## The handler -/

section Handler

variable {l : Layout} {specs rest : List TaskSpec} {idle : BitVec 64} {m : Machine} {cause tval : BitVec 64}
variable {base : SchedulerState} {s r : TrapState}

theorem Handover.dispatches (handover : Handover m cause tval base s r) (inv : SchedInv base)
    (live : ∃ t, base.tasks 0 = some t ∧ t.Live) :
    Alive r.kernel.sched ∧ ∃ j t, r.kernel.sched.current = some j ∧ base.tasks j = some t ∧ t.Live := by
  have sched := handover.sched
  subst sched
  exact handover.switched.dispatches inv live

theorem Handled.handover_of_kill (handled : Handled m cause tval r) (kill : m.response cause tval = .kill) :
    ∃ s, Handover m cause tval m.kernel.sched.killed s r := by
  cases handled with
  | stay response stays =>
    rw [kill] at response
    cases response
  | preempt response handover =>
    rw [kill] at response
    cases response
  | kill response handover => exact ⟨_, handover⟩

/-- In user mode a user task is running, and it is not the idle task. -/
theorem Alive.user (alive : Alive m.kernel.sched) (sound : Sound l (.machine idle :: rest) m.kernel.sched)
    (confined : Confined (.machine idle :: rest) m) (user : m.hart.mode = .user) :
    ∃ i t spec, Dispatched (.machine idle :: rest) m i t spec ∧ t.state = .Running ∧ spec.privilege = .user ∧ i ≠ 0 := by
  cases cur : m.kernel.sched.current with
  | none =>
    rw [confined.bootstrap cur] at user
    cases user
  | some i =>
    obtain ⟨t, slot, running⟩ := alive.running i cur
    obtain ⟨spec, at_, -⟩ := sound.occupied slot
    have privilege := confined.mode i spec cur at_
    rw [user] at privilege
    refine ⟨i, t, spec, ⟨cur, slot, at_⟩, running, privilege.symm, ?_⟩
    rintro rfl
    obtain rfl := Option.some.inj at_
    cases privilege

theorem killed_idle {st : SchedulerState} {i : Fin maxTasks} (cur : st.current = some i) (other : i ≠ 0)
    (live : ∃ t, st.tasks 0 = some t ∧ t.Live) : ∃ t, st.killed.tasks 0 = some t ∧ t.Live := by
  obtain ⟨t, slot, live⟩ := live
  have kept := killed_slot slot
  have out : st.current ≠ some 0 := by
    rw [cur]
    exact fun same => other (Option.some.inj same)
  rw [if_neg out] at kept
  exact ⟨t, kept, live⟩

/-- A kill leaves its task dead and goes on with another. -/
theorem Handover.kills {i : Fin maxTasks} {t : Task} (handover : Handover m cause tval m.kernel.sched.killed s r)
    (inv : SchedInv m.kernel.sched) (cur : m.kernel.sched.current = some i) (slot : m.kernel.sched.tasks i = some t)
    (live : ∃ t, m.kernel.sched.killed.tasks 0 = some t ∧ t.Live) :
    ∃ j t', r.kernel.sched.current = some j ∧ j ≠ i ∧ r.kernel.sched.tasks i = some t' ∧ t'.state = .Dead := by
  obtain ⟨-, j, u, new, before, alive⟩ := handover.dispatches (killed_inv inv) live
  have dead := killed_slot slot
  rw [if_pos cur] at dead
  have other : j ≠ i := by
    rintro rfl
    rw [dead] at before
    obtain rfl := Option.some.inj before
    rcases alive with h | h <;> cases h
  have inv' : SchedInv s.kernel.sched := by
    rw [handover.sched]
    exact killed_inv inv
  rw [← handover.sched] at dead
  obtain ⟨t', after, evolves⟩ := handover.switched.grows inv' i _ dead
  exact ⟨j, t', new, other, after, evolves.dead rfl⟩

theorem Alive.handled (alive : Alive m.kernel.sched) (sound : Sound l (.machine idle :: rest) m.kernel.sched)
    (confined : Confined (.machine idle :: rest) m) (handled : Handled m cause tval r) : Alive r.kernel.sched := by
  cases handled with
  | stay response stays =>
    rw [stays.sched, trapState_kernel]
    exact alive
  | preempt response handover => exact (handover.dispatches sound.inv alive.idle).1
  | kill response handover =>
    obtain ⟨i, t, spec, dispatched, -, -, other⟩ := alive.user sound confined (response_kill response)
    exact (handover.dispatches (killed_inv sound.inv) (killed_idle dispatched.current other alive.idle)).1

end Handler

/-! ## Runs -/

section Runs

variable {l : Layout} {rest : List TaskSpec} {idle : BitVec 64} {start m m' : Machine} {es : List Event}

/-- A trap returns to the current task, in its saved context or in the one it has just trapped in. -/
theorem Trapped.resumes {cause tval : BitVec 64} {j : Fin maxTasks} {t : Task} (trapped : Trapped m cause tval m')
    (cur : m'.kernel.sched.current = some j) (slot : m'.kernel.sched.tasks j = some t) :
    Resumed m'.hart t.context ∨ m.kernel.sched.current = some j ∧ Resumed m'.hart (m.reply cause tval) := by
  have after {base : SchedulerState} {s r : TrapState} (resched : Rescheduled m cause tval base m' s r)
      (same : SameContexts m.kernel.sched base) :
      Resumed m'.hart t.context ∨ m.kernel.sched.current = some j ∧ Resumed m'.hart (m.reply cause tval) := by
    rcases resched.resumes same with ⟨kept, hart⟩ | ⟨i, u, new, here, -, hart⟩
    · exact .inr ⟨kept ▸ cur, hart⟩
    · rw [new] at cur
      obtain rfl := Option.some.inj cur
      rw [slot] at here
      obtain rfl := Option.some.inj here
      exact .inl hart
  cases trapped with
  | stay response sched pmp hart =>
    rw [sched] at cur
    exact .inr ⟨cur, hart⟩
  | preempt response resched => exact after resched (.refl _)
  | kill response resched => exact after resched (killed_sameContexts _)

theorem Alive.step {e : Event} (alive : Alive m.kernel.sched) (sound : Sound l (.machine idle :: rest) m.kernel.sched)
    (confined : Confined (.machine idle :: rest) m) (step : m.Step e m') : Alive m'.kernel.sched := by
  rcases step_cases step with quiet | ⟨cause, tval, clobber, rfl, -⟩
  · rw [quiet.sched]
    exact alive
  · obtain ⟨r, handled, result⟩ := Outcome.bind_ok.mp step.2
    cases result
    exact alive.handled sound confined (handler_cases handled)

theorem BootState.alive (boot : BootState l (.machine idle :: rest) m) : Alive m.kernel.sched := by
  constructor
  · obtain ⟨t, slot, started⟩ := boot.filled 0 (.machine idle) rfl
    exact ⟨t, slot, .inl started.state⟩
  · intro i cur
    rw [boot.current] at cur
    cases cur

theorem alive_of_run (booted : Booted l (.machine idle :: rest) start) (run : Runs start es m) :
    Alive m.kernel.sched :=
  run.invariant_with (P := fun m => Alive m.kernel.sched)
    (fun _ _ before => And.intro (sound_of_run booted before) (confined_of_run booted before))
    booted.state.alive fun _ _ _ known alive step => alive.step known.1 known.2 step

theorem readMpp_user (user : m.hart.mode = .user) (cause tval : BitVec 64) :
    readMpp (m.trapState cause tval).csr = 0b00 := by
  rw [trapState_eq, readMpp_trapCsrs, user]
  rfl

/-- The trap gets to `kill_current`: an access fault with user mode as the saved privilege. -/
def Machine.ReachesKill (m : Machine) (cause tval : BitVec 64) : Prop :=
  isInterrupt cause = false ∧ (causeCode cause).toNat ∈ [1, 5, 7] ∧ readMpp (m.trapState cause tval).csr = 0b00

theorem reachesKill_iff {cause tval : BitVec 64} : m.ReachesKill cause tval ↔ m.response cause tval = .kill := by
  rw [Machine.response, TrapState.response, respond_kill]
  simp only [trapState_eq]
  rfl

/-- **A killed task never runs again.** With the idle task spawned first, in every reachable state the
idle task is not dead and the current task is running; a kill is reached only while a user task runs, and
goes on with another task; and a trap returns to a task that is then running, in that task's saved context
or in the one it has just trapped in. -/
theorem killed_never_resumed (booted : Booted l (.machine idle :: rest) start) (run : Runs start es m) :
    (∃ t, m.kernel.sched.tasks 0 = some t ∧ t.state ≠ .Dead) ∧
      (∀ cause tval, m.ReachesKill cause tval → ∃ i t spec, Dispatched (.machine idle :: rest) m i t spec ∧
        t.state = .Running ∧ spec.privilege = .user ∧
        ∃ r j t', trapHandler (m.trapState cause tval) = .ok r ∧ r.kernel.sched.current = some j ∧ j ≠ i ∧
          r.kernel.sched.tasks i = some t' ∧ t'.state = .Dead) ∧
      ∀ cause tval clobber m', m.Step (.trap cause tval clobber) m' → ∀ j, m'.kernel.sched.current = some j →
        ∃ t, m'.kernel.sched.tasks j = some t ∧ t.state = .Running ∧
          (Resumed m'.hart t.context ∨ m.kernel.sched.current = some j ∧ Resumed m'.hart (m.reply cause tval)) := by
  have sound := sound_of_run booted run
  have confined := confined_of_run booted run
  have alive := alive_of_run booted run
  refine ⟨?_, ?_, ?_⟩
  · obtain ⟨t, slot, ready | running⟩ := alive.idle
    · exact ⟨t, slot, by rw [ready]; decide⟩
    · exact ⟨t, slot, by rw [running]; decide⟩
  · intro cause tval reached
    have response := reachesKill_iff.mp reached
    obtain ⟨i, t, spec, dispatched, running, user, other⟩ := alive.user sound confined (response_kill response)
    obtain ⟨r, handled⟩ := handler_returns (by rw [response]; decide)
    refine ⟨i, t, spec, dispatched, running, user, r, ?_⟩
    have live := killed_idle dispatched.current other alive.idle
    obtain ⟨s, handover⟩ := (handler_cases handled).handover_of_kill response
    obtain ⟨j, t', new, away, dead⟩ := handover.kills sound.inv dispatched.current dispatched.slot live
    exact ⟨j, t', handled, new, away, dead⟩
  · intro cause tval clobber m' step j cur
    have alive' := alive.step sound confined step
    obtain ⟨t, slot, running⟩ := alive'.running j cur
    refine ⟨t, slot, running, ?_⟩
    exact (trap_cases step.2).resumes cur slot

end Runs

theorem killed_never_resumed_echo : echoRunning.ReachesKill 5 0 ∧ ∃ r j, trapHandler (echoRunning.trapState 5 0) = .ok r ∧
    r.kernel.sched.current = some j ∧ j ≠ 1 := by
  have reached : echoRunning.ReachesKill 5 0 := ⟨by decide, by decide, readMpp_user rfl 5 0⟩
  obtain ⟨-, kill, -⟩ := killed_never_resumed kmain_booted echo_runs
  obtain ⟨i, t, spec, dispatched, -, -, r, j, t', handled, new, other, -⟩ := kill 5 0 reached
  have cur := dispatched.current
  rw [echo_current] at cur
  obtain rfl := Option.some.inj cur
  exact ⟨reached, r, j, handled, new, other⟩

/-! ## Faults of user tasks -/

section Faults

variable {l : Layout} {rest : List TaskSpec} {idle : BitVec 64} {start m : Machine} {es : List Event}

/-- From user mode the handler panics on every exception that is neither an access fault, a breakpoint
nor an environment call. -/
theorem user_panics_iff (user : m.hart.mode = .user) {cause tval : BitVec 64} :
    m.response cause tval = .panic ↔
      isInterrupt cause = false ∧ (causeCode cause).toNat ∉ [1, 3, 5, 7, 8, 9, 11] := by
  have mcause : (m.trapState cause tval).csr.mcause = cause := by
    rw [trapState_eq]
    rfl
  rw [Machine.response, TrapState.response, respond_panic, mcause, readMpp_user user]
  simp only [List.mem_cons, List.not_mem_nil, or_false]
  constructor
  · rintro ⟨exception, other, fault⟩
    refine ⟨exception, fun member => ?_⟩
    by_cases access : (causeCode cause).toNat = 1 ∨ (causeCode cause).toNat = 5 ∨ (causeCode cause).toNat = 7
    · exact fault access rfl
    · omega
  · rintro ⟨exception, other⟩
    exact ⟨exception, by omega, by omega⟩

/-- What becomes of the trapping task `i`: it goes on, it is killed for an access fault, or a timer
interrupt puts it back among the ready tasks. In the last two cases another task goes on. -/
inductive Contained (cause : BitVec 64) (i : Fin maxTasks) (st : SchedulerState) : Prop
  | resumed {t : Task} (current : st.current = some i) (slot : st.tasks i = some t) (running : t.state = .Running)
  | killed {j : Fin maxTasks} {t : Task} (fault : isInterrupt cause = false ∧ (causeCode cause).toNat ∈ [1, 5, 7])
      (current : st.current = some j) (other : j ≠ i) (slot : st.tasks i = some t) (dead : t.state = .Dead)
  | preempted {j : Fin maxTasks} {t : Task} (timer : isInterrupt cause = true ∧ causeCode cause = 7)
      (current : st.current = some j) (other : j ≠ i) (slot : st.tasks i = some t) (ready : t.state = .Ready)

/-- What a handler that returns does to the tasks, from a state with user task `i` running. -/
theorem Alive.contained {cause tval : BitVec 64} {r : TrapState} {i : Fin maxTasks} {t : Task} {spec : TaskSpec}
    (alive : Alive m.kernel.sched) (sound : Sound l (.machine idle :: rest) m.kernel.sched)
    (confined : Confined (.machine idle :: rest) m) (dispatched : Dispatched (.machine idle :: rest) m i t spec)
    (handled : Handled m cause tval r) :
    Contained cause i r.kernel.sched ∧
      ∀ j, j ≠ i → r.kernel.sched.current ≠ some j → r.kernel.sched.tasks j = m.kernel.sched.tasks j := by
  have cur := dispatched.current
  have slot := dispatched.slot
  have running : t.state = .Running := by
    obtain ⟨t', slot', running⟩ := alive.running i cur
    rw [slot] at slot'
    obtain rfl := Option.some.inj slot'
    exact running
  have out {j : Fin maxTasks} (other : j ≠ i) : m.kernel.sched.current ≠ some j := by
    rw [cur]
    exact fun same => other (Option.some.inj same).symm
  have after := alive.handled sound confined handled
  cases handled with
  | stay response stays =>
    have same : r.kernel.sched = m.kernel.sched := by rw [stays.sched, trapState_kernel]
    rw [same]
    exact ⟨.resumed cur slot running, fun _ _ _ => rfl⟩
  | preempt response handover =>
    have sched := handover.sched
    refine ⟨?_, fun j other new => ?_⟩
    · obtain ⟨-, j, u, new, -⟩ := handover.dispatches sound.inv alive.idle
      by_cases same : j = i
      · subst same
        obtain ⟨t', slot', running'⟩ := after.running j new
        exact .resumed new slot' running'
      · rw [← sched] at cur slot
        obtain ⟨t', slot', ready⟩ := handover.switched.leaves cur slot running new same
        exact .preempted (response_preempt response) new same slot' ready
    · have frame := handover.switched.frame
      rw [sched] at frame
      exact frame.others j (out other) new
  | kill response handover =>
    refine ⟨?_, fun j other new => ?_⟩
    · obtain ⟨i', t', spec', dispatched', -, -, notIdle⟩ := alive.user sound confined (response_kill response)
      rw [dispatched'.current] at cur
      obtain rfl := Option.some.inj cur
      have live := killed_idle dispatched.current notIdle alive.idle
      obtain ⟨j, u, new, other, slot', dead⟩ := handover.kills sound.inv dispatched.current slot live
      obtain ⟨exception, fault, -⟩ := reachesKill_iff.mpr response
      exact .killed ⟨exception, fault⟩ new other slot' dead
    · have frame := handover.switched.frame
      rw [handover.sched] at frame
      exact frame.of_killed.others j (out other) new

/-- **Fault containment.** In every reachable state with a user task running, an interrupt, an access fault,
a breakpoint or an environment call is handled without a panic: the task goes on, or is killed for an access
fault, or is put back by a timer interrupt; and every task other than it and the next one is unchanged. -/
theorem fault_containment (booted : Booted l (.machine idle :: rest) start) (run : Runs start es m)
    {i : Fin maxTasks} {t : Task} {spec : TaskSpec} (dispatched : Dispatched (.machine idle :: rest) m i t spec)
    (user : spec.privilege = .user) (cause tval : BitVec 64)
    (kind : isInterrupt cause = true ∨ (causeCode cause).toNat ∈ [1, 3, 5, 7, 8, 9, 11]) :
    ∃ r, trapHandler (m.trapState cause tval) = .ok r ∧ Contained cause i r.kernel.sched ∧
      ∀ j, j ≠ i → r.kernel.sched.current ≠ some j → r.kernel.sched.tasks j = m.kernel.sched.tasks j := by
  have sound := sound_of_run booted run
  have confined := confined_of_run booted run
  have alive := alive_of_run booted run
  have mode : m.hart.mode = .user := (confined.mode i spec dispatched.current dispatched.spec).trans user
  have calm : m.response cause tval ≠ .panic := by
    intro panic
    obtain ⟨exception, other⟩ := (user_panics_iff mode).mp panic
    rcases kind with interrupt | member
    · rw [interrupt] at exception
      cases exception
    · exact other member
  obtain ⟨r, handled⟩ := handler_returns calm
  exact ⟨r, handled, alive.contained sound confined dispatched (handler_cases handled)⟩

end Faults

theorem fault_containment_echo : ∃ r, trapHandler (echoRunning.trapState 8 0) = .ok r ∧ Contained 8 1 r.kernel.sched := by
  obtain ⟨t, dispatched, -⟩ := echo_dispatched
  obtain ⟨r, handled, contained, -⟩ := fault_containment kmain_booted echo_runs dispatched rfl 8 0 (.inr (by decide))
  exact ⟨r, handled, contained⟩

/-- While the echo task runs, a timer interrupt goes on with the violation task and leaves the echo task
ready, and an illegal instruction panics. -/
theorem echo_preempted_and_panics : Booted qemuVirt kmainTasks kmainBooted ∧ Runs kmainBooted [timerTick] echoRunning ∧
    echoRunning.kernel.sched.current = some 1 ∧ echoRunning.hart.mode = .user ∧
    (∃ r t, trapHandler (echoRunning.trapState 0x8000_0000_0000_0007 0) = .ok r ∧
      r.kernel.sched.current = some 2 ∧ r.kernel.sched.tasks 1 = some t ∧ t.state = .Ready) ∧
    trapHandler (echoRunning.trapState 2 0) = .error "Illegal instruction" := by
  refine ⟨kmain_booted, echo_runs, echo_current, rfl, ?_, ?_⟩
  · rw [trapState_eq]
    exact ⟨_, _, rfl, rfl, rfl, rfl⟩
  · rw [trapState_eq]
    rfl

end Cyptos
