import Cyptos.Logic.System

/-!
# Privilege and interrupts

The saved status word of a task returns to the task's own privilege with interrupts enabled, and
keeps them off until then. A task is saved only when interrupts were enabled: a timer interrupt
needs them, or comes from user mode, which cannot turn them off.
-/

namespace Cyptos
set_option autoImplicit false
open Riscv

/-- The mode a task is created for. -/
def TaskSpec.privilege (spec : TaskSpec) : Mode :=
  match spec.mode with
  | .MMode => .machine
  | .UMode _ _ _ => .user

/-- A status word that returns to `mode` with interrupts enabled, and keeps them off until then. -/
structure SavedStatus (mode : Mode) (mstatus : BitVec 64) : Prop where
  mpp : Status.mpp mstatus = mode.code
  mpie : Status.mpie mstatus = true
  mie : Status.mie mstatus = false

/-- Saved status words and the hart's mode are those of the tasks' privilege. -/
structure Confined (specs : List TaskSpec) (m : Machine) : Prop where
  status : ∀ i t spec, m.kernel.sched.tasks i = some t → specs[i.val]? = some spec →
    SavedStatus spec.privilege t.context.mstatus
  mode : ∀ i spec, m.kernel.sched.current = some i → specs[i.val]? = some spec → m.hart.mode = spec.privilege
  bootstrap : m.kernel.sched.current = none → m.hart.mode = .machine
  enabled : m.hart.mode = .user → Status.mie m.hart.csr.mstatus = true

section Privilege

variable {specs : List TaskSpec} {m m' : Machine} {cause tval : BitVec 64}

theorem readMpp_trapCsrs (m : Machine) (cause tval : BitVec 64) :
    readMpp (m.trapCsrs cause tval) = (m.hart.mode.code).setWidth 64 := by
  have mpp := Status.mpp_trap m.hart.mode m.hart.csr.mstatus
  rw [← mpp]
  apply BitVec.eq_of_getLsbD_eq
  intro b h
  have three : (0b11 : BitVec 64).getLsbD b = decide (b < 2) := by
    interval_cases b <;> rfl
  simp only [readMpp, Machine.trapCsrs, BitVec.getLsbD_and, BitVec.getLsbD_ushiftRight, three, Status.mpp,
    BitVec.getLsbD_setWidth, BitVec.getLsbD_extractLsb', h, decide_true, Bool.true_and]
  exact Bool.and_comm _ _

theorem response_kill (kill : m.response cause tval = .kill) : m.hart.mode = .user := by
  rw [Machine.response, trapState_eq] at kill
  have mpp := (respond_kill.mp kill).2.2
  rw [readMpp_trapCsrs] at mpp
  cases mode : m.hart.mode with
  | user => rfl
  | machine =>
    rw [mode] at mpp
    exact absurd mpp (by decide)

theorem response_preempt (preempt : m.response cause tval = .preempt) :
    isInterrupt cause = true ∧ causeCode cause = 7 := by
  rw [Machine.response, trapState_eq] at preempt
  exact respond_preempt.mp preempt

/-- The trapped status word of a mode with interrupts enabled. -/
theorem savedStatus_trap {mode : Mode} {mstatus : BitVec 64} (enabled : Status.mie mstatus = true) :
    SavedStatus mode (Status.trap mode mstatus) :=
  ⟨Status.mpp_trap mode mstatus, (Status.mpie_trap mode mstatus).trans enabled, Status.mie_trap mode mstatus⟩

/-- A context with a saved status is resumed in its mode, with interrupts deliverable. -/
theorem Resumed.confined {h : Hart} {c : TaskContext} (resumed : Resumed h c) {mode : Mode}
    (saved : SavedStatus mode c.mstatus) : h.mode = mode ∧ Status.mie h.csr.mstatus = true := by
  constructor
  · rw [resumed.mode]
    exact Status.mretMode_of_mpp saved.mpp
  · rw [resumed.mstatus, Status.mie_mret]
    exact saved.mpie

/-- What a reschedule does to the privilege, given that the trapped status word is a saved one. -/
theorem Confined.rescheduled {base : SchedulerState} {s r : TrapState} {l : Layout} (confined : Confined specs m)
    (sound : Sound l specs base) (resched : Rescheduled m cause tval base m' s r)
    (same : SameContexts m.kernel.sched base) (saved : SavedStatus m.hart.mode (m.reply cause tval).mstatus) :
    Confined specs m' ∧ Status.mie m'.hart.csr.mstatus = true := by
  have status : ∀ i t spec, m'.kernel.sched.tasks i = some t → specs[i.val]? = some spec →
      SavedStatus spec.privilege t.context.mstatus := by
    intro i u spec slot at_
    obtain ⟨t, before, context⟩ := resched.saves same slot
    rw [context]
    split
    · rename_i cur
      rw [← confined.mode i spec cur at_]
      exact saved
    · exact confined.status i t spec before at_
  rcases resched.resumes same with ⟨cur, hart⟩ | ⟨i, t, cur, slot, -, hart⟩
  · obtain ⟨mode, enabled⟩ := hart.confined saved
    refine ⟨⟨status, fun i spec here at_ => ?_, fun here => ?_, fun _ => enabled⟩, enabled⟩
    · rw [mode]
      exact confined.mode i spec (cur ▸ here) at_
    · rw [mode]
      exact confined.bootstrap (cur ▸ here)
  · obtain ⟨spec, at_, -⟩ := (sound.rescheduled resched).occupied slot
    obtain ⟨mode, enabled⟩ := hart.confined (status i t spec slot at_)
    refine ⟨⟨status, fun j spec' here at' => ?_, fun here => ?_, fun _ => enabled⟩, enabled⟩
    · rw [cur] at here
      obtain rfl := Option.some.inj here
      rw [at_] at at'
      obtain rfl := Option.some.inj at'
      exact mode
    · rw [cur] at here
      cases here

/-- A trap keeps the privilege, and whatever it reschedules runs with interrupts enabled. -/
theorem Confined.trapped {l : Layout} {clobber : Reg → BitVec 64} (confined : Confined specs m)
    (sound : Sound l specs m.kernel.sched) (admits : m.Admits (.trap cause tval clobber))
    (trapped : Trapped m cause tval m') :
    Confined specs m' ∧ (m.response cause tval ≠ .resume → Status.mie m'.hart.csr.mstatus = true) := by
  have reply := reply_mstatus m cause tval
  cases trapped with
  | stay response sched pmp hart =>
    have mode : m'.hart.mode = m.hart.mode := by
      rw [hart.mode, reply]
      exact Status.mretMode_of_mpp (Status.mpp_trap _ _)
    refine ⟨⟨?_, ?_, ?_, ?_⟩, fun other => absurd response other⟩
    · rw [sched]
      exact confined.status
    · rw [sched, mode]
      exact confined.mode
    · rw [sched, mode]
      exact confined.bootstrap
    · rw [mode]
      intro user
      rw [hart.mstatus, reply, Status.mie_mret, Status.mpie_trap]
      exact confined.enabled user
  | preempt response resched =>
    -- an interrupt is taken in user mode, or in machine mode with `MIE` set
    have enabled : Status.mie m.hart.csr.mstatus = true := by
      rcases admits (response_preempt response).1 with user | set
      · exact confined.enabled user
      · exact set
    have saved : SavedStatus m.hart.mode (m.reply cause tval).mstatus := by
      rw [reply]
      exact savedStatus_trap enabled
    obtain ⟨after, deliverable⟩ := confined.rescheduled sound resched (.refl _) saved
    exact ⟨after, fun _ => deliverable⟩
  | kill response resched =>
    have saved : SavedStatus m.hart.mode (m.reply cause tval).mstatus := by
      rw [reply]
      exact savedStatus_trap (confined.enabled (response_kill response))
    obtain ⟨after, deliverable⟩ := confined.rescheduled sound.killed resched (killed_sameContexts _) saved
    exact ⟨after, fun _ => deliverable⟩

theorem Confined.step {l : Layout} {e : Event} (confined : Confined specs m) (sound : Sound l specs m.kernel.sched)
    (step : m.Step e m') : Confined specs m' := by
  rcases step_cases step with quiet | ⟨cause, tval, clobber, rfl, admits, trapped⟩
  · refine ⟨?_, ?_, ?_, ?_⟩
    · rw [quiet.sched]
      exact confined.status
    · rw [quiet.sched, quiet.mode]
      exact confined.mode
    · rw [quiet.sched, quiet.mode]
      exact confined.bootstrap
    · rw [quiet.mode]
      intro user
      rw [quiet.mstatus user]
      exact confined.enabled user
  · exact (confined.trapped sound admits trapped).1

theorem savedStatus_initial (spec : TaskSpec) (stackTop : BitVec 64) :
    SavedStatus spec.privilege (spec.initial stackTop).mstatus := by
  obtain ⟨entry, mode⟩ := spec
  cases mode with
  | MMode =>
    have status : SavedStatus .machine ((0b11 <<< 11) ||| (1 <<< 7)) := ⟨by decide, by decide, by decide⟩
    exact status
  | UMode codeBase codeSize mmio =>
    have status : SavedStatus .user (0b0000_0001 <<< 7) := ⟨by decide, by decide, by decide⟩
    exact status

theorem BootState.confined {l : Layout} (boot : BootState l specs m) : Confined specs m := by
  refine ⟨?_, ?_, fun _ => boot.mode, ?_⟩
  · intro i t spec slot at_
    obtain ⟨t', slot', started⟩ := boot.filled i spec at_
    rw [slot] at slot'
    obtain rfl := Option.some.inj slot'
    rw [started.context]
    exact savedStatus_initial spec t.stackTop
  · intro i spec cur
    rw [boot.current] at cur
    cases cur
  · rw [boot.mode]
    intro user
    cases user

/-- The privilege invariant holds in every reachable state. -/
theorem confined_of_run {l : Layout} {start : Machine} {es : List Event} (booted : Booted l specs start)
    (run : Runs start es m) : Confined specs m :=
  run.invariant_with (fun _ _ before => sound_of_run booted before) booted.state.confined
    fun _ _ _ sound confined step => confined.step sound step

/-! ## Inside the handler -/

/-- A switch writes a status word that keeps interrupts off. -/
theorem Switched.mie {s r : TrapState} (switched : Switched s r) (off : Status.mie s.csr.mstatus = false)
    (saved : ∀ i t, s.kernel.sched.tasks i = some t → Status.mie t.context.mstatus = false) :
    Status.mie r.csr.mstatus = false := by
  cases switched with
  | idle none => exact off
  | @switch i t uart chosen slot =>
    obtain ⟨u, before, rfl⟩ := saved_occupied slot
    have kept := saved i u before
    simp only
    split
    · exact off
    · exact kept

theorem Handover.mie {base : SchedulerState} {s r : TrapState} (handover : Handover m cause tval base s r)
    (same : SameContexts m.kernel.sched base)
    (saved : ∀ i t, m.kernel.sched.tasks i = some t → Status.mie t.context.mstatus = false) :
    Status.mie r.csr.mstatus = false := by
  apply handover.switched.mie
  · have trapped := reply_mstatus m cause tval
    rw [← handover.context, of_mstatus] at trapped
    rw [trapped]
    exact Status.mie_trap _ _
  · intro i t slot
    rw [handover.sched] at slot
    obtain ⟨t', before, context⟩ := same.context i t slot
    rw [context]
    exact saved i t' before

/-- The handler returns with interrupts off. -/
theorem Confined.handler {l : Layout} {r : TrapState} (confined : Confined specs m)
    (sound : Sound l specs m.kernel.sched) (handled : trapHandler (m.trapState cause tval) = .ok r) :
    Status.mie r.csr.mstatus = false := by
  have saved : ∀ i t, m.kernel.sched.tasks i = some t → Status.mie t.context.mstatus = false := by
    intro i t slot
    obtain ⟨spec, at_, -⟩ := sound.occupied slot
    exact (confined.status i t spec slot at_).mie
  cases handler_cases handled with
  | stay response stays =>
    rw [stays.csr, trapState_eq]
    exact Status.mie_trap _ _
  | preempt response handover => exact handover.mie (.refl _) saved
  | kill response handover => exact handover.mie (killed_sameContexts _) saved

/-- **Privilege confinement.** In every reachable state every saved status word returns to the privilege
that its task was created with, with interrupts enabled then and off before; the hart is in the privilege
of the current task; every reschedule ends with interrupts enabled, as user mode always has them; and the
handler leaves `mstatus` with interrupts off. -/
theorem privilege_confinement {l : Layout} {start : Machine} {es : List Event} (booted : Booted l specs start)
    (run : Runs start es m) :
    (∀ i t, m.kernel.sched.tasks i = some t →
        ∃ spec, specs[i.val]? = some spec ∧ SavedStatus spec.privilege t.context.mstatus) ∧
      (∀ i spec, m.kernel.sched.current = some i → specs[i.val]? = some spec → m.hart.mode = spec.privilege) ∧
      (∀ cause tval clobber m', m.Step (.trap cause tval clobber) m' → m.response cause tval ≠ .resume →
        Status.mie m'.hart.csr.mstatus = true) ∧
      (m.hart.mode = .user → Status.mie m.hart.csr.mstatus = true) ∧
      ∀ cause tval r, trapHandler (m.trapState cause tval) = .ok r → Status.mie r.csr.mstatus = false := by
  have sound := sound_of_run booted run
  have confined := confined_of_run booted run
  refine ⟨fun i t slot => ?_, confined.mode, fun cause tval clobber m' step => ?_, confined.enabled,
    fun cause tval r handled => confined.handler sound handled⟩
  · obtain ⟨spec, at_, -⟩ := sound.occupied slot
    exact ⟨spec, at_, confined.status i t spec slot at_⟩
  · exact (confined.trapped sound step.1 (trap_cases step.2)).2

end Privilege

theorem privilege_confinement_echo : echoRunning.hart.mode = .user ∧
    ∀ cause tval r, trapHandler (echoRunning.trapState cause tval) = .ok r → Status.mie r.csr.mstatus = false := by
  obtain ⟨-, mode, -, -, handler⟩ := privilege_confinement kmain_booted echo_runs
  exact ⟨mode 1 _ echo_current rfl, handler⟩

end Cyptos
