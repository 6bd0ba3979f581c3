import Cyptos.Logic.System

/-!
# Context switches

What a task is owed is said without the kernel: a history of the task's own register files, the one
it starts with and one for each trap it has taken. A run of the machine is observed by these
histories, and every return from a trap gives a task the latest of its own.
-/

namespace Cyptos
set_option autoImplicit false
open Riscv

/-! ## Histories -/

/-- The registers, program counter and status word of an interrupted task. -/
structure Snapshot where
  x : Reg → BitVec 64
  pc : BitVec 64
  mstatus : BitVec 64

/-- What the interrupted task is owed after a trap: what the hart held as the trap was taken, but for
`a0` when `SYS_GETC` answers and for a program counter past an `ecall` or `ebreak`. -/
def Machine.snapshot (m : Machine) (cause : BitVec 64) : Snapshot where
  x :=
    if isInterrupt cause = false ∧ (causeCode cause).toNat = 8 ∧ m.hart.x .a7 = sysGetc then
      Function.update m.hart.x .a0 (((Serial.tryGetc m.kernel.uart).1.getD 0xFF).setWidth 64)
    else m.hart.x
  pc :=
    if isInterrupt cause = false ∧ (causeCode cause).toNat ∈ [3, 8, 9, 11] then m.hart.pc + 4
    else m.hart.pc
  mstatus := Status.trap m.hart.mode m.hart.csr.mstatus

/-- What a task starts with: its entry point, its stack and zeros. -/
def TaskSpec.snapshot (spec : TaskSpec) (stackTop : BitVec 64) : Snapshot where
  x := fun r => if r = .sp then stackTop else 0
  pc := spec.entry
  mstatus :=
    match spec.mode with
    | .MMode => 0x1880
    | .UMode _ _ _ => 0x80

/-- The snapshots of each slot, latest first. -/
abbrev History := Fin maxTasks → List Snapshot

/-- Only the current task's history grows, and only by its own traps. -/
def observe (h : History) (m : Machine) : Event → History
  | .trap cause _ _ => fun i => if m.kernel.sched.current = some i then m.snapshot cause :: h i else h i
  | _ => h

/-- The histories right after boot. -/
def bootHistory (specs : List TaskSpec) (m : Machine) : History := fun i =>
  match specs[i.val]?, m.kernel.sched.tasks i with
  | some spec, some t => [spec.snapshot t.stackTop]
  | _, _ => []

/-- The hart executes from a snapshot. -/
structure Restored (h : Hart) (s : Snapshot) : Prop where
  x : h.x = s.x
  pc : h.pc = s.pc
  mode : h.mode = Status.mretMode s.mstatus
  mstatus : h.csr.mstatus = Status.mret s.mstatus

/-! ## The kernel's contexts -/

/-- What a saved context stands for. -/
def TaskContext.snapshot (c : TaskContext) : Snapshot := ⟨c.frame.reg, c.mepc, c.mstatus⟩

theorem Resumed.restored {h : Hart} {c : TaskContext} (resumed : Resumed h c) : Restored h c.snapshot :=
  ⟨resumed.x, resumed.pc, resumed.mode, resumed.mstatus⟩

theorem reg_update_a0 (x : Reg → BitVec 64) (v : BitVec 64) :
    ({ TrapFrame.ofRegs x with a0 := v } : TrapFrame).reg = Function.update x .a0 v := by
  funext r
  cases r <;> rfl

/-- The handler's reply is what the task is owed. -/
theorem reply_snapshot (m : Machine) (cause tval : BitVec 64) :
    (m.reply cause tval).snapshot = m.snapshot cause := by
  rw [Machine.reply, trapState_eq]
  simp only [TrapState.reply, TaskContext.snapshot, of_frame, of_mepc, of_mstatus, Machine.snapshot, Snapshot.mk.injEq]
  refine ⟨?_, rfl, rfl⟩
  have a7 : (TrapFrame.ofRegs m.hart.x).a7 = m.hart.x .a7 := rfl
  simp only [TrapState.replyFrame, Machine.trapCsrs, a7]
  split
  · exact reg_update_a0 m.hart.x _
  · exact TrapFrame.reg_ofRegs m.hart.x

theorem initial_snapshot (spec : TaskSpec) (stackTop : BitVec 64) :
    (spec.initial stackTop).snapshot = spec.snapshot stackTop := by
  obtain ⟨entry, mode⟩ := spec
  cases mode with
  | MMode =>
    simp only [TaskContext.snapshot, TaskSpec.snapshot, Snapshot.mk.injEq]
    refine ⟨?_, rfl, rfl⟩
    funext r
    cases r <;> rfl
  | UMode codeBase codeSize mmio =>
    simp only [TaskContext.snapshot, TaskSpec.snapshot, Snapshot.mk.injEq]
    refine ⟨?_, rfl, rfl⟩
    funext r
    cases r <;> rfl

/-! ## Observed runs -/

/-- Saved contexts come from their task's history, and are the latest of it unless the task runs. -/
structure Recorded (m : Machine) (h : History) : Prop where
  own : ∀ i t, m.kernel.sched.tasks i = some t → t.context.snapshot ∈ h i
  latest : ∀ i t, m.kernel.sched.tasks i = some t → m.kernel.sched.current ≠ some i →
    (h i).head? = some t.context.snapshot

section Runs

variable {m m' : Machine} {h : History} {cause tval : BitVec 64} {clobber : Reg → BitVec 64}

theorem observe_current {i : Fin maxTasks} (cur : m.kernel.sched.current = some i) :
    observe h m (.trap cause tval clobber) i = m.snapshot cause :: h i := if_pos cur

theorem observe_other {i : Fin maxTasks} (other : m.kernel.sched.current ≠ some i) :
    observe h m (.trap cause tval clobber) i = h i := if_neg other

/-- After a reschedule every saved context is the latest of its history. -/
theorem Recorded.rescheduled {base : SchedulerState} {s r : TrapState} (recorded : Recorded m h)
    (resched : Rescheduled m cause tval base m' s r) (same : SameContexts m.kernel.sched base) {i : Fin maxTasks}
    {u : Task} (slot : m'.kernel.sched.tasks i = some u) :
    (observe h m (.trap cause tval clobber) i).head? = some u.context.snapshot := by
  obtain ⟨t, before, context⟩ := resched.saves same slot
  rw [context]
  split
  · rename_i cur
    rw [observe_current cur, reply_snapshot]
    rfl
  · rename_i other
    rw [observe_other other]
    exact recorded.latest i t before other

/-- What a trap does to the histories, and what its return gives to the task that goes on. -/
structure Returned (h : History) (m' : Machine) : Prop where
  recorded : Recorded m' h
  restored : ∀ i, m'.kernel.sched.current = some i → ∃ s, (h i).head? = some s ∧ Restored m'.hart s

theorem Recorded.returned {base : SchedulerState} {s r : TrapState} (recorded : Recorded m h)
    (resched : Rescheduled m cause tval base m' s r) (same : SameContexts m.kernel.sched base) :
    Returned (observe h m (.trap cause tval clobber)) m' := by
  have latest {i : Fin maxTasks} {u : Task} (slot : m'.kernel.sched.tasks i = some u) :
      (observe h m (.trap cause tval clobber) i).head? = some u.context.snapshot :=
    recorded.rescheduled resched same slot
  refine ⟨⟨fun i t slot => List.mem_of_mem_head? (latest slot), fun i t slot _ => latest slot⟩, fun i cur => ?_⟩
  rcases resched.resumes same with ⟨kept, hart⟩ | ⟨j, t, cur', slot, -, hart⟩
  · refine ⟨m.snapshot cause, ?_, ?_⟩
    · rw [observe_current (kept ▸ cur)]
      rfl
    · rw [← reply_snapshot m cause tval]
      exact hart.restored
  · rw [cur'] at cur
    obtain rfl := Option.some.inj cur
    exact ⟨_, latest slot, hart.restored⟩

theorem Recorded.trapped (recorded : Recorded m h) (trapped : Trapped m cause tval m') :
    Returned (observe h m (.trap cause tval clobber)) m' := by
  cases trapped with
  | stay response sched pmp hart =>
    refine ⟨⟨fun i t slot => ?_, fun i t slot other => ?_⟩, fun i cur => ⟨m.snapshot cause, ?_, ?_⟩⟩
    · rw [sched] at slot
      have own := recorded.own i t slot
      by_cases cur : m.kernel.sched.current = some i
      · rw [observe_current cur]
        exact List.mem_cons_of_mem _ own
      · rw [observe_other cur]
        exact own
    · rw [sched] at slot other
      rw [observe_other other]
      exact recorded.latest i t slot other
    · rw [sched] at cur
      rw [observe_current cur]
      rfl
    · rw [← reply_snapshot m cause tval]
      exact hart.restored
  | preempt response resched => exact recorded.returned resched (.refl _)
  | kill response resched => exact recorded.returned resched (killed_sameContexts _)

theorem Recorded.step {e : Event} (recorded : Recorded m h) (step : m.Step e m') : Recorded m' (observe h m e) := by
  obtain ⟨-, after⟩ := step
  cases e with
  | exec x pc mem =>
    cases after
    exact ⟨recorded.own, recorded.latest⟩
  | writeMstatus v =>
    cases after
    exact ⟨recorded.own, recorded.latest⟩
  | device rx mtime =>
    cases after
    exact ⟨recorded.own, recorded.latest⟩
  | trap cause tval clobber => exact (recorded.trapped (trap_cases after)).recorded

theorem BootState.recorded {l : Layout} {specs : List TaskSpec} (boot : BootState l specs m) :
    Recorded m (bootHistory specs m) := by
  have only : ∀ i t, m.kernel.sched.tasks i = some t → bootHistory specs m i = [t.context.snapshot] := by
    intro i t slot
    obtain ⟨spec, at_, -⟩ := boot.sound.occupied slot
    obtain ⟨t', slot', started⟩ := boot.filled i spec at_
    rw [slot] at slot'
    obtain rfl := Option.some.inj slot'
    simp only [bootHistory, at_, slot]
    rw [started.context, initial_snapshot]
  constructor
  · intro i t slot
    rw [only i t slot]
    exact List.mem_singleton.mpr rfl
  · intro i t slot _
    rw [only i t slot]
    rfl

theorem recorded_of_run {l : Layout} {specs : List TaskSpec} {start : Machine} {es : List Event}
    (booted : Booted l specs start)
    (run : Sim.Run (Sim.Observed Machine.Step observe) (start, bootHistory specs start) es (m, h)) : Recorded m h := by
  refine run.invariant (P := fun a => Recorded a.1 a.2) booted.state.recorded ?_
  rintro a e b recorded ⟨move, history⟩
  rw [history]
  exact recorded.step move

/-- **Context switches.** Every run has a history in which the saved context of a task is one of its own
snapshots, and the latest unless the task is current; and every further trap returns to the task that is
then current with the latest of that task's own snapshots, which is the initial one until it first traps. -/
theorem context_fidelity {l : Layout} {specs : List TaskSpec} {start : Machine} {es : List Event}
    (booted : Booted l specs start) (run : Runs start es m) :
    ∃ h, Sim.Run (Sim.Observed Machine.Step observe) (start, bootHistory specs start) es (m, h) ∧
      (∀ i t, m.kernel.sched.tasks i = some t → t.context.snapshot ∈ h i ∧
        (m.kernel.sched.current ≠ some i → (h i).head? = some t.context.snapshot)) ∧
      ∀ cause tval clobber m', m.Step (.trap cause tval clobber) m' → ∀ i, m'.kernel.sched.current = some i →
        ∃ s, (observe h m (.trap cause tval clobber) i).head? = some s ∧ Restored m'.hart s := by
  obtain ⟨h, observed⟩ := run.observed observe (bootHistory specs start)
  have recorded := recorded_of_run booted observed
  refine ⟨h, observed, fun i t slot => ⟨recorded.own i t slot, recorded.latest i t slot⟩, ?_⟩
  intro cause tval clobber m' step
  exact (recorded.trapped (trap_cases step.2)).restored

end Runs

/-- The echo task is interrupted, the violation task runs, and the echo task goes on with its registers. -/
theorem context_fidelity_echo : Runs kmainBooted [timerTick, echoComputes, timerTick] echoWaits ∧
    echoWaits.kernel.sched.current = some 2 ∧ echoWaits.Step timerTick echoResumed ∧
    echoResumed.kernel.sched.current = some 1 ∧ echoResumed.hart.x = (fun _ => 1) ∧ echoResumed.hart.pc = 0x8000_8004 := by
  obtain ⟨h, -, saved, returns⟩ := context_fidelity kmain_booted echo_waits
  have other : echoWaits.kernel.sched.current ≠ some 1 := by decide
  obtain ⟨t, slot, x, pc⟩ : ∃ t, echoWaits.kernel.sched.tasks 1 = some t ∧ t.context.snapshot.x = (fun _ => 1) ∧
      t.context.snapshot.pc = 0x8000_8004 := by
    refine ⟨_, rfl, ?_, rfl⟩
    funext r
    cases r <;> rfl
  obtain ⟨s, latest, restored⟩ := returns _ _ _ echoResumed echo_resumes 1 rfl
  -- the last interrupt is the violation task's
  simp only [observe, if_neg other, (saved 1 t slot).2 other] at latest
  obtain rfl := Option.some.inj latest
  exact ⟨echo_waits, rfl, echo_resumes, rfl, restored.x.trans x, restored.pc.trans pc⟩

end Cyptos
