import Cyptos.Kernel.Violation
import Cyptos.Logic.Sharing

/-!
# The violation task is killed by its load

Whatever the other tasks do, however the violation task is preempted on the way and wherever its registers
are saved in the meantime, its load is refused, it is killed for it, and it is killed for nothing else.
-/

namespace Cyptos
set_option autoImplicit false
open Riscv Riscv.Pmp Sim

section Violation

variable {code : ViolationCode} {i : Fin maxTasks} {s s' : ViolationState} {e : Event}
variable {l : Layout} {idle : BitVec 64} {rest : List TaskSpec}

/-- The task stands at its point, and is dead exactly if its load has been refused. -/
structure Violating (code : ViolationCode) (i : Fin maxTasks) (s : ViolationState) : Prop where
  unread : s.point ≠ .spin
  at_ : s.point ≠ .refused → code.At s.point (s.machine.processor i).x (s.machine.processor i).pc
  alive : s.machine.kernel.sched.alive i = decide (s.point ≠ .refused)

/-- Nothing in text can be read. -/
theorem load_denied {m : Machine} (map : KernelMap l m.kernel.pmp.file) (text : l.Text 0x8000_0000)
    (addr : m.hart.x code.addr = 0x8000_0000) : ¬ code.Allowed m := by
  intro allowed
  have first := allowed 0 (by decide)
  rw [addr] at first
  cases (map.permits_text text m.hart.mode .read).mp first

/-- A step without a trap. -/
theorem Violating.quiet (violating : Violating code i s) (inv : SchedInv s.machine.kernel.sched)
    (sched : s'.machine.kernel.sched = s.machine.kernel.sched)
    (own : s.machine.kernel.sched.current = some i → s'.point ≠ .spin ∧
      (s'.point = .refused ↔ s.point = .refused) ∧ code.At s'.point s'.machine.hart.x s'.machine.hart.pc)
    (away : s.machine.kernel.sched.current ≠ some i → s'.point = s.point) : Violating code i s' := by
  have processor := processor_same_table sched inv i
  by_cases cur : s.machine.kernel.sched.current = some i
  · obtain ⟨unread, refused, at_⟩ := own cur
    rw [if_pos cur] at processor
    refine ⟨unread, fun _ => ?_, ?_⟩
    · rw [processor]
      exact at_
    · rw [sched, violating.alive]
      simp only [ne_eq, refused]
  · rw [if_neg cur] at processor
    have point := away cur
    refine ⟨by rw [point]; exact violating.unread, fun lives => ?_, ?_⟩
    · rw [processor, point]
      exact violating.at_ (point ▸ lives)
    · rw [sched, point]
      exact violating.alive

/-- A running task has not been refused anything, and stands at its point. -/
theorem Violating.running (violating : Violating code i s) (going : Going l idle rest s.machine)
    (cur : s.machine.kernel.sched.current = some i) :
    s.point ≠ .refused ∧ code.At s.point s.machine.hart.x s.machine.hart.pc := by
  have lives : s.point ≠ .refused := of_decide_eq_true (violating.alive.symm.trans (going.current_alive cur))
  have at_ := violating.at_ lives
  rw [processor_current going.sound.inv cur] at at_
  exact ⟨lives, at_⟩

/-- A trap while another task runs. -/
theorem Violating.other_trap (violating : Violating code i s) (inv : SchedInv s.machine.kernel.sched)
    {cause tval : BitVec 64} (trapped : Trapped s.machine cause tval s'.machine)
    (other : s.machine.kernel.sched.current ≠ some i) (point : s'.point = s.point) : Violating code i s' := by
  have processor := trap_processor trapped inv i
  rw [if_neg (fun both => other both.2), Machine.owed, if_neg other] at processor
  refine ⟨by rw [point]; exact violating.unread, fun lives => ?_, ?_⟩
  · rw [processor, point]
    exact violating.at_ (point ▸ lives)
  · rw [← processor_alive, processor, point]
    exact violating.alive

/-- A trap while the task runs: an interrupt leaves it where it is, the fault of its load kills it. -/
theorem Violating.own_trap (violating : Violating code i s) (going : Going l idle rest s.machine)
    (user : s.machine.hart.mode = .user) {cause tval : BitVec 64} {clobber : Reg → BitVec 64}
    (trapped : Trapped s.machine cause tval s'.machine) (cur : s.machine.kernel.sched.current = some i)
    (follows : code.Follows s.machine s.point (.trap cause tval clobber) s'.point) : Violating code i s' := by
  have processor := trap_processor trapped going.sound.inv i
  obtain ⟨machine, point⟩ := s
  obtain ⟨machine', point'⟩ := s'
  simp only at follows user cur trapped processor
  cases follows with
  | faults exception number denied =>
    have kill : machine.response cause tval = .kill :=
      reachesKill_iff.mp ⟨exception, by rw [number]; decide, readMpp_user user cause tval⟩
    rw [if_pos ⟨kill, cur⟩] at processor
    refine ⟨by simp, fun lives => absurd rfl lives, ?_⟩
    rw [← processor_alive, processor]
    rfl
  | interrupt interrupt =>
    have spared : machine.response cause tval ≠ .kill := by
      intro kill
      have exception := (reachesKill_iff.mpr kill).1
      rw [interrupt] at exception
      cases exception
    have plain : ¬ Calls cause := by
      rintro ⟨exception, -⟩
      rw [interrupt] at exception
      cases exception
    rw [if_neg (fun both => spared both.1), owed_same going.sound.inv plain] at processor
    refine ⟨violating.unread, fun lives => ?_, ?_⟩
    · rw [processor]
      exact violating.at_ lives
    · rw [← processor_alive, processor]
      exact violating.alive

/-- **One step.** The task does not get past its load. -/
theorem Violating.step (violating : Violating code i s) (going : Going l idle rest s.machine)
    (map : KernelMap l s.machine.kernel.pmp.file) (text : l.Text 0x8000_0000)
    (user : s.machine.kernel.sched.current = some i → s.machine.hart.mode = .user) (step : ViolationStep code i s e s') :
    Violating code i s' := by
  have inv := going.sound.inv
  cases e with
  | trap cause tval clobber =>
    have trapped := trap_cases step.step.2
    by_cases cur : s.machine.kernel.sched.current = some i
    · exact violating.own_trap going (user cur) trapped cur (step.follows cur)
    · exact violating.other_trap inv trapped cur (step.stays cur)
  | exec x pc mem =>
    obtain ⟨machine', point'⟩ := s'
    obtain ⟨⟨-, after⟩, follows, stays⟩ := step
    cases after
    refine violating.quiet inv rfl (fun cur => ?_) stays
    obtain ⟨lives, here⟩ := violating.running going cur
    have unread := violating.unread
    have move := follows cur
    generalize s.point = p at move lives here unread
    cases move with
    | exec way at_ =>
      rcases way with rfl | ⟨rfl, rfl⟩
      · exact ⟨unread, Iff.rfl, at_⟩
      · exact ⟨by simp, by simp, at_⟩
    | loads allowed at_ => exact absurd allowed (load_denied map text (code.load here))
  | writeMstatus v =>
    obtain ⟨machine', point'⟩ := s'
    obtain ⟨⟨-, after⟩, follows, stays⟩ := step
    cases after
    refine violating.quiet inv rfl (fun cur => ?_) stays
    have move := follows cur
    generalize s.point = p at move
    cases move
  | device rx mtime =>
    obtain ⟨machine', point'⟩ := s'
    obtain ⟨⟨-, after⟩, follows, stays⟩ := step
    cases after
    refine violating.quiet inv rfl (fun cur => ?_) stays
    obtain ⟨lives, here⟩ := violating.running going cur
    have unread := violating.unread
    have move := follows cur
    generalize s.point = p at move lives here unread
    cases move with
    | device => exact ⟨unread, Iff.rfl, here⟩

/-- Right after boot the task waits at its entry point. -/
theorem BootState.violating {specs : List TaskSpec} {m : Machine} (boot : BootState l specs m) {spec : TaskSpec}
    (at_ : specs[i.val]? = some spec) (entry : spec.entry = code.entry) : Violating code i ⟨m, .setup⟩ := by
  obtain ⟨t, -, processor⟩ := boot.processor at_
  refine ⟨by simp, fun _ => ?_, ?_⟩
  · show code.At .setup (m.processor i).x (m.processor i).pc
    rw [processor, TaskSpec.processor, entry]
    exact code.start _
  · rw [← processor_alive, processor]
    rfl

/-- **The violation task.** In every run in which slot `i` executes `user_violation_task` and kernel text is linked at the
address that it reads, whatever other tasks do and wherever it is preempted: the load never completes; whenever the task
stands at it, the hardware refuses it; and the task is dead if and only if it has tried. -/
theorem violation_killed_by_load {start : Machine} (booted : Booted l (.machine idle :: rest) start)
    {codeBase codeSize : BitVec 64} {mmio : List (BitVec 64 × BitVec 64)}
    (at_ : (TaskSpec.machine idle :: rest)[i.val]? = some (.user code.entry codeBase codeSize mmio))
    (text : l.Text 0x8000_0000) {es : List Event} (run : Run (ViolationStep code i) ⟨start, .setup⟩ es s) :
    s.point ≠ .spin ∧
      (s.machine.kernel.sched.current = some i → s.point = .load → ¬ code.Allowed s.machine) ∧
      ∃ t, s.machine.kernel.sched.tasks i = some t ∧ (t.state = .Dead ↔ s.point = .refused) := by
  have known (es : List Event) (s : ViolationState) (run : Run (ViolationStep code i) ⟨start, .setup⟩ es s) :
      Going l idle rest s.machine ∧ KernelMap l s.machine.kernel.pmp.file := by
    have runs := run.project (fun s => s.machine) some (fun _ _ _ _ step same => Option.some.inj same ▸ step.step)
      fun _ _ _ _ none_ => by cases none_
    rw [List.filterMap_some] at runs
    exact ⟨going_of_run booted runs, (guarded_of_run booted runs).kernel⟩
  have violating : Violating code i s :=
    run.invariant_with known (booted.state.violating at_ rfl) fun _ _ _ before violating step =>
      violating.step before.1 before.2 text (fun cur => before.1.confined.mode i _ cur at_) step
  obtain ⟨going, map⟩ := known es s run
  refine ⟨violating.unread, fun cur load => ?_, ?_⟩
  · have here := (violating.running going cur).2
    rw [load] at here
    exact load_denied map text (code.load here)
  · obtain ⟨t, slot, -⟩ := going.sound.filled i _ at_
    have alive := violating.alive
    rw [SchedulerState.alive, slot] at alive
    refine ⟨t, slot, ?_⟩
    simpa [Task.alive] using alive

end Violation

/-! ## The violation task of `kmain` -/

/-- A compilation with one instruction for the address. -/
def violationImage : ViolationCode where
  entry := 0x8000_8100
  addr := .a5
  At
    | .setup, _, pc => pc = 0x8000_8100
    | .load, x, pc => pc = 0x8000_8104 ∧ x .a5 = 0x8000_0000
    | .refused, _, pc => pc = 0x8000_8104
    | .spin, _, pc => pc = 0x8000_8108
  start := fun _ => rfl
  load := fun at_ => at_.2

def loadRegs (r : Reg) : BitVec 64 := if r = .a5 then 0x8000_0000 else 0

/-- The task is dispatched after the echo task, gets to its load and faults. -/
def violationEvents : List Event :=
  [timerTick, timerTick, .exec loadRegs 0x8000_8104 fun _ => 0, .trap 5 0x8000_0000 fun _ => 0]

/-- The machine as the violation task is about to load. -/
def loading : Machine :=
  { violationRunning with hart := { violationRunning.hart with x := loadRegs, pc := 0x8000_8104, mem := fun _ => 0 } }

theorem loading_run : Run (ViolationStep violationImage 2) ⟨kmainBooted, .setup⟩
    [timerTick, timerTick, .exec loadRegs 0x8000_8104 fun _ => 0] ⟨loading, .load⟩ := by
  have idle : kmainBooted.kernel.sched.current ≠ some 2 := by
    rw [kmain_booted.state.current]
    exact fun same => by cases same
  have echo : echoRunning.kernel.sched.current ≠ some 2 := by
    rw [echo_current]
    decide
  have first : ViolationStep violationImage 2 ⟨kmainBooted, .setup⟩ timerTick ⟨echoRunning, .setup⟩ :=
    ⟨echo_tick, fun cur => absurd cur idle, fun _ => rfl⟩
  have second : ViolationStep violationImage 2 ⟨echoRunning, .setup⟩ timerTick ⟨violationRunning, .setup⟩ :=
    ⟨violation_tick, fun cur => absurd cur echo, fun _ => rfl⟩
  have exec : ViolationStep violationImage 2 ⟨violationRunning, .setup⟩ (.exec loadRegs 0x8000_8104 fun _ => 0)
      ⟨loading, .load⟩ :=
    ⟨⟨trivial, rfl⟩, fun _ => .exec (.inr ⟨rfl, rfl⟩) ⟨rfl, rfl⟩, fun other => absurd violation_current other⟩
  exact ((Run.start.next first).next second).next exec

theorem violation_killed_by_load_kmain : ∃ s t, Run (ViolationStep violationImage 2) ⟨kmainBooted, .setup⟩ violationEvents s ∧
    s.machine.kernel.sched.tasks 2 = some t ∧ t.state = .Dead := by
  have text : qemuVirt.Text 0x8000_0000 := ⟨by decide, by decide⟩
  have current : loading.kernel.sched.current = some 2 := violation_current
  have at_ : kmainTasks[(2 : Fin maxTasks).val]? = some (.user violationImage.entry 0x8000_8000 0x1000 []) := rfl
  obtain ⟨-, refused, -⟩ := violation_killed_by_load kmain_booted at_ text loading_run
  have kill : loading.response 5 0x8000_0000 = .kill :=
    reachesKill_iff.mp ⟨by decide, by decide, readMpp_user rfl 5 0x8000_0000⟩
  obtain ⟨r, handled⟩ := handler_returns (by rw [kill]; decide : loading.response 5 0x8000_0000 ≠ .panic)
  have trap : loading.Step (.trap 5 0x8000_0000 fun _ => 0) (loading.resume 5 0x8000_0000 (fun _ => 0) r) := by
    refine ⟨fun interrupt => absurd interrupt (by decide), ?_⟩
    show loading.trap 5 0x8000_0000 (fun _ => 0) = _
    rw [Machine.trap, handled]
    rfl
  have faults : ViolationStep violationImage 2 ⟨loading, .load⟩ (.trap 5 0x8000_0000 fun _ => 0)
      ⟨loading.resume 5 0x8000_0000 (fun _ => 0) r, .refused⟩ :=
    ⟨trap, fun _ => .faults (by decide) (by decide) (refused current rfl), fun other => absurd current other⟩
  have run := loading_run.next faults
  obtain ⟨-, -, t, slot, dead⟩ := violation_killed_by_load kmain_booted at_ text run
  exact ⟨_, t, run, slot, dead.mpr rfl⟩

end Cyptos
