import Cyptos.Kernel.Board
import Cyptos.Logic.Switch

/-!
# The task table over any sequence of operations

The five operations of the scheduler in any order and with any arguments. A task that is
running is the current one, and the current one is running or dead: the outgoing task becomes
ready before the next one is selected, so a selection that finds nothing has met a dead task.
-/

namespace Cyptos
set_option autoImplicit false
open Riscv

/-- A call of the scheduler's interface, with everything it reads apart from the table. -/
inductive SchedOp
  | createTask (csr : Csrs) (entry stackTop : BitVec 64) (regions : List PmpRegion)
  | createTaskMmode (csr : Csrs) (entry stackTop : BitVec 64)
  | init (csr : Csrs)
  | schedule (s : TrapState)
  | killCurrent (s : TrapState)

/-- The trap state `s` with the table `st`. -/
def TrapState.withTable (s : TrapState) (st : SchedulerState) : TrapState :=
  { s with kernel := { s.kernel with sched := st } }

/-- The table after a call that does not panic. -/
def SchedOp.apply (st : SchedulerState) : SchedOp → Outcome SchedulerState
  | .createTask csr entry stackTop regions => do
    let (_, st, _) ← Cyptos.createTask csr st entry stackTop regions
    return st
  | .createTaskMmode csr entry stackTop => do
    let (_, st, _) ← Cyptos.createTaskMmode csr st entry stackTop
    return st
  | .init csr => .ok (withLock csr st fun st => ((), schedInit st)).2.1
  | .schedule s => do return (← Cyptos.schedule (s.withTable st)).kernel.sched
  | .killCurrent s => do return (← Cyptos.killCurrent (s.withTable st)).kernel.sched

def SchedOp.Step (st : SchedulerState) (op : SchedOp) (st' : SchedulerState) : Prop := op.apply st = .ok st'

/-- The calls that may switch tasks. -/
def SchedOp.Switches : SchedOp → Prop
  | .schedule _ | .killCurrent _ => True
  | _ => False

/-- The invariant of the task table. -/
structure SchedInv (st : SchedulerState) : Prop where
  running : ∀ i t, st.tasks i = some t → t.state = .Running → st.current = some i
  current : ∀ i, st.current = some i → ∃ t, st.tasks i = some t ∧ (t.state = .Running ∨ t.state = .Dead)
  id : ∀ i t, st.tasks i = some t → t.id = ⟨BitVec.ofNat 8 i⟩

/-- The current task is past the created state. -/
theorem SchedInv.current_started {st : SchedulerState} (inv : SchedInv st) {i : Fin maxTasks} {t : Task}
    (cur : st.current = some i) (slot : st.tasks i = some t) : t.state ≠ .Created := by
  obtain ⟨u, slot', state⟩ := inv.current i cur
  rw [slot] at slot'
  obtain rfl := Option.some.inj slot'
  intro created
  rw [created] at state
  rcases state with h | h <;> cases h

/-- What no operation changes in a task. -/
structure Task.SameFixed (t t' : Task) : Prop where
  id : t'.id = t.id
  entryPoint : t'.entryPoint = t.entryPoint
  stackBottom : t'.stackBottom = t.stackBottom
  stackTop : t'.stackTop = t.stackTop
  pmpConfig : t'.pmpConfig = t.pmpConfig

theorem Task.SameFixed.refl (t : Task) : t.SameFixed t := ⟨rfl, rfl, rfl, rfl, rfl⟩

theorem Task.SameFixed.trans {t u v : Task} (first : t.SameFixed u) (second : u.SameFixed v) : t.SameFixed v :=
  ⟨second.id.trans first.id, second.entryPoint.trans first.entryPoint, second.stackBottom.trans first.stackBottom,
    second.stackTop.trans first.stackTop, second.pmpConfig.trans first.pmpConfig⟩

/-- How a task may change: its fixed parts stay, a dead task stays dead, and one that is only
created stays so unless `started`. -/
structure Task.Evolves (started : Prop) (t t' : Task) : Prop where
  fixed : t.SameFixed t'
  dead : t.state = .Dead → t'.state = .Dead
  created : t.state = .Created → ¬ started → t'.state = .Created

theorem Task.Evolves.refl (started : Prop) (t : Task) : t.Evolves started t :=
  ⟨.refl t, fun h => h, fun h _ => h⟩

theorem Task.Evolves.trans {p q : Prop} {t u v : Task} (first : t.Evolves p u) (second : u.Evolves q v) :
    t.Evolves (p ∨ q) v :=
  ⟨first.fixed.trans second.fixed, fun h => second.dead (first.dead h),
    fun h not => second.created (first.created h fun hp => not (.inl hp)) fun hq => not (.inr hq)⟩

/-- Every task of `st` is still in its slot in `st'`. -/
def Grows (started : Prop) (st st' : SchedulerState) : Prop :=
  ∀ i t, st.tasks i = some t → ∃ t', st'.tasks i = some t' ∧ t.Evolves started t'

theorem Grows.trans {p q : Prop} {st st' st'' : SchedulerState} (first : Grows p st st') (second : Grows q st' st'') :
    Grows (p ∨ q) st st'' := by
  intro i t slot
  obtain ⟨u, slot', step⟩ := first i t slot
  obtain ⟨v, slot'', step'⟩ := second i u slot'
  exact ⟨v, slot'', step.trans step'⟩

/-- What a switch leaves alone. -/
structure SwitchFrame (st st' : SchedulerState) : Prop where
  outgoing : ∀ i t, st.current = some i → st.tasks i = some t →
    ∃ context state, st'.tasks i = some { t with context := context, state := state }
  incoming : ∀ i t, st.current ≠ some i → st'.current = some i → st.tasks i = some t →
    ∃ state, st'.tasks i = some { t with state := state }
  others : ∀ i, st.current ≠ some i → st'.current ≠ some i → st'.tasks i = st.tasks i

/-! ## Switching -/

section Switching

variable {s r : TrapState}

/-- A slot after the save. -/
theorem saved_slot {i : Fin maxTasks} {t : Task} (slot : s.kernel.sched.tasks i = some t) :
    s.saved.tasks i = some
      (if s.kernel.sched.current = some i then t.save s.frame s.csr.mepc s.csr.mstatus else t) := by
  rw [TrapState.saved, saveCurrent_tasks, slot]
  split <;> rfl

theorem saved_occupied {i : Fin maxTasks} {u : Task} (slot : s.saved.tasks i = some u) :
    ∃ t, s.kernel.sched.tasks i = some t ∧
      u = if s.kernel.sched.current = some i then t.save s.frame s.csr.mepc s.csr.mstatus else t := by
  cases before : s.kernel.sched.tasks i with
  | none =>
    rw [TrapState.saved, saveCurrent_tasks, before] at slot
    split at slot <;> cases slot
  | some t =>
    rw [saved_slot before] at slot
    exact ⟨t, rfl, (Option.some.inj slot).symm⟩

/-- After the save nobody runs. -/
theorem saved_not_running (inv : SchedInv s.kernel.sched) {i : Fin maxTasks} {u : Task}
    (slot : s.saved.tasks i = some u) : u.state ≠ .Running := by
  obtain ⟨t, before, rfl⟩ := saved_occupied slot
  split
  · rw [save_eq]
    simp only
    split
    · decide
    · assumption
  · rename_i other
    exact fun running => other (inv.running i t before running)

theorem chosen_ready {i : Fin maxTasks} {t : Task}
    (chosen : selectSlot s.kernel.sched.current s.saved.isReady = some i) (slot : s.saved.tasks i = some t) :
    t.state = .Ready := by
  obtain ⟨u, slot', ready⟩ := (isReady_iff s.saved i).mp (selectSlot_ready (by decide) chosen)
  rw [slot] at slot'
  obtain rfl := Option.some.inj slot'
  exact ready

/-- When nothing is ready, the current task is dead. -/
theorem idle_current_dead (inv : SchedInv s.kernel.sched)
    (idle : selectSlot s.kernel.sched.current s.saved.isReady = none) {i : Fin maxTasks}
    (cur : s.kernel.sched.current = some i) :
    ∃ t, s.kernel.sched.tasks i = some t ∧ t.state = .Dead := by
  obtain ⟨t, slot, running | dead⟩ := inv.current i cur
  · have ready : s.saved.isReady i = true := by
      rw [isReady_iff]
      refine ⟨_, saved_slot slot, ?_⟩
      rw [if_pos cur, save_eq]
      simp only [running, if_true]
    rw [selectSlot_none (by decide) idle i] at ready
    cases ready
  · exact ⟨t, slot, dead⟩

/-- Switching keeps the invariant. -/
theorem Switched.inv (switched : Switched s r) (inv : SchedInv s.kernel.sched) : SchedInv r.kernel.sched := by
  have savedId : ∀ i t, s.saved.tasks i = some t → t.id = ⟨BitVec.ofNat 8 i⟩ := by
    intro i u slot
    obtain ⟨t, before, rfl⟩ := saved_occupied slot
    have id := inv.id i t before
    split <;> exact id
  cases switched with
  | idle none =>
    refine ⟨fun i t slot running => absurd running (saved_not_running inv slot), ?_, savedId⟩
    intro i cur
    have before : s.kernel.sched.current = some i := by simpa [TrapState.saved] using cur
    obtain ⟨t, slot, dead⟩ := idle_current_dead inv none before
    refine ⟨_, saved_slot slot, .inr ?_⟩
    rw [if_pos before, save_eq]
    simp [dead]
  | @switch i t uart chosen slot =>
    have tasks (j : Fin maxTasks) := dispatch_tasks s.saved i j
    constructor
    · intro j u here running
      rw [tasks] at here
      split at here
      · rename_i same
        rw [same]
        rfl
      · exact absurd running (saved_not_running inv here)
    · intro j cur
      obtain rfl : i = j := Option.some.inj cur
      refine ⟨{ t with state := .Running }, ?_, .inl rfl⟩
      rw [tasks, if_pos rfl, slot]
      rfl
    · intro j u here
      rw [tasks] at here
      split at here
      · rename_i same
        subst same
        rw [slot] at here
        obtain rfl := Option.some.inj here
        exact savedId j t slot
      · exact savedId j u here

theorem saved_grows (inv : SchedInv s.kernel.sched) : Grows False s.kernel.sched s.saved := by
  intro i t slot
  refine ⟨_, saved_slot slot, ?_⟩
  split
  · rename_i cur
    rw [save_eq]
    exact ⟨⟨rfl, rfl, rfl, rfl, rfl⟩, fun dead => by simp [dead],
      fun created _ => absurd created (inv.current_started cur slot)⟩
  · exact .refl False t

/-- A switch only moves tasks between ready and running. -/
theorem Switched.grows (switched : Switched s r) (inv : SchedInv s.kernel.sched) :
    Grows False s.kernel.sched r.kernel.sched := by
  cases switched with
  | idle none => exact saved_grows inv
  | @switch i t uart chosen slot =>
    have ready := chosen_ready chosen slot
    intro j u before
    obtain ⟨v, saved, step⟩ := saved_grows inv j u before
    have after : (s.saved.dispatch i).tasks j = if j = i then some { v with state := .Running } else some v := by
      rw [dispatch_tasks, saved]
      rfl
    by_cases same : j = i
    · subst same
      rw [slot] at saved
      obtain rfl := Option.some.inj saved
      refine ⟨_, after.trans (if_pos rfl), ?_⟩
      have fixed := step.fixed
      refine ⟨⟨fixed.id, fixed.entryPoint, fixed.stackBottom, fixed.stackTop, fixed.pmpConfig⟩, fun dead => ?_,
        fun created _ => ?_⟩
      · have := step.dead dead
        rw [ready] at this
        cases this
      · have := step.created created id
        rw [ready] at this
        cases this
    · exact ⟨v, after.trans (if_neg same), step⟩

/-- A switch touches the outgoing and the incoming task only. -/
theorem Switched.frame (switched : Switched s r) : SwitchFrame s.kernel.sched r.kernel.sched := by
  have other (j : Fin maxTasks) (out : s.kernel.sched.current ≠ some j) :
      s.saved.tasks j = s.kernel.sched.tasks j := by
    rw [TrapState.saved, saveCurrent_tasks, if_neg out]
  cases switched with
  | idle none =>
    refine ⟨fun i t cur slot => ?_, fun i t out cur => ?_, fun i out _ => other i out⟩
    · have saved := saved_slot slot
      rw [if_pos cur, save_eq] at saved
      exact ⟨_, _, saved⟩
    · exact absurd (by simpa [TrapState.saved] using cur) out
  | @switch i t uart chosen slot =>
    have tasks (j : Fin maxTasks) := dispatch_tasks s.saved i j
    constructor
    · intro j u cur before
      have saved := saved_slot before
      rw [if_pos cur, save_eq] at saved
      have after := tasks j
      by_cases same : j = i
      · rw [if_pos same, saved] at after
        exact ⟨_, _, after⟩
      · rw [if_neg same, saved] at after
        exact ⟨_, _, after⟩
    · intro j u out cur before
      obtain rfl : i = j := Option.some.inj cur
      refine ⟨.Running, (tasks i).trans ?_⟩
      rw [if_pos rfl, other i out, before]
      rfl
    · intro j out new
      have same : j ≠ i := by
        rintro rfl
        exact new rfl
      exact ((tasks j).trans (if_neg same)).trans (other j out)

end Switching

/-! ## Killing -/

section Killing

variable {st : SchedulerState}

theorem killed_slot {i : Fin maxTasks} {t : Task} (slot : st.tasks i = some t) :
    st.killed.tasks i = some (if st.current = some i then { t with state := .Dead } else t) := by
  rw [killed_tasks, slot]
  split <;> rfl

theorem killed_occupied {i : Fin maxTasks} {u : Task} (slot : st.killed.tasks i = some u) :
    ∃ t, st.tasks i = some t ∧ u = if st.current = some i then { t with state := .Dead } else t := by
  cases before : st.tasks i with
  | none =>
    rw [killed_tasks, before] at slot
    split at slot <;> cases slot
  | some t =>
    rw [killed_slot before] at slot
    exact ⟨t, rfl, (Option.some.inj slot).symm⟩

theorem killed_inv (inv : SchedInv st) : SchedInv st.killed := by
  constructor
  · intro i u slot running
    obtain ⟨t, before, rfl⟩ := killed_occupied slot
    rw [killed_current]
    split at running
    · assumption
    · exact inv.running i t before running
  · intro i cur
    rw [killed_current] at cur
    obtain ⟨t, slot, -⟩ := inv.current i cur
    refine ⟨_, killed_slot slot, .inr ?_⟩
    rw [if_pos cur]
  · intro i u slot
    obtain ⟨t, before, rfl⟩ := killed_occupied slot
    have id := inv.id i t before
    split <;> exact id

theorem killed_grows (inv : SchedInv st) : Grows False st st.killed := by
  intro i t slot
  refine ⟨_, killed_slot slot, ?_⟩
  split
  · rename_i cur
    exact ⟨⟨rfl, rfl, rfl, rfl, rfl⟩, fun _ => rfl, fun created _ => absurd created (inv.current_started cur slot)⟩
  · exact .refl False t

/-- A switch after a kill frames what the kill framed. -/
theorem SwitchFrame.of_killed {st' : SchedulerState} (frame : SwitchFrame st.killed st') : SwitchFrame st st' := by
  have other (j : Fin maxTasks) (out : st.current ≠ some j) : st.killed.tasks j = st.tasks j := by
    rw [killed_tasks, if_neg out]
  constructor
  · intro i t cur slot
    have dead := killed_slot slot
    rw [if_pos cur] at dead
    obtain ⟨context, state, after⟩ :=
      frame.outgoing i { t with state := .Dead } (by rw [killed_current]; exact cur) dead
    exact ⟨context, state, after⟩
  · intro i t out new slot
    exact frame.incoming i t (by rw [killed_current]; exact out) new (by rw [other i out]; exact slot)
  · intro i out new
    exact (frame.others i (by rw [killed_current]; exact out) new).trans (other i out)

end Killing

/-! ## Creating -/

/-- The task that `create_task` and `create_task_mmode` put into slot `i`. -/
structure Fresh (task : Fin maxTasks → Task) : Prop where
  state : ∀ i, (task i).state = .Created
  id : ∀ i, (task i).id = ⟨BitVec.ofNat 8 i⟩

theorem fresh_user (entry stackTop : BitVec 64) (regions : List PmpRegion) : Fresh (userTask entry stackTop regions) :=
  ⟨fun _ => rfl, fun _ => rfl⟩

theorem fresh_machine (entry stackTop : BitVec 64) : Fresh (machineTask entry stackTop) :=
  ⟨fun _ => rfl, fun _ => rfl⟩

section Creating

variable {task : Fin maxTasks → Task} {st st' : SchedulerState} {i : Fin maxTasks}

theorem Inserted.inv (inserted : Inserted task st i st') (fresh : Fresh task) (inv : SchedInv st) : SchedInv st' := by
  constructor
  · intro j t slot running
    rw [inserted.tasks] at slot
    rw [inserted.current]
    split at slot
    · obtain rfl := Option.some.inj slot
      rw [fresh.state] at running
      cases running
    · exact inv.running j t slot running
  · intro j cur
    rw [inserted.current] at cur
    obtain ⟨t, slot, state⟩ := inv.current j cur
    have other : j ≠ i := by
      rintro rfl
      rw [inserted.free] at slot
      cases slot
    exact ⟨t, by rw [inserted.tasks, if_neg other]; exact slot, state⟩
  · intro j t slot
    rw [inserted.tasks] at slot
    split at slot
    · rename_i same
      obtain rfl := Option.some.inj slot
      rw [same]
      exact fresh.id i
    · exact inv.id j t slot

theorem Inserted.grows (inserted : Inserted task st i st') : Grows False st st' := by
  intro j t slot
  have other : j ≠ i := by
    rintro rfl
    rw [inserted.free] at slot
    cases slot
  exact ⟨t, by rw [inserted.tasks, if_neg other]; exact slot, .refl False t⟩

theorem schedInit_inv (inv : SchedInv st) : SchedInv (schedInit st) := by
  have back {j : Fin maxTasks} {u : Task} (slot : (schedInit st).tasks j = some u) :
      ∃ t, st.tasks j = some t ∧ u = { t with state := t.state.init } := by
    rw [schedInit_tasks] at slot
    obtain ⟨t, before, rfl⟩ := Option.map_eq_some_iff.mp slot
    exact ⟨t, before, rfl⟩
  constructor
  · intro j u slot running
    obtain ⟨t, before, rfl⟩ := back slot
    apply inv.running j t before
    cases state : t.state <;> simp_all [TaskState.init]
  · intro j cur
    obtain ⟨t, slot, state⟩ := inv.current j cur
    refine ⟨{ t with state := t.state.init }, by rw [schedInit_tasks, slot]; rfl, ?_⟩
    rcases state with h | h
    · exact .inl (by simp [h, TaskState.init])
    · exact .inr (by simp [h, TaskState.init])
  · intro j u slot
    obtain ⟨t, before, rfl⟩ := back slot
    exact inv.id j t before

theorem schedInit_grows (st : SchedulerState) : Grows True st (schedInit st) := by
  intro j t slot
  refine ⟨{ t with state := t.state.init }, by rw [schedInit_tasks, slot]; rfl, ⟨rfl, rfl, rfl, rfl, rfl⟩, ?_, ?_⟩
  · intro dead
    simp [dead, TaskState.init]
  · exact fun _ not => absurd trivial not

end Creating

/-! ## Any sequence of operations -/

/-- The operation makes created tasks ready. -/
def SchedOp.Starts : SchedOp → Prop
  | .init _ => True
  | _ => False

/-- What one operation does. -/
structure SchedOp.Effect (op : SchedOp) (st st' : SchedulerState) : Prop where
  inv : SchedInv st'
  grows : Grows op.Starts st st'
  frame : op.Switches → SwitchFrame st st'

theorem SchedOp.step_effect {st st' : SchedulerState} {op : SchedOp} (step : op.Step st st') (inv : SchedInv st) :
    op.Effect st st' := by
  cases op with
  | createTask csr entry stackTop regions =>
    obtain ⟨⟨id, st₁, csr₁⟩, created, rest⟩ := Outcome.bind_ok.mp step
    cases rest
    obtain ⟨-, i, -, inserted⟩ := createTask_ok created
    exact ⟨inserted.inv (fresh_user entry stackTop regions) inv, inserted.grows, False.elim⟩
  | createTaskMmode csr entry stackTop =>
    obtain ⟨⟨id, st₁, csr₁⟩, created, rest⟩ := Outcome.bind_ok.mp step
    cases rest
    obtain ⟨-, i, -, inserted⟩ := createTaskMmode_ok created
    exact ⟨inserted.inv (fresh_machine entry stackTop) inv, inserted.grows, False.elim⟩
  | init csr =>
    have result : schedInit st = st' := by
      simp only [SchedOp.Step, SchedOp.apply, withLock_eq] at step
      exact Except.ok.inj step
    subst result
    exact ⟨schedInit_inv inv, schedInit_grows st, False.elim⟩
  | schedule s =>
    obtain ⟨r, run, switched⟩ := schedule_ok (s.withTable st)
    have result : r.kernel.sched = st' := by
      simp only [SchedOp.Step, SchedOp.apply, run] at step
      exact Except.ok.inj step
    subst result
    exact ⟨switched.inv inv, switched.grows inv, fun _ => switched.frame⟩
  | killCurrent s =>
    obtain ⟨s', r, run, same, switched⟩ := killCurrent_ok (s.withTable st)
    have result : r.kernel.sched = st' := by
      simp only [SchedOp.Step, SchedOp.apply, run] at step
      exact Except.ok.inj step
    subst result
    have table : s'.kernel.sched = st.killed := same.sched
    have inv' : SchedInv s'.kernel.sched := by
      rw [table]
      exact killed_inv inv
    have grows := switched.grows inv'
    have frame := switched.frame
    rw [table] at grows frame
    refine ⟨switched.inv inv', ?_, fun _ => frame.of_killed⟩
    intro i t slot
    obtain ⟨u, slot', evolves⟩ := (killed_grows inv).trans grows i t slot
    exact ⟨u, slot', evolves.fixed, evolves.dead, fun created _ => evolves.created created (by simp)⟩

theorem schedInv_empty : SchedInv .empty := by
  constructor
  · intro i t slot
    cases slot
  · intro i cur
    cases cur
  · intro i t slot
    cases slot

theorem schedInv_run {ops : List SchedOp} {st st' : SchedulerState} (run : Sim.Run SchedOp.Step st ops st')
    (inv : SchedInv st) : SchedInv st' :=
  run.invariant inv fun _ _ _ inv step => (SchedOp.step_effect step inv).inv

/-- Along a run every task stays in its slot. -/
theorem grows_run {ops : List SchedOp} {st st' : SchedulerState} (run : Sim.Run SchedOp.Step st ops st')
    (inv : SchedInv st) : Grows (∃ op ∈ ops, op.Starts) st st' := by
  induction run with
  | start => exact fun i t slot => ⟨t, slot, .refl _ t⟩
  | @next es t u op before step ih =>
    intro i v slot
    obtain ⟨w, slot', evolves⟩ := ih.trans (SchedOp.step_effect step (schedInv_run before inv)).grows i v slot
    refine ⟨w, slot', evolves.fixed, evolves.dead, fun created not => evolves.created created ?_⟩
    rintro (⟨op', member, starts⟩ | starts)
    · exact not ⟨op', by simp [member], starts⟩
    · exact not ⟨op, by simp, starts⟩

/-- **The scheduler invariant.** From the empty table, after any operations in any order: at most one
task runs and it is the current one; the current one is running or dead; slot `i` holds task `i`, and
keeps it with its fixed parts through any further operations, dead forever once dead and created until
`init`; a switch touches only the outgoing and the incoming task. -/
theorem scheduler_invariant {ops : List SchedOp} {st : SchedulerState}
    (run : Sim.Run SchedOp.Step .empty ops st) :
    SchedInv st ∧
      (∀ i j t u, st.tasks i = some t → st.tasks j = some u → t.state = .Running → u.state = .Running → i = j) ∧
      (∀ (more : List SchedOp) st', Sim.Run SchedOp.Step st more st' → Grows (∃ op ∈ more, op.Starts) st st') ∧
      (∀ (op : SchedOp) st', op.Step st st' → op.Switches → SwitchFrame st st') := by
  have inv := schedInv_run run schedInv_empty
  refine ⟨inv, ?_, fun _ _ later => grows_run later inv, fun op st' step => (SchedOp.step_effect step inv).frame⟩
  intro i j t u slot slot' running running'
  have cur := inv.running i t slot running
  have cur' := inv.running j u slot' running'
  exact Option.some.inj (cur.symm.trans cur')

/-- An idle and a user task are created and started; the user task runs first and is killed. -/
def killScenario : List SchedOp :=
  let s := powerOn.trapState 0 0
  [.createTaskMmode s.csr 0x8000_0200 0x8002_4000, .createTask s.csr 0x8000_8000 0x8002_6000 [], .init s.csr,
    .schedule s, .killCurrent s]

theorem scheduler_invariant_kill : ∃ st, Sim.Run SchedOp.Step .empty killScenario st ∧ SchedInv st := by
  have run : Sim.Run SchedOp.Step .empty killScenario _ := Sim.Run.of_foldlM rfl
  exact ⟨_, run, (scheduler_invariant run).1⟩

end Cyptos
