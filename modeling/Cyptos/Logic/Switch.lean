import Cyptos.Kernel.Scheduler
import Cyptos.Logic.Selection

/-!
# What the scheduler does

`schedule` never panics and has two outcomes: nothing is ready and only the interrupted task's
save remains, or a ready task is made current with its own context and PMP table. A kill is the
same with the current task marked dead first. Critical sections leave the CSRs as they were.
-/

namespace Cyptos
set_option autoImplicit false
open Riscv

/-- A critical section restores the interrupt state. -/
theorem withLock_eq {σ α : Type} (csr : Csrs) (inner : σ) (f : σ → α × σ) :
    withLock csr inner f = ((f inner).1, (f inner).2, csr) := by
  have parts := clear_or_keep csr.mstatus (1#64 <<< 3)
  have bit : csr.mstatus &&& (1#64 <<< 3) = if csr.mstatus.getLsbD 3 then 1#64 <<< 3 else 0#64 :=
    BitVec.and_twoPow csr.mstatus 3
  simp only [withLock]
  rw [bit] at parts ⊢
  cases set : csr.mstatus.getLsbD 3 with
  | true =>
    simp only [set, if_true] at parts
    rw [if_pos rfl, if_pos (by decide), parts]
  | false =>
    simp only [set, Bool.false_eq_true, if_false, BitVec.or_zero] at parts
    rw [parts, if_neg (by decide)]

/-! ## Slots -/

section Slots

variable (st : SchedulerState) (f : Task → Task) (i j : Fin maxTasks)

theorem modify_tasks :
    (st.modify i f).tasks j = if j = i then (st.tasks j).map f else st.tasks j := by
  by_cases same : j = i
  · subst same
    simp [SchedulerState.modify]
  · simp [SchedulerState.modify, same]

@[simp] theorem modify_current : (st.modify i f).current = st.current := rfl

theorem dispatch_tasks :
    (st.dispatch i).tasks j = if j = i then (st.tasks j).map fun t => { t with state := .Running } else st.tasks j :=
  modify_tasks st _ i j

@[simp] theorem dispatch_current : (st.dispatch i).current = some i := rfl

theorem saveCurrent_tasks (frame : TrapFrame) (mepc mstatus : BitVec 64) :
    (saveCurrent frame mepc mstatus st).tasks j =
      if st.current = some j then (st.tasks j).map fun t => t.save frame mepc mstatus else st.tasks j := by
  unfold saveCurrent
  cases cur : st.current with
  | none => simp
  | some c =>
    simp only [modify_tasks, Option.some.injEq]
    by_cases same : j = c
    · simp [same]
    · simp [same, Ne.symm same]

@[simp] theorem saveCurrent_current (frame : TrapFrame) (mepc mstatus : BitVec 64) :
    (saveCurrent frame mepc mstatus st).current = st.current := by
  unfold saveCurrent
  cases cur : st.current with
  | none => exact cur
  | some c => exact cur

theorem isReady_iff : st.isReady i = true ↔ ∃ t, st.tasks i = some t ∧ t.state = .Ready := by
  unfold SchedulerState.isReady
  cases st.tasks i with
  | none => simp
  | some t => simp

end Slots

/-! ## Contexts -/

/-- The context of registers `frame`, program counter `mepc` and status `mstatus`. -/
def TaskContext.of (frame : TrapFrame) (mepc mstatus : BitVec 64) : TaskContext :=
  copyGprFieldsToContext frame { TaskContext.newUmode 0 0 with mepc, mstatus }

/-- The registers of a context. -/
def TaskContext.frame (c : TaskContext) : TrapFrame := copyGprFieldsToFrame c (TrapFrame.ofRegs fun _ => 0)

@[simp] theorem of_frame (f : TrapFrame) (mepc mstatus : BitVec 64) : (TaskContext.of f mepc mstatus).frame = f := rfl

@[simp] theorem of_mepc (f : TrapFrame) (mepc mstatus : BitVec 64) : (TaskContext.of f mepc mstatus).mepc = mepc := rfl

@[simp] theorem of_mstatus (f : TrapFrame) (mepc mstatus : BitVec 64) :
    (TaskContext.of f mepc mstatus).mstatus = mstatus := rfl

/-- Saving a task replaces its whole context. -/
theorem save_eq (t : Task) (frame : TrapFrame) (mepc mstatus : BitVec 64) :
    t.save frame mepc mstatus =
      { t with context := .of frame mepc mstatus, state := if t.state = .Running then .Ready else t.state } := rfl

/-! ## Scheduling -/

/-- The table after the current task has been saved. -/
def TrapState.saved (s : TrapState) : SchedulerState := saveCurrent s.frame s.csr.mepc s.csr.mstatus s.kernel.sched

/-- The outcomes of `schedule`. -/
inductive Switched (s : TrapState) : TrapState → Prop
  | idle (none : selectSlot s.kernel.sched.current s.saved.isReady = none) :
      Switched s { s with kernel := { s.kernel with sched := s.saved } }
  | switch {i : Fin maxTasks} {t : Task} (uart : Uart)
      (chosen : selectSlot s.kernel.sched.current s.saved.isReady = some i) (slot : s.saved.tasks i = some t) :
      Switched s ⟨t.context.frame, { s.csr with mepc := t.context.mepc, mstatus := t.context.mstatus },
        { s.kernel with
          sched := s.saved.dispatch i
          pmp := loadTaskConfig s.kernel.pmp (List.ofFn t.pmpConfig.regions)
          uart := uart }⟩

/-- `schedule` always returns. -/
theorem schedule_ok (s : TrapState) : ∃ r, schedule s = .ok r ∧ Switched s r := by
  cases chosen : selectSlot s.kernel.sched.current s.saved.isReady with
  | none =>
    have pick : pickNext s.frame s.csr.mepc s.csr.mstatus s.kernel.sched = (none, s.saved) := by
      simp only [TrapState.saved] at chosen ⊢
      simp only [pickNext, chosen]
    refine ⟨_, ?_, .idle chosen⟩
    simp only [schedule, withLock_eq, pick]
    rfl
  | some i =>
    obtain ⟨t, slot, -⟩ := (isReady_iff s.saved i).mp (selectSlot_ready (by decide) chosen)
    have pick : pickNext s.frame s.csr.mepc s.csr.mstatus s.kernel.sched =
        (some (i, t.pmpConfig.regions, t.context), s.saved.dispatch i) := by
      have running : (s.saved.dispatch i).tasks i = some { t with state := .Running } := by
        rw [dispatch_tasks, if_pos rfl, slot]
        rfl
      simp only [TrapState.saved] at chosen running ⊢
      simp only [pickNext, chosen, running]
      rfl
    obtain ⟨uart, printed⟩ :
        ∃ uart, Serial.putDec (Serial.puts s.kernel.uart "[sched] switching to task ") (BitVec.ofNat 64 i) = .ok uart :=
      ⟨_, Serial.putDec_task _ i⟩
    refine ⟨_, ?_, .switch (Serial.puts uart "\n") chosen slot⟩
    simp only [schedule, withLock_eq, pick]
    rw [printed]
    rfl

/-! ## Killing -/

/-- The table with the current task dead. -/
def SchedulerState.killed (st : SchedulerState) : SchedulerState :=
  match st.current with
  | none => st
  | some c => st.modify c fun t => { t with state := .Dead }

@[simp] theorem killed_current (st : SchedulerState) : st.killed.current = st.current := by
  unfold SchedulerState.killed
  cases cur : st.current with
  | none => exact cur
  | some c => exact cur

theorem killed_tasks (st : SchedulerState) (j : Fin maxTasks) :
    st.killed.tasks j =
      if st.current = some j then (st.tasks j).map fun t => { t with state := .Dead } else st.tasks j := by
  unfold SchedulerState.killed
  cases cur : st.current with
  | none => simp
  | some c =>
    simp only [modify_tasks, Option.some.injEq]
    by_cases same : j = c
    · simp [same]
    · simp [same, Ne.symm same]

/-- Trap states that differ in console, timer and heap only. -/
structure TrapState.SameCore (s s' : TrapState) : Prop where
  frame : s'.frame = s.frame
  csr : s'.csr = s.csr
  sched : s'.kernel.sched = s.kernel.sched
  pmp : s'.kernel.pmp = s.kernel.pmp

/-- The trap state with the current task dead. -/
def TrapState.killed (s : TrapState) : TrapState :=
  { s with kernel := { s.kernel with sched := s.kernel.sched.killed } }

theorem markDead_ok (uart : Uart) (st : SchedulerState) : ∃ uart', markDead uart st = (.ok uart', st.killed) := by
  unfold markDead SchedulerState.killed
  cases cur : st.current with
  | none => exact ⟨uart, rfl⟩
  | some c =>
    cases slot : st.tasks c with
    | none =>
      have same : st.modify c (fun t => { t with state := .Dead }) = st := by
        simp only [SchedulerState.modify, slot, Option.map_none]
        rw [← slot, Function.update_eq_self]
      exact ⟨uart, by simp only [slot, same]⟩
    | some t =>
      have printed := Serial.putDec_task (Serial.puts uart "[sched] task killed: ") c
      simp only [slot, printed]
      exact ⟨_, rfl⟩

/-- `kill_current` always returns, as `schedule` does with the current task dead. -/
theorem killCurrent_ok (s : TrapState) : ∃ s' r, killCurrent s = .ok r ∧ s.killed.SameCore s' ∧ Switched s' r := by
  obtain ⟨uart, mark⟩ := markDead_ok s.kernel.uart s.kernel.sched
  let s' : TrapState := { s with kernel := { s.kernel with sched := s.kernel.sched.killed, uart := uart } }
  obtain ⟨r, run, switched⟩ := schedule_ok s'
  refine ⟨s', r, ?_, ⟨rfl, rfl, rfl, rfl⟩, switched⟩
  simp only [killCurrent, withLock_eq, mark]
  exact run

/-! ## Creating -/

/-- A task was put into the first free slot `i`. -/
structure Inserted (task : Fin maxTasks → Task) (st : SchedulerState) (i : Fin maxTasks) (st' : SchedulerState) : Prop where
  free : st.tasks i = none
  first : ∀ j < i, (st.tasks j).isSome = true
  result : st' = { st with tasks := Function.update st.tasks i (some (task i)) }

theorem insertTask_ok {task : Fin maxTasks → Task} {st st' : SchedulerState} {id : TaskId}
    (inserted : insertTask task st = (.ok id, st')) : ∃ i : Fin maxTasks, id = ⟨BitVec.ofNat 8 i⟩ ∧ Inserted task st i st' := by
  unfold insertTask at inserted
  split at inserted
  · rename_i i found
    obtain ⟨free, before⟩ := Fin.find?_eq_some_iff.mp found
    cases inserted
    refine ⟨i, rfl, Option.isNone_iff_eq_none.mp free, ?_, rfl⟩
    intro j earlier
    have occupied := before j earlier
    rw [← Option.not_isNone, occupied]
    rfl
  · cases inserted

theorem createTask_ok {csr csr' : Csrs} {st st' : SchedulerState} {entry stackTop : BitVec 64}
    {regions : List PmpRegion} {id : TaskId} (created : createTask csr st entry stackTop regions = .ok (id, st', csr')) :
    csr' = csr ∧ ∃ i : Fin maxTasks, id = ⟨BitVec.ofNat 8 i⟩ ∧ Inserted (userTask entry stackTop regions) st i st' := by
  simp only [createTask, withLock_eq] at created
  obtain ⟨id', ok, rest⟩ := Outcome.bind_ok.mp created
  cases rest
  exact ⟨rfl, insertTask_ok (Prod.ext ok rfl)⟩

theorem createTaskMmode_ok {csr csr' : Csrs} {st st' : SchedulerState} {entry stackTop : BitVec 64} {id : TaskId}
    (created : createTaskMmode csr st entry stackTop = .ok (id, st', csr')) :
    csr' = csr ∧ ∃ i : Fin maxTasks, id = ⟨BitVec.ofNat 8 i⟩ ∧ Inserted (machineTask entry stackTop) st i st' := by
  simp only [createTaskMmode, withLock_eq] at created
  obtain ⟨id', ok, rest⟩ := Outcome.bind_ok.mp created
  cases rest
  exact ⟨rfl, insertTask_ok (Prod.ext ok rfl)⟩

theorem Inserted.tasks {task : Fin maxTasks → Task} {st st' : SchedulerState} {i : Fin maxTasks}
    (inserted : Inserted task st i st') (j : Fin maxTasks) :
    st'.tasks j = if j = i then some (task i) else st.tasks j := by
  rw [inserted.result]
  exact Function.update_apply _ _ _ _

theorem Inserted.current {task : Fin maxTasks → Task} {st st' : SchedulerState} {i : Fin maxTasks}
    (inserted : Inserted task st i st') : st'.current = st.current := by
  rw [inserted.result]

theorem schedInit_tasks (st : SchedulerState) (j : Fin maxTasks) :
    (schedInit st).tasks j = (st.tasks j).map fun t => { t with state := t.state.init } := by
  fin_cases j <;> rfl

@[simp] theorem schedInit_current (st : SchedulerState) : (schedInit st).current = st.current := rfl

end Cyptos
