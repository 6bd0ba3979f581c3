import Cyptos.Kernel.Task
import Cyptos.Kernel.Policy
import Cyptos.Kernel.Timer
import Cyptos.Kernel.Allocator

/-!
# Round-robin scheduler (`sched/scheduler.rs`, `sync/irq_cell.rs`)

The kernel's statics and devices are one `Kernel`; code that runs under a trap also has
the trap frame and the CSRs, a `TrapState`. Indices of the task table are `Fin maxTasks`,
which the table accesses of the source need not to panic.
-/

namespace Cyptos
set_option autoImplicit false
open Riscv

structure SchedulerState where
  current : Option (Fin maxTasks)
  tasks : Fin maxTasks → Option Task

/-- The table at boot: no task, and the bootstrap context executing. -/
def SchedulerState.empty : SchedulerState := ⟨none, fun _ => none⟩

/-- `if let Some(task) = &mut state.tasks[i]` with body `f`. -/
def SchedulerState.modify (state : SchedulerState) (i : Fin maxTasks) (f : Task → Task) : SchedulerState :=
  { state with tasks := Function.update state.tasks i ((state.tasks i).map f) }

/-- The statics of the kernel and the devices it drives. -/
structure Kernel where
  sched : SchedulerState
  pmp : Pmp.Regs
  uart : Uart
  timer : Timer
  heap : BumpAllocator

/-- What a trap handler works on. -/
structure TrapState where
  frame : TrapFrame
  csr : Csrs
  kernel : Kernel

/-- `IrqCell::with_lock`: run `f` with `MIE` clear and restore `MIE` if it was set. -/
def withLock {σ α : Type} (csr : Csrs) (inner : σ) (f : σ → α × σ) : α × σ × Csrs :=
  let mstatus := csr.mstatus
  let csr := { csr with mstatus := csr.mstatus &&& ~~~(1#64 <<< 3) }
  let (result, inner) := f inner
  if mstatus &&& (1#64 <<< 3) ≠ 0 then (result, inner, { csr with mstatus := csr.mstatus ||| (1#64 <<< 3) })
  else (result, inner, csr)

/-! ## Task creation -/

def TaskState.init (s : TaskState) : TaskState := if s = .Created then .Ready else s

/-- `scheduler::init`: every created task becomes ready. -/
def schedInit (state : SchedulerState) : SchedulerState :=
  (List.finRange maxTasks).foldl (fun st i => st.modify i fun t => { t with state := t.state.init }) state

/-- Put `task` into the first free slot. -/
def insertTask (task : Fin maxTasks → Task) (state : SchedulerState) : Outcome TaskId × SchedulerState :=
  match Fin.find? fun i => (state.tasks i).isNone with
  | some i => (.ok ⟨BitVec.ofNat 8 i⟩, { state with tasks := Function.update state.tasks i (some (task i)) })
  | none => (.error "task table full", state)

/-- Copy up to sixteen region descriptors over a configuration. -/
def PmpConfig.copyFrom (cfg : PmpConfig) (regions : List PmpRegion) : PmpConfig :=
  ⟨fun i => regions[i.val]?.getD (cfg.regions i)⟩

/-- The task that `create_task` builds for slot `i`. -/
def userTask (entry stackTop : BitVec 64) (regions : List PmpRegion) (i : Fin maxTasks) : Task :=
  let task := Task.new ⟨BitVec.ofNat 8 i⟩ entry stackTop
  { task with pmpConfig := task.pmpConfig.copyFrom regions }

/-- The task that `create_task_mmode` builds for slot `i`. -/
def machineTask (entry stackTop : BitVec 64) (i : Fin maxTasks) : Task :=
  { Task.new ⟨BitVec.ofNat 8 i⟩ entry stackTop with context := .newMmode entry stackTop }

def createTask (csr : Csrs) (state : SchedulerState) (entry stackTop : BitVec 64) (regions : List PmpRegion) :
    Outcome (TaskId × SchedulerState × Csrs) := do
  let (id, state, csr) := withLock csr state (insertTask (userTask entry stackTop regions))
  return (← id, state, csr)

def createTaskMmode (csr : Csrs) (state : SchedulerState) (entry stackTop : BitVec 64) :
    Outcome (TaskId × SchedulerState × Csrs) := do
  let (id, state, csr) := withLock csr state (insertTask (machineTask entry stackTop))
  return (← id, state, csr)

/-! ## Switching -/

/-- Save the interrupted registers into a task; only a running task becomes ready. -/
def Task.save (task : Task) (frame : TrapFrame) (mepc mstatus : BitVec 64) : Task :=
  { task with
    context := { copyGprFieldsToContext frame task.context with mepc, mstatus }
    state := if task.state = .Running then .Ready else task.state }

/-- Step 1 of `schedule`: save the current task. The bootstrap context is not saved. -/
def saveCurrent (frame : TrapFrame) (mepc mstatus : BitVec 64) (state : SchedulerState) : SchedulerState :=
  match state.current with
  | none => state
  | some current => state.modify current fun t => t.save frame mepc mstatus

def SchedulerState.isReady (state : SchedulerState) (i : Fin maxTasks) : Bool :=
  (state.tasks i).any fun t => t.state == .Ready

/-- Step 3 of `schedule`: the chosen task runs and is current. -/
def SchedulerState.dispatch (state : SchedulerState) (i : Fin maxTasks) : SchedulerState :=
  { state.modify i fun t => { t with state := .Running } with current := some i }

/-- The locked part of `schedule`: save, select, mark, and extract what is needed to switch. -/
def pickNext (frame : TrapFrame) (mepc mstatus : BitVec 64) (state : SchedulerState) :
    Option (Fin maxTasks × (Fin pmpCount → PmpRegion) × TaskContext) × SchedulerState :=
  let current := state.current
  let state := saveCurrent frame mepc mstatus state
  match selectSlot current state.isReady with
  | none => (none, state)
  | some nextIdx =>
    let state := state.dispatch nextIdx
    ((state.tasks nextIdx).map fun t => (nextIdx, t.pmpConfig.regions, t.context), state)

/-- Called on each timer tick, and after a kill: switch to the next ready task. -/
def schedule (s : TrapState) : Outcome TrapState := do
  let mepc := s.csr.mepc
  let mstatus := s.csr.mstatus
  let (target, sched, csr) := withLock s.csr s.kernel.sched (pickNext s.frame mepc mstatus)
  match target with
  | none => return { s with csr, kernel := { s.kernel with sched } }
  | some (nextIdx, regions, ctx) =>
    let uart := Serial.puts s.kernel.uart "[sched] switching to task "
    let uart ← Serial.putDec uart (BitVec.ofNat 64 nextIdx)
    let uart := Serial.puts uart "\n"
    let pmp := loadTaskConfig s.kernel.pmp (List.ofFn regions)
    let frame := copyGprFieldsToFrame ctx s.frame
    let csr := { csr with mepc := ctx.mepc, mstatus := ctx.mstatus }
    return ⟨frame, csr, { s.kernel with sched, pmp, uart }⟩

/-- Mark the current task dead and say so on the console. -/
def markDead (uart : Uart) (state : SchedulerState) : Outcome Uart × SchedulerState :=
  match state.current with
  | none => (.ok uart, state)
  | some current =>
    match state.tasks current with
    | none => (.ok uart, state)
    | some _ =>
      let print : Outcome Uart := do
        let uart ← Serial.putDec (Serial.puts uart "[sched] task killed: ") (BitVec.ofNat 64 current)
        return Serial.puts uart "\n"
      (print, state.modify current fun t => { t with state := .Dead })

/-- Kill the current task and schedule the next ready one. -/
def killCurrent (s : TrapState) : Outcome TrapState := do
  let (uart, sched, csr) := withLock s.csr s.kernel.sched (markDead s.kernel.uart)
  schedule { s with csr, kernel := { s.kernel with sched, uart := ← uart } }

end Cyptos
