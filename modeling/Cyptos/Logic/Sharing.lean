import Cyptos.Logic.Console
import Cyptos.Logic.Waiting
import Cyptos.Sim.Refine

/-!
# Time sharing

What the kernel is for, without its tables, frames and saved contexts: every task has a processor of
its own, one of the tasks runs, and a task acts on its own processor and on the console. The machine
refines this system. So what a task does between boot and any later moment is a run of its own
processor, whatever the other tasks do and wherever it is interrupted.
-/

namespace Cyptos
set_option autoImplicit false
open Riscv Sim

/-! ## The abstract system -/

/-- The processor of one task. -/
structure Processor where
  x : Reg → BitVec 64
  pc : BitVec 64
  alive : Bool

/-- What a task does. -/
inductive Act
  /-- Instructions that do not trap. -/
  | compute (x : Reg → BitVec 64) (pc : BitVec 64)
  /-- `SYS_GETC`, with the byte that it is given if there is one. -/
  | read (byte : Option (BitVec 8))
  /-- `SYS_PUTC`. -/
  | write (byte : BitVec 8)
  /-- A breakpoint or another environment call, which is stepped over. -/
  | skip
  /-- An access fault. -/
  | crash

inductive Processor.Step (p : Processor) : Act → Processor → Prop
  | compute (x : Reg → BitVec 64) (pc : BitVec 64) (alive : p.alive = true) : p.Step (.compute x pc) { p with x, pc }
  | read (byte : Option (BitVec 8)) (alive : p.alive = true) (asks : p.x .a7 = sysGetc) :
      p.Step (.read byte)
        { p with x := Function.update p.x .a0 ((byte.getD 0xFF).setWidth 64), pc := p.pc + 4 }
  | write (alive : p.alive = true) (sends : p.x .a7 = sysPutc) :
      p.Step (.write ((p.x .a0).setWidth 8)) { p with pc := p.pc + 4 }
  | skip (alive : p.alive = true) : p.Step .skip { p with pc := p.pc + 4 }
  | crash (alive : p.alive = true) : p.Step .crash { p with alive := false }

/-- The tasks, the one that runs unless it is still the bootstrap context, and the console. -/
@[ext]
structure Sharing where
  tasks : Fin maxTasks → Processor
  running : Option (Fin maxTasks)
  input : List (BitVec 8)
  output : List (BitVec 8)

inductive Label
  | act (who : Option (Fin maxTasks)) (a : Act)
  | switch (next : Fin maxTasks)
  | receive (bytes : List (BitVec 8))
  /-- The kernel writes to the console. -/
  | print (bytes : List (BitVec 8))

/-- A read is given the first byte that is waiting. -/
def Act.Answered (input : List (BitVec 8)) : Act → Prop
  | .read byte => byte = input.head?
  | _ => True

/-- The input that an act leaves. -/
def Act.leaves (input : List (BitVec 8)) : Act → List (BitVec 8)
  | .read _ => input.tail
  | _ => input

/-- What an act sends. -/
def Act.says : Act → List (BitVec 8)
  | .write byte => [byte]
  | _ => []

def Sharing.serve (s : Sharing) (a : Act) : Sharing := { s with input := a.leaves s.input, output := s.output ++ a.says }

/-- Whose turn it is: the nearest live task behind the running one, the idle task only if no other lives. -/
structure Turn (alive : Fin maxTasks → Bool) (running : Option (Fin maxTasks)) (j : Fin maxTasks) : Prop where
  lives : alive j = true
  nearest : ∀ k : Fin maxTasks, k.val ≠ idleTaskIndex → alive k = true → j.val ≠ idleTaskIndex ∧
    (j = k ∨ cyclicDistance maxTasks ((position running + 1) % maxTasks) j <
      cyclicDistance maxTasks ((position running + 1) % maxTasks) k)

inductive Sharing.Step (s : Sharing) : Label → Sharing → Prop
  | own {i : Fin maxTasks} {a : Act} {p : Processor} (turn : s.running = some i) (step : (s.tasks i).Step a p)
      (answered : a.Answered s.input) :
      s.Step (.act (some i) a) { s.serve a with tasks := Function.update s.tasks i p }
  | bootstrap {a : Act} (turn : s.running = none) (answered : a.Answered s.input) : s.Step (.act none a) (s.serve a)
  | switch {j : Fin maxTasks} (turn : Turn (fun i => (s.tasks i).alive) s.running j) :
      s.Step (.switch j) { s with running := some j }
  | receive (bytes : List (BitVec 8)) : s.Step (.receive bytes) { s with input := s.input ++ bytes }
  | print (bytes : List (BitVec 8)) : s.Step (.print bytes) { s with output := s.output ++ bytes }

/-- Switches and the kernel's own messages are not shown. -/
def Label.visible : Label → Bool
  | .act _ _ | .receive _ => true
  | .switch _ | .print _ => false

/-- What task `i` does. -/
def Label.ofTask (i : Fin maxTasks) : Label → Option Act
  | .act (some j) a => if j = i then some a else none
  | _ => none

/-- The byte that a label takes from the input. -/
def Label.taken : Label → List (BitVec 8)
  | .act _ (.read byte) => byte.toList
  | _ => []

/-- The bytes that arrive with a label. -/
def Label.arrived : Label → List (BitVec 8)
  | .receive bytes => bytes
  | _ => []

/-- The byte that a task sends with a label. -/
def Label.sent : Label → List (BitVec 8)
  | .act _ a => a.says
  | _ => []

/-! ## What the abstract system guarantees -/

section Abstract

variable {s t : Sharing} {ls : List Label}

/-- A task's own acts are a run of its processor. -/
theorem Sharing.own_run (run : Run Sharing.Step s ls t) (i : Fin maxTasks) :
    Run Processor.Step (s.tasks i) (ls.filterMap (Label.ofTask i)) (t.tasks i) := by
  refine run.project (fun s => s.tasks i) (Label.ofTask i) ?_ ?_
  · intro s e t b step labelled
    cases step with
    | @own j a p turn step answered =>
      simp only [Label.ofTask] at labelled
      split at labelled
      · rename_i same
        subst same
        obtain rfl := Option.some.inj labelled
        simpa using step
      · cases labelled
    | _ => cases labelled
  · intro s e t step labelled
    cases step with
    | @own j a p turn step answered =>
      simp only [Label.ofTask] at labelled
      split at labelled
      · cases labelled
      · rename_i other
        exact Function.update_of_ne (Ne.symm other) _ _
    | _ => rfl

theorem Sharing.Step.input {l : Label} (step : s.Step l t) : s.input ++ l.arrived = l.taken ++ t.input := by
  have served {a : Act} (who : Option (Fin maxTasks)) (answered : a.Answered s.input) :
      s.input ++ (Label.act who a).arrived = (Label.act who a).taken ++ a.leaves s.input := by
    refine (List.append_nil _).trans ?_
    cases a with
    | read byte =>
      rw [show byte = s.input.head? from answered]
      cases s.input with
      | nil => rfl
      | cons c rest => rfl
    | compute x pc => rfl
    | write byte => rfl
    | skip => rfl
    | crash => rfl
  cases step with
  | own turn step answered => exact served _ answered
  | bootstrap turn answered => exact served _ answered
  | switch turn => exact List.append_nil _
  | receive bytes => rfl
  | print bytes => exact List.append_nil _

/-- Every byte that arrives is read once, in order, or still waits. -/
theorem Sharing.input_run (run : Run Sharing.Step s ls t) :
    s.input ++ ls.flatMap Label.arrived = ls.flatMap Label.taken ++ t.input := by
  induction run with
  | start => simp
  | @next ls t u l _ step ih =>
    rw [List.flatMap_append, List.flatMap_append, List.flatMap_singleton, List.flatMap_singleton, ← List.append_assoc,
      ih, List.append_assoc, List.append_assoc, step.input]

/-- Every byte that a task sends goes out once, in order. -/
theorem Sharing.output_run (run : Run Sharing.Step s ls t) :
    (s.output ++ ls.flatMap Label.sent).Sublist t.output := by
  induction run with
  | start => simp
  | @next ls t u l _ step ih =>
    rw [List.flatMap_append, List.flatMap_singleton, ← List.append_assoc]
    have more {rest : List (BitVec 8)} : (s.output ++ ls.flatMap Label.sent ++ rest).Sublist (t.output ++ rest) :=
      ih.append_right rest
    cases step with
    | own turn step answered => exact more
    | bootstrap turn answered => exact more
    | switch turn => simpa [Label.sent] using ih
    | receive bytes => simpa [Label.sent] using ih
    | print bytes => simpa [Label.sent] using ih.trans (List.sublist_append_left _ _)

/-- Nothing arrives, is taken or is sent by a task with a hidden label. -/
theorem hidden_silent {l : Label} (hidden : l.visible = false) : l.arrived = [] ∧ l.taken = [] ∧ l.sent = [] := by
  cases l with
  | act who a => cases hidden
  | receive bytes => cases hidden
  | switch next => exact ⟨rfl, rfl, rfl⟩
  | print bytes => exact ⟨rfl, rfl, rfl⟩

theorem flatMap_visible {β : Type} (f : Label → List β) (hidden : ∀ l, l.visible = false → f l = []) (ls : List Label) :
    (ls.filter Label.visible).flatMap f = ls.flatMap f := by
  induction ls with
  | nil => rfl
  | cons l ls ih =>
    cases seen : l.visible with
    | true => rw [List.filter_cons_of_pos seen, List.flatMap_cons, List.flatMap_cons, ih]
    | false =>
      rw [List.filter_cons_of_neg (by rw [seen]; decide), List.flatMap_cons, hidden l seen, ih]
      rfl

theorem ofTask_visible (i : Fin maxTasks) (ls : List Label) :
    (ls.filter Label.visible).filterMap (Label.ofTask i) = ls.filterMap (Label.ofTask i) := by
  rw [List.filterMap_filter]
  congr 1
  funext l
  cases l <;> rfl

end Abstract

/-! ## The machine as such a system -/

def Task.alive (t : Task) : Bool := decide (t.state ≠ .Dead)

def Task.processor (t : Task) : Processor := ⟨t.context.frame.reg, t.context.mepc, t.alive⟩

/-- The processor of the task in slot `i`: the hart while the task is current, else its saved context. -/
def Machine.processor (m : Machine) (i : Fin maxTasks) : Processor :=
  match m.kernel.sched.tasks i with
  | none => ⟨fun _ => 0, 0, false⟩
  | some t =>
    if m.kernel.sched.current = some i then ⟨m.hart.x, m.hart.pc, t.alive⟩ else t.processor

def Machine.sharing (m : Machine) : Sharing where
  tasks := m.processor
  running := m.kernel.sched.current
  input := m.kernel.uart.rx
  output := m.kernel.uart.tx

/-- What the current task does in an event. -/
def Machine.act (m : Machine) : Event → Option Act
  | .exec x pc _ => some (.compute x pc)
  | .trap cause tval _ =>
    if AsksByte m.hart cause then some (.read m.kernel.uart.rx.head?)
    else if SendsByte m.hart cause then some (.write ((m.hart.x .a0).setWidth 8))
    else if m.response cause tval = .kill then some .crash
    else if isInterrupt cause then none
    else some .skip
  | _ => none

/-- What an event shows. -/
def Machine.shown (m : Machine) : Event → List Label
  | .device rx _ => [.receive rx]
  | e => (m.act e).toList.map (.act m.kernel.sched.current)

/-! ## Processors across a trap -/

/-- The table has a live task in slot `i`. -/
def SchedulerState.alive (st : SchedulerState) (i : Fin maxTasks) : Bool := (st.tasks i).any Task.alive

/-- The processor of task `i` as the trap that is being taken has to leave it. -/
def Machine.owed (m : Machine) (cause : BitVec 64) (i : Fin maxTasks) : Processor :=
  if m.kernel.sched.current = some i then ⟨(m.snapshot cause).x, (m.snapshot cause).pc, (m.processor i).alive⟩
  else m.processor i

section Processors

variable {m m' : Machine} {cause tval : BitVec 64} {i : Fin maxTasks}

theorem processor_slot {t : Task} (slot : m.kernel.sched.tasks i = some t) :
    m.processor i =
      if m.kernel.sched.current = some i then ⟨m.hart.x, m.hart.pc, t.alive⟩ else t.processor := by
  simp only [Machine.processor, slot]

theorem processor_free (slot : m.kernel.sched.tasks i = none) : m.processor i = ⟨fun _ => 0, 0, false⟩ := by
  simp only [Machine.processor, slot]

theorem processor_alive (m : Machine) (i : Fin maxTasks) : (m.processor i).alive = m.kernel.sched.alive i := by
  cases slot : m.kernel.sched.tasks i with
  | none =>
    rw [processor_free slot, SchedulerState.alive, slot]
    rfl
  | some t =>
    rw [processor_slot slot, SchedulerState.alive, slot]
    split <;> rfl

/-- The current task's processor is the hart. -/
theorem processor_current (inv : SchedInv m.kernel.sched) (cur : m.kernel.sched.current = some i) :
    m.processor i = ⟨m.hart.x, m.hart.pc, m.kernel.sched.alive i⟩ := by
  obtain ⟨t, slot, -⟩ := inv.current i cur
  have same := processor_alive m i
  rw [processor_slot slot, if_pos cur] at same ⊢
  rw [← same]

/-- With the table unchanged only the current task's processor can move. -/
theorem processor_same_table (sched : m'.kernel.sched = m.kernel.sched) (inv : SchedInv m.kernel.sched)
    (i : Fin maxTasks) :
    m'.processor i =
      if m.kernel.sched.current = some i then ⟨m'.hart.x, m'.hart.pc, (m.processor i).alive⟩ else m.processor i := by
  split
  · rename_i cur
    rw [processor_current (by rw [sched]; exact inv) (by rw [sched]; exact cur), processor_alive, sched]
  · rename_i other
    cases slot : m.kernel.sched.tasks i with
    | none => rw [processor_free slot, processor_free (by rw [sched]; exact slot)]
    | some t =>
      rw [processor_slot slot, if_neg other, processor_slot (by rw [sched]; exact slot), sched, if_neg other]

theorem Switched.free_iff {s r : TrapState} (switched : Switched s r) (inv : SchedInv s.kernel.sched)
    (i : Fin maxTasks) : r.kernel.sched.tasks i = none ↔ s.kernel.sched.tasks i = none := by
  refine ⟨fun free => ?_, switched.free⟩
  cases slot : s.kernel.sched.tasks i with
  | none => rfl
  | some t =>
    obtain ⟨u, after, -⟩ := switched.grows inv i t slot
    rw [free] at after
    cases after

theorem save_alive (t : Task) (frame : TrapFrame) (mepc mstatus : BitVec 64) :
    (t.save frame mepc mstatus).alive = t.alive := by
  rw [save_eq]
  unfold Task.alive
  cases state : t.state <;> simp

/-- A switch neither kills nor revives. -/
theorem Switched.alive {s r : TrapState} (switched : Switched s r) (i : Fin maxTasks) :
    r.kernel.sched.alive i = s.kernel.sched.alive i := by
  have saved (i : Fin maxTasks) : s.saved.alive i = s.kernel.sched.alive i := by
    unfold SchedulerState.alive
    cases slot : s.kernel.sched.tasks i with
    | none =>
      rw [TrapState.saved, saveCurrent_tasks, slot]
      split <;> rfl
    | some t =>
      rw [saved_slot slot]
      split
      · exact save_alive t _ _ _
      · rfl
  cases switched with
  | idle none => exact saved i
  | @switch j t uart chosen slot =>
    refine Eq.trans ?_ (saved i)
    have ready := chosen_ready chosen slot
    have after := dispatch_tasks s.saved j i
    change (s.saved.dispatch j).alive i = s.saved.alive i
    unfold SchedulerState.alive
    rw [after]
    split
    · rename_i same
      subst same
      rw [slot]
      simp [Task.alive, ready]
    · rfl

/-- Killing affects the current task only. -/
theorem killed_alive (st : SchedulerState) (i : Fin maxTasks) :
    st.killed.alive i = if st.current = some i then false else st.alive i := by
  unfold SchedulerState.alive
  cases slot : st.tasks i with
  | none =>
    rw [killed_tasks, slot]
    split <;> rfl
  | some t =>
    rw [killed_slot slot]
    split
    · rfl
    · rfl

/-- After a reschedule every processor is the saved one, also that of the task that goes on. -/
theorem Rescheduled.at_rest {base : SchedulerState} {s r : TrapState} {u : Task}
    (resched : Rescheduled m cause tval base m' s r) (same : SameContexts m.kernel.sched base)
    (slot : m'.kernel.sched.tasks i = some u) : m'.processor i = u.processor := by
  rw [processor_slot slot]
  split
  · rename_i cur
    have resumed : Resumed m'.hart u.context := by
      rcases resched.resumes same with ⟨kept, hart⟩ | ⟨j, t, new, here, -, hart⟩
      · obtain ⟨t, -, context⟩ := resched.saves same slot
        rw [context, if_pos (kept ▸ cur)]
        exact hart
      · rw [new] at cur
        obtain rfl := Option.some.inj cur
        rw [slot] at here
        obtain rfl := Option.some.inj here
        exact hart
    rw [resumed.x, resumed.pc]
    rfl
  · rfl

/-- `base` has the contexts of `st` in the same slots. -/
structure SameSlots (st base : SchedulerState) : Prop extends SameContexts st base where
  free : ∀ i, st.tasks i = none → base.tasks i = none
  occupied : ∀ i t, st.tasks i = some t → ∃ t', base.tasks i = some t'

theorem SameSlots.refl (st : SchedulerState) : SameSlots st st := ⟨.refl st, fun _ h => h, fun _ t h => ⟨t, h⟩⟩

theorem killed_sameSlots (st : SchedulerState) : SameSlots st st.killed := by
  refine ⟨killed_sameContexts st, fun i free => ?_, fun i t slot => ⟨_, killed_slot slot⟩⟩
  rw [killed_tasks, free]
  split <;> rfl

/-- A reschedule leaves every processor as owed, but for the task that it has killed. -/
theorem Rescheduled.processor {base : SchedulerState} {s r : TrapState} (resched : Rescheduled m cause tval base m' s r)
    (same : SameSlots m.kernel.sched base) (inv : SchedInv m.kernel.sched) (baseInv : SchedInv base)
    (i : Fin maxTasks) : m'.processor i = ⟨(m.owed cause i).x, (m.owed cause i).pc, base.alive i⟩ := by
  have inv' : SchedInv s.kernel.sched := by
    rw [resched.sched]
    exact baseInv
  have alive : m'.kernel.sched.alive i = base.alive i := by
    rw [resched.kernel, resched.switched.alive, resched.sched]
  have free := resched.switched.free_iff inv' i
  rw [← resched.kernel, resched.sched] at free
  cases before : m.kernel.sched.tasks i with
  | none =>
    have none := same.free i before
    have other : m.kernel.sched.current ≠ some i := by
      intro cur
      obtain ⟨t, slot, -⟩ := inv.current i cur
      rw [before] at slot
      cases slot
    rw [processor_free (free.mpr none), Machine.owed, if_neg other, processor_free before, SchedulerState.alive, none]
    rfl
  | some t =>
    obtain ⟨u, slot⟩ : ∃ u, m'.kernel.sched.tasks i = some u := by
      cases after : m'.kernel.sched.tasks i with
      | some u => exact ⟨u, rfl⟩
      | none =>
        obtain ⟨t', here⟩ := same.occupied i t before
        rw [free.mp after] at here
        cases here
    obtain ⟨t', before', context⟩ := resched.saves same.toSameContexts slot
    rw [before] at before'
    obtain rfl := Option.some.inj before'
    have owed : u.context.snapshot.x = (m.owed cause i).x ∧ u.context.snapshot.pc = (m.owed cause i).pc := by
      rw [context, Machine.owed]
      split
      · rw [reply_snapshot]
        exact ⟨rfl, rfl⟩
      · rename_i other
        rw [processor_slot before, if_neg other]
        exact ⟨rfl, rfl⟩
    rw [← alive, ← processor_alive, resched.at_rest same.toSameContexts slot, ← owed.1, ← owed.2]
    rfl

/-- A trap that stays leaves every processor as owed. -/
theorem stay_processor (sched : m'.kernel.sched = m.kernel.sched) (inv : SchedInv m.kernel.sched)
    (hart : Resumed m'.hart (m.reply cause tval)) (i : Fin maxTasks) : m'.processor i = m.owed cause i := by
  have restored := hart.restored
  rw [reply_snapshot] at restored
  rw [processor_same_table sched inv, Machine.owed, restored.x, restored.pc]

/-- The trap is stepped over: a breakpoint or an environment call. -/
def Calls (cause : BitVec 64) : Prop := isInterrupt cause = false ∧ (causeCode cause).toNat ∈ [3, 8, 9, 11]

theorem AsksByte.calls (asks : AsksByte m.hart cause) : Calls cause := ⟨asks.1, by rw [asks.2.1]; decide⟩

theorem SendsByte.calls (sends : SendsByte m.hart cause) : Calls cause := ⟨sends.1, by rw [sends.2.1]; decide⟩

/-- An exception that the handler returns from to the same task is stepped over. -/
theorem resumed_calls (response : m.response cause tval = .resume) (exception : isInterrupt cause = false) :
    Calls cause := by
  refine ⟨exception, ?_⟩
  by_contra other
  have mcause : (m.trapState cause tval).csr.mcause = cause := by
    rw [trapState_eq]
    rfl
  rw [Machine.response, TrapState.response, mcause, respond_exception exception rfl] at response
  simp only [List.mem_cons, List.not_mem_nil, or_false, not_or] at other
  unfold respondException at response
  split at response
  all_goals first
    | omega
    | (split at response <;> cases response)
    | cases response

theorem snapshot_x_plain (plain : ¬ AsksByte m.hart cause) : (m.snapshot cause).x = m.hart.x := if_neg plain

theorem snapshot_x_byte (asks : AsksByte m.hart cause) :
    (m.snapshot cause).x = Function.update m.hart.x .a0 ((m.kernel.uart.rx.head?.getD 0xFF).setWidth 64) := by
  have answer : (Serial.tryGetc m.kernel.uart).1 = m.kernel.uart.rx.head? := by
    unfold Serial.tryGetc
    cases m.kernel.uart.rx with
    | nil => rfl
    | cons c rest => rfl
  rw [← answer]
  exact if_pos asks

/-- A trap that is not stepped over owes its task what it had. -/
theorem owed_same (inv : SchedInv m.kernel.sched) (same : ¬ Calls cause) (i : Fin maxTasks) :
    m.owed cause i = m.processor i := by
  have pc : (m.snapshot cause).pc = m.hart.pc := if_neg same
  unfold Machine.owed
  split
  · rename_i cur
    rw [processor_current inv cur, snapshot_x_plain fun asks => same asks.calls, pc]
  · rfl

/-- What a trap does to every processor. -/
theorem trap_processor (trapped : Trapped m cause tval m') (inv : SchedInv m.kernel.sched) (i : Fin maxTasks) :
    m'.processor i = ⟨(m.owed cause i).x, (m.owed cause i).pc,
      if m.response cause tval = .kill ∧ m.kernel.sched.current = some i then false else m.kernel.sched.alive i⟩ := by
  have lives : (m.owed cause i).alive = m.kernel.sched.alive i := by
    rw [← processor_alive]
    unfold Machine.owed
    split
    · rfl
    · rfl
  cases trapped with
  | stay response sched pmp hart =>
    rw [stay_processor sched inv hart, if_neg (by rw [response]; exact fun both => by cases both.1), ← lives]
  | preempt response resched =>
    rw [resched.processor (.refl _) inv inv, if_neg (by rw [response]; exact fun both => by cases both.1)]
  | kill response resched =>
    rw [resched.processor (killed_sameSlots _) inv (killed_inv inv), killed_alive]
    simp only [response, true_and]

/-- What is owed to a task that is stepped over a call. -/
theorem owed_call (cur : m.kernel.sched.current = some i) (call : Calls cause) :
    m.owed cause i = ⟨(m.snapshot cause).x, m.hart.pc + 4, (m.processor i).alive⟩ := by
  have pc : (m.snapshot cause).pc = m.hart.pc + 4 := if_pos call
  rw [Machine.owed, if_pos cur, pc]

/-- The calls of the current task are steps of its processor. -/
theorem owed_step {a : Act} {clobber : Reg → BitVec 64} (inv : SchedInv m.kernel.sched)
    (cur : m.kernel.sched.current = some i) (alive : m.kernel.sched.alive i = true)
    (response : m.response cause tval = .resume) (act : m.act (.trap cause tval clobber) = some a) :
    (m.processor i).Step a (m.owed cause i) := by
  have here := processor_current inv cur
  have lives : (m.processor i).alive = true := by rw [processor_alive, alive]
  simp only [Machine.act, response] at act
  split at act
  · rename_i asks
    obtain rfl := Option.some.inj act
    have step := Processor.Step.read m.kernel.uart.rx.head? lives (by rw [here]; exact asks.2.2)
    rw [owed_call cur asks.calls, snapshot_x_byte asks]
    rw [here] at step ⊢
    exact step
  · rename_i plain
    split at act
    · rename_i sends
      obtain rfl := Option.some.inj act
      have step := Processor.Step.write lives (by rw [here]; exact sends.2.2)
      rw [owed_call cur sends.calls, snapshot_x_plain plain]
      rw [here] at step ⊢
      exact step
    · split at act
      · rename_i kill
        cases kill
      · split at act
        · cases act
        · rename_i exception
          obtain rfl := Option.some.inj act
          have call : Calls cause := resumed_calls response (Bool.eq_false_iff.mpr exception)
          have step := Processor.Step.skip lives
          rw [owed_call cur call, snapshot_x_plain plain]
          rw [here] at step ⊢
          exact step

end Processors

/-! ## Turns -/

/-- After boot no task is left in the created state. -/
def SchedulerState.Settled (st : SchedulerState) : Prop := ∀ i t, st.tasks i = some t → t.state ≠ .Created

section Turns

variable {st : SchedulerState} {s r : TrapState} {m m' : Machine}

theorem Switched.settled (switched : Switched s r) (settled : s.kernel.sched.Settled) : r.kernel.sched.Settled := by
  have saved : s.saved.Settled := by
    intro i u slot
    obtain ⟨t, before, rfl⟩ := saved_occupied slot
    have started := settled i t before
    split
    · rw [save_eq]
      simp only
      split
      · decide
      · exact started
    · exact started
  cases switched with
  | idle none => exact saved
  | @switch j t uart chosen slot =>
    intro i u after
    have dispatched : (s.saved.dispatch j).tasks i = some u := after
    rw [dispatch_tasks] at dispatched
    split at dispatched
    · obtain ⟨v, -, rfl⟩ := Option.map_eq_some_iff.mp dispatched
      exact nofun
    · exact saved i u dispatched

theorem SchedulerState.Settled.killed (settled : st.Settled) : st.killed.Settled := by
  intro i u slot
  obtain ⟨t, before, rfl⟩ := killed_occupied slot
  split
  · exact nofun
  · exact settled i t before

theorem Rescheduled.settled {cause tval : BitVec 64} {base : SchedulerState}
    (resched : Rescheduled m cause tval base m' s r) (settled : base.Settled) : m'.kernel.sched.Settled := by
  rw [resched.kernel]
  apply resched.switched.settled
  rw [resched.sched]
  exact settled

theorem SchedulerState.Settled.step {e : Event} (settled : m.kernel.sched.Settled) (step : m.Step e m') :
    m'.kernel.sched.Settled := by
  rcases step_cases step with quiet | ⟨cause, tval, clobber, -, -, trapped⟩
  · rw [quiet.sched]
    exact settled
  · cases trapped with
    | stay response sched pmp hart =>
      rw [sched]
      exact settled
    | preempt response resched => exact resched.settled settled
    | kill response resched => exact resched.settled settled.killed

theorem BootState.settled {l : Layout} {specs : List TaskSpec} (boot : BootState l specs m) :
    m.kernel.sched.Settled := by
  intro i t slot
  obtain ⟨spec, at_⟩ := spec_of_slot boot.free slot
  obtain ⟨t', slot', started⟩ := boot.filled i spec at_
  rw [slot] at slot'
  obtain rfl := Option.some.inj slot'
  rw [started.state]
  decide

theorem alive_of_live {i : Fin maxTasks} {t : Task} (slot : st.tasks i = some t) (live : t.Live) : st.alive i = true := by
  rw [SchedulerState.alive, slot]
  rcases live with ready | running
  · simp [Task.alive, ready]
  · simp [Task.alive, running]

/-- In a settled table the live tasks are those that are ready or running. -/
theorem SchedulerState.Settled.live (settled : st.Settled) {i : Fin maxTasks} (alive : st.alive i = true) :
    ∃ t, st.tasks i = some t ∧ t.Live := by
  unfold SchedulerState.alive at alive
  cases slot : st.tasks i with
  | none =>
    rw [slot] at alive
    cases alive
  | some t =>
    rw [slot] at alive
    refine ⟨t, rfl, ?_⟩
    have started := settled i t slot
    have lives : t.state ≠ .Dead := of_decide_eq_true alive
    cases state : t.state with
    | Created => exact absurd state started
    | Ready => exact .inl state
    | Running => exact .inr state
    | Dead => exact absurd state lives

/-- A switch goes to the task whose turn it is. -/
theorem Switched.turn (switched : Switched s r) (inv : SchedInv s.kernel.sched) (settled : s.kernel.sched.Settled)
    (idle : ∃ t, s.kernel.sched.tasks 0 = some t ∧ t.Live) :
    ∃ j, r.kernel.sched.current = some j ∧ Turn s.kernel.sched.alive s.kernel.sched.current j := by
  obtain ⟨-, -, -, new, -⟩ := switched.dispatches inv idle
  cases switched with
  | idle none =>
    obtain ⟨t₀, slot₀, live₀⟩ := idle
    have ready₀ := saved_ready inv slot₀ live₀
    rw [selectSlot_none (by decide) none 0] at ready₀
    cases ready₀
  | @switch j t uart chosen slot =>
    refine ⟨j, rfl, ?_, ?_⟩
    · obtain ⟨u, before, live⟩ := live_of_saved slot (chosen_ready chosen slot)
      exact alive_of_live before live
    · intro k normal alive
      obtain ⟨u, before, live⟩ := settled.live alive
      obtain ⟨i, select, notIdle, nearest⟩ :=
        selectSlot_nearest (by decide) s.kernel.sched.current normal (saved_ready inv before live)
      rw [chosen] at select
      obtain rfl := Option.some.inj select
      exact ⟨notIdle, nearest⟩

end Turns

/-! ## Steps -/

/-- What a trap does to the console in answer to an act. -/
structure Served (u : Uart) (a : Act) (u' : Uart) : Prop where
  answered : a.Answered u.rx
  input : u'.rx = a.leaves u.rx
  output : u.tx ++ a.says <+: u'.tx

section Steps

variable {l : Layout} {idle : BitVec 64} {rest : List TaskSpec} {m m' : Machine} {cause tval : BitVec 64}
variable {clobber : Reg → BitVec 64}

theorem Printed.served {u u' : Uart} {a : Act} (printed : Printed u u') (answered : a.Answered u.rx)
    (leaves : a.leaves u.rx = u.rx) (silent : a.says = []) : Served u a u' := by
  refine ⟨answered, printed.rx.trans leaves.symm, ?_⟩
  rw [silent, List.append_nil]
  exact printed.tx

theorem trap_served {a : Act} (trapped : m.trap cause tval clobber = .ok m')
    (act : m.act (.trap cause tval clobber) = some a) : Served m.kernel.uart a m'.kernel.uart := by
  have taken := trap_taken trapped
  have sent := trap_sent trapped
  simp only [Machine.act] at act
  split at act
  · rename_i asks
    obtain rfl := Option.some.inj act
    refine ⟨rfl, ?_, ?_⟩
    · rw [Machine.taken, if_pos asks] at taken
      rw [Act.leaves]
      cases rx : m.kernel.uart.rx with
      | nil =>
        rw [rx] at taken
        exact taken
      | cons c rest =>
        rw [rx] at taken
        exact List.tail_eq_of_cons_eq taken
    · exact (List.append_nil _).symm ▸ (List.prefix_append _ _).trans sent
  · rename_i plain
    have printed := trap_printed trapped plain
    split at act
    · rename_i sends
      obtain rfl := Option.some.inj act
      refine ⟨trivial, printed.rx, ?_⟩
      rw [Machine.sent, if_pos sends] at sent
      exact sent
    · split at act
      · obtain rfl := Option.some.inj act
        exact printed.served trivial rfl rfl
      · split at act
        · cases act
        · obtain rfl := Option.some.inj act
          exact printed.served trivial rfl rfl

theorem trap_unserved (trapped : m.trap cause tval clobber = .ok m') (act : m.act (.trap cause tval clobber) = none) :
    Printed m.kernel.uart m'.kernel.uart := by
  apply trap_printed trapped
  intro asks
  simp only [Machine.act, if_pos asks] at act
  cases act

/-- An act of the current context, with the processors that it leaves. -/
theorem act_step {a : Act} {f : Fin maxTasks → Processor}
    (own : ∀ i, m.kernel.sched.current = some i → (m.processor i).Step a (f i))
    (others : ∀ i, m.kernel.sched.current ≠ some i → f i = m.processor i) (answered : a.Answered m.kernel.uart.rx) :
    m.sharing.Step (.act m.kernel.sched.current a) { m.sharing.serve a with tasks := f } := by
  cases cur : m.kernel.sched.current with
  | none =>
    have same : f = m.processor := funext fun i => others i (by rw [cur]; exact nofun)
    rw [same]
    exact .bootstrap cur answered
  | some i =>
    have moved : f = Function.update m.processor i (f i) := by
      funext j
      by_cases here : j = i
      · subst here
        rw [Function.update_self]
      · rw [Function.update_of_ne here]
        exact others j (by rw [cur]; exact fun same => here (Option.some.inj same).symm)
    rw [moved]
    exact .own cur (own i cur) answered

/-- The kernel's messages complete the output. -/
theorem print_step {s : Sharing} (tasks : s.tasks = m'.processor) (running : s.running = m'.kernel.sched.current)
    (input : s.input = m'.kernel.uart.rx) (output : s.output <+: m'.kernel.uart.tx) :
    ∃ bytes, s.Step (.print bytes) m'.sharing := by
  obtain ⟨bytes, more⟩ := output
  have same : m'.sharing = { s with output := s.output ++ bytes } := Sharing.ext tasks.symm running.symm input.symm more.symm
  refine ⟨bytes, ?_⟩
  rw [same]
  exact .print bytes

/-- A run of abstract steps answers an event. -/
def Answers (m : Machine) (e : Event) (m' : Machine) : Prop :=
  ∃ ls, Run Sharing.Step m.sharing ls m'.sharing ∧ ls.filter Label.visible = m.shown e

theorem Going.current_alive (going : Going l idle rest m) {i : Fin maxTasks} (cur : m.kernel.sched.current = some i) :
    m.kernel.sched.alive i = true := by
  obtain ⟨t, slot, running⟩ := going.alive.running i cur
  exact alive_of_live slot (.inr running)

theorem Going.exec (going : Going l idle rest m) {x : Reg → BitVec 64} {pc : BitVec 64} {mem : Mem}
    (after : m.after (.exec x pc mem) = .ok m') : Answers m (.exec x pc mem) m' := by
  obtain ⟨kernel, atX, atPc⟩ : m'.kernel = m.kernel ∧ m'.hart.x = x ∧ m'.hart.pc = pc := by
    cases after
    exact ⟨rfl, rfl, rfl⟩
  have table := processor_same_table (congrArg Kernel.sched kernel) going.sound.inv
  have step := act_step (m := m) (a := .compute x pc) (f := m'.processor) ?_ ?_ trivial
  · have same : m'.sharing = { m.sharing.serve (.compute x pc) with tasks := m'.processor } := by
      refine Sharing.ext rfl ?_ ?_ ?_
      · exact congrArg (fun k => k.sched.current) kernel
      · exact congrArg (fun k => k.uart.rx) kernel
      · exact (congrArg (fun k => k.uart.tx) kernel).trans (List.append_nil _).symm
    refine ⟨[.act m.kernel.sched.current (.compute x pc)], ?_, rfl⟩
    rw [same]
    exact Run.start.next step
  · intro i cur
    rw [table, if_pos cur, atX, atPc]
    refine .compute x pc ?_
    rw [processor_alive, going.current_alive cur]
  · intro i other
    rw [table, if_neg other]

/-- A trap without an act is not stepped over. -/
theorem not_calls_of_silent (response : m.response cause tval = .resume)
    (act : m.act (.trap cause tval clobber) = none) : ¬ Calls cause := by
  rintro ⟨exception, -⟩
  simp only [Machine.act, response, exception] at act
  split at act
  · cases act
  · split at act
    · cases act
    · cases act

theorem Going.stay (going : Going l idle rest m) (trapped : m.trap cause tval clobber = .ok m')
    (response : m.response cause tval = .resume) (sched : m'.kernel.sched = m.kernel.sched)
    (hart : Resumed m'.hart (m.reply cause tval)) : Answers m (.trap cause tval clobber) m' := by
  have inv := going.sound.inv
  have processor : m.owed cause = m'.processor := (funext (stay_processor sched inv hart)).symm
  have running : m.kernel.sched.current = m'.kernel.sched.current := by rw [sched]
  cases act : m.act (.trap cause tval clobber) with
  | none =>
    have printed := trap_unserved trapped act
    have same : m.processor = m'.processor := by
      rw [← processor]
      exact (funext (owed_same inv (not_calls_of_silent response act))).symm
    obtain ⟨bytes, print⟩ := print_step (s := m.sharing) same running printed.rx.symm printed.tx
    refine ⟨[.print bytes], Run.start.next print, ?_⟩
    simp only [Machine.shown, act]
    rfl
  | some a =>
    have served := trap_served trapped act
    have step := act_step (m := m) (f := m.owed cause)
      (fun i cur => owed_step inv cur (going.current_alive cur) response act) (fun i other => if_neg other) served.answered
    obtain ⟨bytes, print⟩ := print_step (s := { m.sharing.serve a with tasks := m.owed cause }) processor running
      served.input.symm served.output
    refine ⟨[.act m.kernel.sched.current a, .print bytes], (Run.start.next step).next print, ?_⟩
    simp only [Machine.shown, act]
    rfl

/-- The turn that a reschedule gives, in a state of the abstract system with the tasks of the base table. -/
theorem Rescheduled.switch_step {base : SchedulerState} {s r : TrapState} {a : Sharing}
    (resched : Rescheduled m cause tval base m' s r) (inv : SchedInv base) (settled : base.Settled)
    (live : ∃ t, base.tasks 0 = some t ∧ t.Live) (alive : ∀ i, (a.tasks i).alive = base.alive i)
    (running : a.running = base.current) :
    ∃ j, m'.kernel.sched.current = some j ∧ a.Step (.switch j) { a with running := some j } := by
  have sched := resched.sched
  subst sched
  obtain ⟨j, current, turn⟩ := resched.switched.turn inv settled live
  rw [← resched.kernel] at current
  refine ⟨j, current, .switch ?_⟩
  rw [running, funext alive]
  exact turn

theorem Going.preempt {s r : TrapState} (going : Going l idle rest m) (settled : m.kernel.sched.Settled)
    (trapped : m.trap cause tval clobber = .ok m') (response : m.response cause tval = .preempt)
    (resched : Rescheduled m cause tval m.kernel.sched m' s r) : Answers m (.trap cause tval clobber) m' := by
  have inv := going.sound.inv
  have timer := (response_preempt response).1
  have interrupt {p : Prop} (exception : isInterrupt cause = false) : p := by
    rw [timer] at exception
    cases exception
  have act : m.act (.trap cause tval clobber) = none := by
    have plain : ¬ AsksByte m.hart cause := fun asks => interrupt asks.1
    have silent : ¬ SendsByte m.hart cause := fun sends => interrupt sends.1
    simp only [Machine.act, if_neg plain, if_neg silent, response, timer]
    rfl
  have printed := trap_unserved trapped act
  have same : m.processor = m'.processor := by
    funext i
    rw [resched.processor (.refl _) inv inv, owed_same inv fun call => interrupt call.1, ← processor_alive]
  obtain ⟨j, current, step⟩ := resched.switch_step (a := m.sharing) inv settled going.alive.idle (processor_alive m) rfl
  obtain ⟨bytes, print⟩ := print_step (s := { m.sharing with running := some j }) same current.symm printed.rx.symm
    printed.tx
  refine ⟨[.switch j, .print bytes], (Run.start.next step).next print, ?_⟩
  simp only [Machine.shown, act]
  rfl

theorem Going.kill {s r : TrapState} (going : Going l idle rest m) (settled : m.kernel.sched.Settled)
    (trapped : m.trap cause tval clobber = .ok m') (response : m.response cause tval = .kill)
    (resched : Rescheduled m cause tval m.kernel.sched.killed m' s r) : Answers m (.trap cause tval clobber) m' := by
  have inv := going.sound.inv
  obtain ⟨-, fault, -⟩ := reachesKill_iff.mpr response
  have notCall : ¬ Calls cause := by
    rintro ⟨-, call⟩
    simp only [List.mem_cons, List.not_mem_nil, or_false] at call fault
    omega
  have act : m.act (.trap cause tval clobber) = some .crash := by
    have plain : ¬ AsksByte m.hart cause := fun asks => notCall asks.calls
    have silent : ¬ SendsByte m.hart cause := fun sends => notCall sends.calls
    simp only [Machine.act, if_neg plain, if_neg silent, response]
    rfl
  have served := trap_served trapped act
  obtain ⟨i, t, spec, dispatched, -, -, other⟩ := going.alive.user going.sound going.confined (response_kill response)
  have cur := dispatched.current
  have processor (k : Fin maxTasks) :
      m'.processor k = ⟨(m.processor k).x, (m.processor k).pc, m.kernel.sched.killed.alive k⟩ := by
    rw [resched.processor (killed_sameSlots _) inv (killed_inv inv), owed_same inv notCall]
  have lives (k : Fin maxTasks) : (m'.processor k).alive = m.kernel.sched.killed.alive k := by rw [processor]
  have step := act_step (m := m) (a := .crash) (f := m'.processor) ?_ ?_ served.answered
  · obtain ⟨j, current, switch⟩ :=
      resched.switch_step (a := { m.sharing.serve .crash with tasks := m'.processor }) (killed_inv inv) settled.killed
        (killed_idle cur other going.alive.idle) lives (killed_current _).symm
    obtain ⟨bytes, print⟩ := print_step
      (s := { m.sharing.serve .crash with tasks := m'.processor, running := some j }) rfl current.symm
      served.input.symm served.output
    refine ⟨[.act m.kernel.sched.current .crash, .switch j, .print bytes], ((Run.start.next step).next switch).next print, ?_⟩
    simp only [Machine.shown, act]
    rfl
  · intro k here
    rw [processor, killed_alive, if_pos here]
    refine .crash ?_
    rw [processor_alive, going.current_alive here]
  · intro k away
    rw [processor, killed_alive, if_neg away, ← processor_alive]

/-- The abstract system answers every event. -/
theorem Going.answers {e : Event} (going : Going l idle rest m) (settled : m.kernel.sched.Settled)
    (step : m.Step e m') : Answers m e m' := by
  have inv := going.sound.inv
  obtain ⟨-, after⟩ := step
  cases e with
  | exec x pc mem => exact going.exec after
  | writeMstatus v =>
    cases after
    exact ⟨[], .start, rfl⟩
  | device rx mtime =>
    cases after
    exact ⟨[.receive rx], Run.start.next (.receive rx), rfl⟩
  | trap cause tval clobber =>
    cases trap_cases after with
    | stay response sched pmp hart => exact going.stay after response sched hart
    | preempt response resched => exact going.preempt settled after response resched
    | kill response resched => exact going.kill settled after response resched

end Steps

/-! ## Runs -/

section Runs

variable {l : Layout} {idle : BitVec 64} {rest : List TaskSpec} {start m : Machine} {es : List Event}

/-- The invariant under which the machine refines the abstract system. -/
structure Shares (l : Layout) (idle : BitVec 64) (rest : List TaskSpec) (m : Machine) : Prop where
  going : Going l idle rest m
  settled : m.kernel.sched.Settled

theorem shares_refines :
    Refines Machine.Step Sharing.Step (Shares l idle rest) Machine.sharing Machine.shown Label.visible where
  keeps _ _ _ shares step := ⟨shares.going.step step, shares.settled.step step⟩
  answers _ _ _ shares step := shares.going.answers shares.settled step

theorem Booted.shares (booted : Booted l (.machine idle :: rest) start) : Shares l idle rest start :=
  ⟨going_of_run booted .start, booted.state.settled⟩

/-- **Refinement.** With the idle task spawned first, whatever a run of the machine shows is the visible part of a
run of the time-sharing system from the machine's boot state to its last state. -/
theorem machine_refines_sharing (booted : Booted l (.machine idle :: rest) start) {trace : List Label}
    (run : Run (Observed Machine.Step (tracing Machine.shown)) (start, []) es (m, trace)) :
    ∃ ls, Run Sharing.Step start.sharing ls m.sharing ∧ ls.filter Label.visible = trace :=
  shares_refines.run booted.shares run

/-- The processor that a task starts with. -/
def TaskSpec.processor (spec : TaskSpec) (stackTop : BitVec 64) : Processor :=
  ⟨fun r => if r = .sp then stackTop else 0, spec.entry, true⟩

theorem BootState.processor {specs : List TaskSpec} (boot : BootState l specs m) {i : Fin maxTasks} {spec : TaskSpec}
    (at_ : specs[i.val]? = some spec) :
    ∃ t, m.kernel.sched.tasks i = some t ∧ m.processor i = spec.processor t.stackTop := by
  obtain ⟨t, slot, started⟩ := boot.filled i spec at_
  refine ⟨t, slot, ?_⟩
  have other : m.kernel.sched.current ≠ some i := by
    rw [boot.current]
    exact nofun
  have context := congrArg TaskContext.snapshot started.context
  rw [initial_snapshot] at context
  have x := congrArg Snapshot.x context
  have pc := congrArg Snapshot.pc context
  have alive : t.alive = true := by
    unfold Task.alive
    rw [started.state]
    rfl
  rw [processor_slot slot, if_neg other, Task.processor, alive]
  exact congrArg₂ (Processor.mk · · true) x pc

/-- **Private processors.** Every run has a trace in which the acts of each task are a run of the task's own
processor from its entry point to where the machine has it now, every byte that has arrived was read by
one call in the order of arrival or still waits, and every byte that a task has sent went out in order. -/
theorem tasks_virtualized (booted : Booted l (.machine idle :: rest) start) (run : Runs start es m) :
    ∃ trace, Run (Observed Machine.Step (tracing Machine.shown)) (start, []) es (m, trace) ∧
      (∀ (i : Fin maxTasks) spec, (.machine idle :: rest : List TaskSpec)[i.val]? = some spec →
        ∃ t, start.kernel.sched.tasks i = some t ∧
          Run Processor.Step (spec.processor t.stackTop) (trace.filterMap (Label.ofTask i)) (m.processor i)) ∧
      start.kernel.uart.rx ++ trace.flatMap Label.arrived = trace.flatMap Label.taken ++ m.kernel.uart.rx ∧
      (start.kernel.uart.tx ++ trace.flatMap Label.sent).Sublist m.kernel.uart.tx := by
  obtain ⟨trace, observed⟩ := run.observed (tracing Machine.shown) []
  obtain ⟨ls, abstract, rfl⟩ := shares_refines.run booted.shares observed
  refine ⟨_, observed, fun i spec at_ => ?_, ?_, ?_⟩
  · obtain ⟨t, slot, origin⟩ := booted.state.processor at_
    refine ⟨t, slot, ?_⟩
    rw [ofTask_visible, ← origin]
    exact Sharing.own_run abstract i
  · rw [flatMap_visible _ fun l hidden => (hidden_silent hidden).1,
      flatMap_visible _ fun l hidden => (hidden_silent hidden).2.1]
    exact Sharing.input_run abstract
  · rw [flatMap_visible _ fun l hidden => (hidden_silent hidden).2.2]
    exact Sharing.output_run abstract

end Runs

/-- The registers for `SYS_PUTC` of an `A`. -/
def putcRegs (r : Reg) : BitVec 64 := if r = .a7 then sysPutc else 65

/-- The echo task sends a byte; then the violation task runs and faults. -/
def crashEvents : List Event :=
  [timerTick, .exec putcRegs 0x8000_8004 fun _ => 0, .trap 8 0 fun _ => 0, timerTick, .trap 5 0x8000_0000 fun _ => 0]

def echoCalls : Machine := (echoRunning.after (.exec putcRegs 0x8000_8004 fun _ => 0)).toOption.getD echoRunning

def echoCalled : Machine := (echoCalls.after (.trap 8 0 fun _ => 0)).toOption.getD echoCalls

def faulting : Machine := (echoCalled.after timerTick).toOption.getD echoCalled

def crashed : Machine := (faulting.after (.trap 5 0x8000_0000 fun _ => 0)).toOption.getD faulting

theorem echo_sets : echoRunning.Step (.exec putcRegs 0x8000_8004 fun _ => 0) echoCalls := ⟨trivial, rfl⟩

theorem echo_calls : echoCalls.Step (.trap 8 0 fun _ => 0) echoCalled :=
  ⟨fun interrupt => absurd interrupt (by decide), Outcome.eq_ok _ rfl⟩

theorem faulting_tick : echoCalled.Step timerTick faulting := ⟨fun _ => .inl rfl, Outcome.eq_ok _ rfl⟩

theorem violation_faults : faulting.Step (.trap 5 0x8000_0000 fun _ => 0) crashed :=
  ⟨fun interrupt => absurd interrupt (by decide), Outcome.eq_ok _ rfl⟩

theorem machine_refines_sharing_echo : ∃ ls, Run Sharing.Step kmainBooted.sharing ls crashed.sharing ∧
    ls.filter Label.visible =
      [.act (some 1) (.compute putcRegs 0x8000_8004), .act (some 1) (.write 65), .act (some 2) .crash] := by
  have traced {t u : Machine} {es : List Event} {e : Event} {trace : List Label}
      (before : Run (Observed Machine.Step (tracing Machine.shown)) (kmainBooted, []) es (t, trace)) (step : t.Step e u) :
      Run (Observed Machine.Step (tracing Machine.shown)) (kmainBooted, []) (es ++ [e]) (u, trace ++ t.shown e) :=
    before.next ⟨step, rfl⟩
  have crashes := traced (traced (traced (traced (traced .start echo_tick) echo_sets) echo_calls) faulting_tick)
    violation_faults
  exact machine_refines_sharing kmain_booted crashes

/-- The echo task stands behind its call, the violation task is dead, and the byte has gone out. -/
theorem tasks_virtualized_echo : (crashed.processor 1).pc = 0x8000_8008 ∧ (crashed.processor 2).alive = false ∧
    ∃ (trace : List Label) (t u : Task), kmainBooted.kernel.sched.tasks 1 = some t ∧ kmainBooted.kernel.sched.tasks 2 = some u ∧
      Run Processor.Step ((TaskSpec.user 0x8000_8000 0x8000_8000 0x1000 [(uartBase, 0x1000)]).processor t.stackTop)
        (trace.filterMap (Label.ofTask 1)) (crashed.processor 1) ∧
      Run Processor.Step ((TaskSpec.user 0x8000_8100 0x8000_8000 0x1000 []).processor u.stackTop)
        (trace.filterMap (Label.ofTask 2)) (crashed.processor 2) ∧
      (kmainBooted.kernel.uart.tx ++ trace.flatMap Label.sent).Sublist crashed.kernel.uart.tx := by
  have run : Runs kmainBooted crashEvents crashed :=
    (((echo_runs.next echo_sets).next echo_calls).next faulting_tick).next violation_faults
  obtain ⟨trace, -, own, -, sent⟩ := tasks_virtualized kmain_booted run
  obtain ⟨t, slot, acts⟩ := own 1 _ rfl
  obtain ⟨u, slot', acts'⟩ := own 2 _ rfl
  exact ⟨rfl, rfl, trace, t, u, slot, slot', acts, acts', sent⟩

end Cyptos
