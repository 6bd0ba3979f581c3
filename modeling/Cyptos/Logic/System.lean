import Cyptos.Logic.Rights
import Cyptos.Logic.Spawn
import Cyptos.Logic.Step
import Cyptos.Logic.Table

/-!
# Invariants of the running system

Two invariants of every state that the booted machine reaches: the table holds the spawned tasks in
their slots, and the hardware holds the kernel map and the table of the current task.
-/

namespace Cyptos
set_option autoImplicit false
open Riscv Riscv.Pmp

/-! ## Steps -/

/-- A step that leaves the kernel's tables and the privilege alone. -/
structure Quiet (m m' : Machine) : Prop where
  sched : m'.kernel.sched = m.kernel.sched
  pmp : m'.kernel.pmp = m.kernel.pmp
  mode : m'.hart.mode = m.hart.mode
  mstatus : m.hart.mode = .user → m'.hart.csr.mstatus = m.hart.csr.mstatus

theorem step_cases {m m' : Machine} {e : Event} (step : m.Step e m') :
    Quiet m m' ∨ ∃ cause tval clobber, e = .trap cause tval clobber ∧ m.Admits e ∧ Trapped m cause tval m' := by
  obtain ⟨admits, after⟩ := step
  cases e with
  | exec x pc mem =>
    cases after
    exact .inl ⟨rfl, rfl, rfl, fun _ => rfl⟩
  | writeMstatus v =>
    cases after
    refine .inl ⟨rfl, rfl, rfl, fun user => ?_⟩
    rw [show m.hart.mode = .machine from admits] at user
    cases user
  | device rx mtime =>
    cases after
    exact .inl ⟨rfl, rfl, rfl, fun _ => rfl⟩
  | trap cause tval clobber => exact .inr ⟨cause, tval, clobber, rfl, admits, trap_cases after⟩

/-! ## Contexts -/

/-- After a reschedule a task's context is its old one, or the trapped one for the outgoing task. -/
theorem Switched.context {s r : TrapState} (switched : Switched s r) {i : Fin maxTasks} {u : Task}
    (slot : r.kernel.sched.tasks i = some u) :
    ∃ t, s.kernel.sched.tasks i = some t ∧ u.context =
      if s.kernel.sched.current = some i then .of s.frame s.csr.mepc s.csr.mstatus else t.context := by
  have saved {v : Task} (slot : s.saved.tasks i = some v) :
      ∃ t, s.kernel.sched.tasks i = some t ∧ v.context =
        if s.kernel.sched.current = some i then .of s.frame s.csr.mepc s.csr.mstatus else t.context := by
    obtain ⟨t, before, rfl⟩ := saved_occupied slot
    refine ⟨t, before, ?_⟩
    split <;> rfl
  cases switched with
  | idle none => exact saved slot
  | @switch j t uart chosen chosenSlot =>
    have after : (s.saved.dispatch j).tasks i = some u := slot
    rw [dispatch_tasks] at after
    split at after
    · obtain ⟨v, here, rfl⟩ := Option.map_eq_some_iff.mp after
      obtain ⟨t, before, context⟩ := saved here
      exact ⟨t, before, context⟩
    · exact saved after

/-- `base` has the current task and the contexts of `st`. -/
structure SameContexts (st base : SchedulerState) : Prop where
  current : base.current = st.current
  context : ∀ i t, base.tasks i = some t → ∃ t', st.tasks i = some t' ∧ t.context = t'.context

theorem SameContexts.refl (st : SchedulerState) : SameContexts st st := ⟨rfl, fun _ t slot => ⟨t, slot, rfl⟩⟩

theorem killed_sameContexts (st : SchedulerState) : SameContexts st st.killed := by
  refine ⟨killed_current st, fun i u slot => ?_⟩
  obtain ⟨t, before, rfl⟩ := killed_occupied slot
  exact ⟨t, before, by split <;> rfl⟩

section Resched

variable {m m' : Machine} {cause tval : BitVec 64} {base : SchedulerState} {s r : TrapState}

/-- A reschedule saves the trapped context for the outgoing task and keeps the others. -/
theorem Rescheduled.saves (resched : Rescheduled m cause tval base m' s r) (same : SameContexts m.kernel.sched base)
    {i : Fin maxTasks} {u : Task} (slot : m'.kernel.sched.tasks i = some u) :
    ∃ t, m.kernel.sched.tasks i = some t ∧
      u.context = if m.kernel.sched.current = some i then m.reply cause tval else t.context := by
  rw [resched.kernel] at slot
  obtain ⟨t, before, context⟩ := resched.switched.context slot
  rw [resched.sched, resched.context, same.current] at context
  rw [resched.sched] at before
  obtain ⟨t', slot', kept⟩ := same.context i t before
  refine ⟨t', slot', ?_⟩
  rw [context, kept]

/-- A reschedule resumes the trapped context, or a task that it makes current in that task's own context. -/
theorem Rescheduled.resumes (resched : Rescheduled m cause tval base m' s r) (same : SameContexts m.kernel.sched base) :
    (m'.kernel.sched.current = m.kernel.sched.current ∧ Resumed m'.hart (m.reply cause tval)) ∨
      ∃ i t, m'.kernel.sched.current = some i ∧ m'.kernel.sched.tasks i = some t ∧ t.state = .Running ∧
        Resumed m'.hart t.context := by
  have hart := resched.hart
  cases resched.switched with
  | idle none =>
    left
    simp only [resched.context] at hart
    refine ⟨?_, hart⟩
    rw [resched.kernel, ← same.current, ← resched.sched]
    exact saveCurrent_current _ _ _ _
  | @switch i t uart chosen slot =>
    right
    simp only [of_context] at hart
    refine ⟨i, { t with state := .Running }, ?_, ?_, rfl, hart⟩
    · rw [resched.kernel]
      rfl
    · rw [resched.kernel]
      refine (dispatch_tasks s.saved i i).trans ?_
      rw [if_pos rfl, slot]
      rfl

end Resched

/-! ## The table -/

/-- The table holds the tasks `specs`, in order. -/
structure Sound (l : Layout) (specs : List TaskSpec) (st : SchedulerState) : Prop where
  inv : SchedInv st
  filled : ∀ (i : Fin maxTasks) spec, specs[i.val]? = some spec → ∃ t, st.tasks i = some t ∧ TaskOf l spec t
  free : ∀ i : Fin maxTasks, specs.length ≤ i.val → st.tasks i = none

theorem TaskOf.of_fixed {l : Layout} {spec : TaskSpec} {t t' : Task} (of : TaskOf l spec t) (fixed : t.SameFixed t') :
    TaskOf l spec t' := by
  constructor
  · rw [fixed.entryPoint]
    exact of.entryPoint
  · rw [fixed.stackBottom, fixed.stackTop]
    exact of.stack
  · rw [fixed.pmpConfig, fixed.stackBottom]
    exact of.table
  · rw [fixed.stackBottom]
    exact of.loadable

section Table

variable {l : Layout} {specs : List TaskSpec} {st : SchedulerState}

/-- An occupied slot belongs to a specification. -/
theorem spec_of_slot (free : ∀ i : Fin maxTasks, specs.length ≤ i.val → st.tasks i = none) {i : Fin maxTasks} {t : Task}
    (slot : st.tasks i = some t) : ∃ spec, specs[i.val]? = some spec := by
  have below : i.val < specs.length := by
    by_contra beyond
    rw [free i (by omega)] at slot
    cases slot
  exact ⟨_, List.getElem?_eq_getElem below⟩

theorem Sound.occupied (sound : Sound l specs st) {i : Fin maxTasks} {t : Task} (slot : st.tasks i = some t) :
    ∃ spec, specs[i.val]? = some spec ∧ TaskOf l spec t := by
  obtain ⟨spec, at_⟩ := spec_of_slot sound.free slot
  obtain ⟨t', slot', of⟩ := sound.filled i spec at_
  rw [slot] at slot'
  obtain rfl := Option.some.inj slot'
  exact ⟨spec, at_, of⟩

theorem Sound.of_at (sound : Sound l specs st) {i : Fin maxTasks} {t : Task} {spec : TaskSpec}
    (slot : st.tasks i = some t) (at_ : specs[i.val]? = some spec) : TaskOf l spec t := by
  obtain ⟨spec', at', of⟩ := sound.occupied slot
  rw [at_] at at'
  obtain rfl := Option.some.inj at'
  exact of

theorem Sound.grows (sound : Sound l specs st) {st' : SchedulerState} {started : Prop} (inv : SchedInv st')
    (grows : Grows started st st') (free : ∀ i, st.tasks i = none → st'.tasks i = none) : Sound l specs st' := by
  refine ⟨inv, ?_, fun i beyond => free i (sound.free i beyond)⟩
  intro i spec at_
  obtain ⟨t, slot, of⟩ := sound.filled i spec at_
  obtain ⟨t', slot', evolves⟩ := grows i t slot
  exact ⟨t', slot', of.of_fixed evolves.fixed⟩

theorem Switched.free {s r : TrapState} (switched : Switched s r) {i : Fin maxTasks}
    (empty : s.kernel.sched.tasks i = none) : r.kernel.sched.tasks i = none := by
  have saved : s.saved.tasks i = none := by
    rw [TrapState.saved, saveCurrent_tasks, empty]
    split <;> rfl
  cases switched with
  | idle none => exact saved
  | @switch j t uart chosen slot =>
    refine (dispatch_tasks s.saved j i).trans ?_
    rw [saved]
    split <;> rfl

theorem Sound.switched {s r : TrapState} (sound : Sound l specs s.kernel.sched) (switched : Switched s r) :
    Sound l specs r.kernel.sched :=
  sound.grows (switched.inv sound.inv) (switched.grows sound.inv) fun _ empty => switched.free empty

theorem Sound.killed (sound : Sound l specs st) : Sound l specs st.killed := by
  refine sound.grows (killed_inv sound.inv) (killed_grows sound.inv) fun i empty => ?_
  rw [killed_tasks, empty]
  split <;> rfl

theorem Sound.rescheduled {m m' : Machine} {cause tval : BitVec 64} {s r : TrapState} (sound : Sound l specs st)
    (resched : Rescheduled m cause tval st m' s r) : Sound l specs m'.kernel.sched := by
  rw [resched.kernel]
  apply Sound.switched _ resched.switched
  rw [resched.sched]
  exact sound

theorem Sound.step {m m' : Machine} {e : Event} (sound : Sound l specs m.kernel.sched) (step : m.Step e m') :
    Sound l specs m'.kernel.sched := by
  rcases step_cases step with quiet | ⟨cause, tval, clobber, -, -, trapped⟩
  · rw [quiet.sched]
    exact sound
  · cases trapped with
    | stay response sched pmp hart =>
      rw [sched]
      exact sound
    | preempt response resched => exact sound.rescheduled resched
    | kill response resched => exact sound.killed.rescheduled resched

theorem BootState.sound {m : Machine} (boot : BootState l specs m) : Sound l specs m.kernel.sched := by
  have start {i : Fin maxTasks} {t : Task} (slot : m.kernel.sched.tasks i = some t) :
      ∃ spec, Started l spec i t := by
    obtain ⟨spec, at_⟩ := spec_of_slot boot.free slot
    obtain ⟨t', slot', started⟩ := boot.filled i spec at_
    rw [slot] at slot'
    obtain rfl := Option.some.inj slot'
    exact ⟨spec, started⟩
  refine ⟨⟨?_, ?_, ?_⟩, ?_, boot.free⟩
  · intro i t slot running
    obtain ⟨spec, started⟩ := start slot
    rw [started.state] at running
    cases running
  · intro i cur
    rw [boot.current] at cur
    cases cur
  · intro i t slot
    obtain ⟨spec, started⟩ := start slot
    exact started.id
  · intro i spec at_
    obtain ⟨t, slot, started⟩ := boot.filled i spec at_
    exact ⟨t, slot, started.of⟩

/-- The table invariant holds in every reachable state. -/
theorem sound_of_run {start m : Machine} {es : List Event} (booted : Booted l specs start) (run : Runs start es m) :
    Sound l specs m.kernel.sched :=
  run.invariant (P := fun m => Sound l specs m.kernel.sched) booted.state.sound fun _ _ _ sound step => sound.step step

end Table

/-- Task `t` of slot `i`, spawned from `spec`, is dispatched. -/
structure Dispatched (specs : List TaskSpec) (m : Machine) (i : Fin maxTasks) (t : Task) (spec : TaskSpec) : Prop where
  current : m.kernel.sched.current = some i
  slot : m.kernel.sched.tasks i = some t
  spec : specs[i.val]? = some spec

theorem echo_dispatched : ∃ t, Dispatched kmainTasks echoRunning 1 t
    (.user 0x8000_8000 0x8000_8000 0x1000 [(uartBase, 0x1000)]) ∧ t.stackBottom = 0x8002_4000 := by
  obtain ⟨t, slot, bottom⟩ := echo_slot
  exact ⟨t, ⟨echo_current, slot, rfl⟩, bottom⟩

/-! ## Protection -/

/-- The regions of the current task, if there is one. -/
def SchedulerState.table (st : SchedulerState) : Fin pmpCount → PmpRegion :=
  match st.current with
  | none => PmpConfig.empty.regions
  | some i => ((st.tasks i).map fun t => t.pmpConfig.regions).getD PmpConfig.empty.regions

/-- The hardware holds the kernel map and the current task's regions. -/
structure Guarded (l : Layout) (k : Kernel) : Prop where
  kernel : KernelMap l k.pmp.file
  task : TaskMap k.sched.table k.pmp.file

section Protection

variable {l : Layout} {specs : List TaskSpec} {st st' : SchedulerState}

theorem table_of_current {i : Fin maxTasks} {t : Task} (cur : st.current = some i) (slot : st.tasks i = some t) :
    st.table = t.pmpConfig.regions := by
  simp only [SchedulerState.table, cur, slot]
  rfl

/-- Without a new current task the table stays. -/
theorem table_of_grows {started : Prop} (same : st'.current = st.current) (grows : Grows started st st')
    (inv : SchedInv st) : st'.table = st.table := by
  cases cur : st.current with
  | none => simp only [SchedulerState.table, same, cur]
  | some i =>
    obtain ⟨t, slot, -⟩ := inv.current i cur
    obtain ⟨t', slot', evolves⟩ := grows i t slot
    rw [table_of_current cur slot, table_of_current (same.trans cur) slot', evolves.fixed.pmpConfig]

theorem builderFlags_declared (spec : TaskSpec) (stackBottom : BitVec 64) : BuilderFlags (spec.declared stackBottom) := by
  obtain ⟨entry, mode⟩ := spec
  cases mode with
  | MMode => exact fun r member => by cases member
  | UMode codeBase codeSize mmio => exact builderFlags_user codeBase codeSize stackBottom mmio

/-- The current table is one that a specification declares. -/
theorem Sound.table (sound : Sound l specs st) : ∃ regions, st.table = tableOf regions ∧ BuilderFlags regions := by
  cases cur : st.current with
  | none =>
    refine ⟨[], ?_, fun r member => by cases member⟩
    simp only [SchedulerState.table, cur, tableOf_nil]
  | some i =>
    obtain ⟨t, slot, -⟩ := sound.inv.current i cur
    obtain ⟨spec, -, of⟩ := sound.occupied slot
    exact ⟨_, (table_of_current cur slot).trans of.table, builderFlags_declared spec t.stackBottom⟩

theorem Guarded.unlocked {k : Kernel} (guarded : Guarded l k) (sound : Sound l specs k.sched) :
    TaskUnlocked k.pmp.file := by
  obtain ⟨regions, table, flags⟩ := sound.table
  have task := guarded.task
  rw [table] at task
  exact (task.rights flags).unlocked

theorem Guarded.rescheduled {m m' : Machine} {cause tval : BitVec 64} {base : SchedulerState} {s r : TrapState}
    (guarded : Guarded l m.kernel) (sound : Sound l specs m.kernel.sched) (baseSound : Sound l specs base)
    (same : base.table = m.kernel.sched.table) (resched : Rescheduled m cause tval base m' s r) :
    Guarded l m'.kernel := by
  have inv : SchedInv s.kernel.sched := by
    rw [resched.sched]
    exact baseSound.inv
  have grows := resched.switched.grows inv
  rw [resched.kernel]
  cases resched.switched with
  | idle none =>
    have table : s.saved.table = s.kernel.sched.table := table_of_grows (saveCurrent_current _ _ _ _) grows inv
    constructor
    · change KernelMap l s.kernel.pmp.file
      rw [resched.pmp]
      exact guarded.kernel
    · change TaskMap s.saved.table s.kernel.pmp.file
      rw [resched.pmp, table, resched.sched, same]
      exact guarded.task
  | @switch i t uart chosen slot =>
    have after : (s.saved.dispatch i).tasks i = some { t with state := .Running } := by
      rw [dispatch_tasks, if_pos rfl, slot]
      rfl
    have table := table_of_current (dispatch_current s.saved i) after
    have free : TaskUnlocked s.kernel.pmp.file := by
      rw [resched.pmp]
      exact guarded.unlocked sound
    constructor
    · refine KernelMap.loadTaskConfig ?_ _
      rw [resched.pmp]
      exact guarded.kernel
    · change TaskMap (s.saved.dispatch i).table _
      rw [table]
      exact loadTaskConfig_ofFn s.kernel.pmp t.pmpConfig.regions free

theorem Guarded.step {m m' : Machine} {e : Event} (guarded : Guarded l m.kernel) (sound : Sound l specs m.kernel.sched)
    (step : m.Step e m') : Guarded l m'.kernel := by
  rcases step_cases step with quiet | ⟨cause, tval, clobber, -, -, trapped⟩
  · exact ⟨by rw [quiet.pmp]; exact guarded.kernel, by rw [quiet.pmp, quiet.sched]; exact guarded.task⟩
  · cases trapped with
    | stay response sched pmp hart =>
      exact ⟨by rw [pmp]; exact guarded.kernel, by rw [pmp, sched]; exact guarded.task⟩
    | preempt response resched => exact guarded.rescheduled sound sound rfl resched
    | kill response resched =>
      have table := table_of_grows (killed_current _) (killed_grows sound.inv) sound.inv
      exact guarded.rescheduled sound sound.killed table resched

theorem BootState.guarded {m : Machine} (boot : BootState l specs m) : Guarded l m.kernel := by
  refine ⟨boot.kernel, ?_⟩
  have table : m.kernel.sched.table = PmpConfig.empty.regions := by
    simp only [SchedulerState.table, boot.current]
  rw [table]
  constructor
  · exact fun i task => (boot.clear i task).1
  · intro i task
    rw [(boot.clear i task).2]
    exact (legal_zero _).symm

/-- The protection invariant holds in every reachable state. -/
theorem guarded_of_run {start m : Machine} {es : List Event} (booted : Booted l specs start) (run : Runs start es m) :
    Guarded l m.kernel :=
  run.invariant_with (P := fun m => Guarded l m.kernel) (fun _ _ before => sound_of_run booted before)
    booted.state.guarded fun _ _ _ sound guarded step => guarded.step sound step

end Protection

end Cyptos
