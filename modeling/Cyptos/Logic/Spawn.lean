import Cyptos.Kernel.Boot
import Cyptos.Logic.Heap
import Cyptos.Logic.Regions
import Cyptos.Logic.Switch

/-!
# Spawning and booting

Spawning a list of tasks fills the slots of the table in order. Each task keeps what its
specification declares: entry point, a stack from the heap, and its table of regions. Right
after boot every task is ready in its initial context and none is current.
-/

namespace Cyptos
set_option autoImplicit false
open Riscv Riscv.Pmp

/-! ## Stacks -/

/-- A stack of one task inside the heap. -/
structure StackIn (l : Layout) (bottom top : BitVec 64) : Prop where
  low : l.userTextEnd.toNat ≤ bottom.toNat
  size : top.toNat = bottom.toNat + 8192
  high : top.toNat ≤ l.eheap.toNat

theorem allocTaskStack_cases {heap heap' : BumpAllocator} {bottom top : BitVec 64}
    (allocated : allocTaskStack heap = .ok ((bottom, top), heap')) :
    heap.alloc ⟨taskStackSize, taskStackAlign⟩ = (some bottom, heap') ∧ top = bottom + taskStackSize := by
  unfold allocTaskStack at allocated
  cases answer : heap.alloc ⟨taskStackSize, taskStackAlign⟩ with
  | mk block after =>
    simp only [answer] at allocated
    cases block with
    | none => exact absurd allocated nofun
    | some p =>
      obtain ⟨stack, rfl⟩ := Prod.mk.inj (Except.ok.inj allocated)
      obtain ⟨rfl, rfl⟩ := Prod.mk.inj stack
      exact ⟨rfl, rfl⟩

/-- The layout of a task stack is one that `Layout::from_size_align` accepts. -/
theorem stackLayout_valid : AllocLayout.Valid ⟨taskStackSize, taskStackAlign⟩ := by
  refine ⟨⟨13, rfl⟩, ?_⟩
  show (8192 + (8192 - 1)) / 8192 * 8192 ≤ 2 ^ 63 - 1
  omega

theorem HeapIn.ready {l : Layout} {heap : BumpAllocator} (inside : HeapIn l heap) : HeapReady heap := by
  have physical := l.physical
  refine ⟨inside.next_ge, inside.next_le, ?_⟩
  rw [inside.heapEnd]
  omega

theorem allocTaskStack_ok {l : Layout} {heap heap' : BumpAllocator} {bottom top : BitVec 64} (inside : HeapIn l heap)
    (allocated : allocTaskStack heap = .ok ((bottom, top), heap')) : StackIn l bottom top ∧ HeapIn l heap' := by
  obtain ⟨handed, rfl⟩ := allocTaskStack_cases allocated
  have ready := inside.ready
  have grants := alloc_grants ready stackLayout_valid handed
  have physical := l.physical
  have start := inside.start
  have next := inside.next_ge
  have fresh := grants.fresh
  have size : taskStackSize.toNat = 8192 := rfl
  have fits : bottom.toNat + taskStackSize.toNat ≤ l.eheap.toNat := by
    rw [← inside.heapEnd]
    exact grants.fits
  have total : (bottom + taskStackSize).toNat = bottom.toNat + 8192 := by
    rw [BitVec.toNat_add, size]
    apply Nat.mod_eq_of_lt
    omega
  have ready' := grants.ready ready
  refine ⟨⟨by omega, total, by omega⟩, ?_, ready'.start_le, ready'.next_le, grants.heapEnd.trans inside.heapEnd⟩
  rw [grants.heapStart]
  exact start

/-! ## Spawning -/

/-- The context a task starts in. -/
def TaskSpec.initial (spec : TaskSpec) (stackTop : BitVec 64) : TaskContext :=
  match spec.mode with
  | .MMode => .newMmode spec.entry stackTop
  | .UMode _ _ _ => .newUmode spec.entry stackTop

/-- A task keeps what its specification says. -/
structure TaskOf (l : Layout) (spec : TaskSpec) (t : Task) : Prop where
  entryPoint : t.entryPoint = spec.entry
  stack : StackIn l t.stackBottom t.stackTop
  table : t.pmpConfig.regions = tableOf (spec.declared t.stackBottom)
  loadable : Loadable (spec.declared t.stackBottom)

/-- A task that has just been created. -/
structure Newborn (l : Layout) (spec : TaskSpec) (i : Fin maxTasks) (t : Task) : Prop where
  of : TaskOf l spec t
  id : t.id = ⟨BitVec.ofNat 8 i⟩
  state : t.state = .Created
  context : t.context = spec.initial t.stackTop

theorem copyFrom_ofFn (cfg : PmpConfig) (table : Fin pmpCount → PmpRegion) :
    (cfg.copyFrom (List.ofFn table)).regions = table := by
  funext i
  simp only [PmpConfig.copyFrom]
  rw [List.getElem?_ofFn, dif_pos i.isLt, Option.getD_some]

/-- What `spawn` makes of a specification and the block at `bottom`. -/
structure Made (spec : TaskSpec) (bottom : BitVec 64) (i : Fin maxTasks) (t : Task) : Prop where
  entryPoint : t.entryPoint = spec.entry
  id : t.id = ⟨BitVec.ofNat 8 i⟩
  state : t.state = .Created
  context : t.context = spec.initial t.stackTop
  stackBottom : t.stackBottom = bottom
  stackTop : t.stackTop = bottom + taskStackSize
  table : t.pmpConfig.regions = tableOf (spec.declared bottom)
  loadable : Loadable (spec.declared bottom)

theorem made_machine (entry bottom : BitVec 64) (i : Fin maxTasks) :
    Made ⟨entry, .MMode⟩ bottom i (machineTask entry (bottom + taskStackSize) i) :=
  ⟨rfl, rfl, rfl, rfl, BitVec.add_sub_cancel _ _, rfl, tableOf_nil.symm, loadable_nil⟩

theorem made_user {codeBase codeSize bottom : BitVec 64} {mmio : List (BitVec 64 × BitVec 64)} {cfg : PmpConfig}
    (built : buildPmp codeBase codeSize bottom mmio = .ok cfg) (entry : BitVec 64) (i : Fin maxTasks) :
    Made ⟨entry, .UMode codeBase codeSize mmio⟩ bottom i
      (userTask entry (bottom + taskStackSize) (List.ofFn cfg.regions) i) := by
  obtain ⟨table, loadable⟩ := buildPmp_ok built
  exact ⟨rfl, rfl, rfl, rfl, BitVec.add_sub_cancel _ _, rfl, (copyFrom_ofFn _ cfg.regions).trans table, loadable⟩

theorem Made.newborn {l : Layout} {spec : TaskSpec} {bottom : BitVec 64} {i : Fin maxTasks} {t : Task}
    (made : Made spec bottom i t) (stack : StackIn l bottom (bottom + taskStackSize)) : Newborn l spec i t := by
  obtain rfl := made.stackBottom
  rw [← made.stackTop] at stack
  exact ⟨⟨made.entryPoint, stack, made.table, made.loadable⟩, made.id, made.state, made.context⟩

/-- Registering inserts the task that is made of the specification. -/
theorem register_ok {spec : TaskSpec} {csr csr' : Csrs} {sched sched' : SchedulerState} {bottom : BitVec 64} {id : TaskId}
    (registered : spec.register csr sched bottom (bottom + taskStackSize) = .ok (id, sched', csr')) :
    csr' = csr ∧ ∃ task, ∃ i : Fin maxTasks, id = ⟨BitVec.ofNat 8 i⟩ ∧ Inserted task sched i sched' ∧
      Made spec bottom i (task i) := by
  obtain ⟨entry, mode⟩ := spec
  cases mode with
  | MMode =>
    obtain ⟨same, i, named, inserted⟩ := createTaskMmode_ok registered
    exact ⟨same, _, i, named, inserted, made_machine entry bottom i⟩
  | UMode codeBase codeSize mmio =>
    obtain ⟨cfg, built, created⟩ := Outcome.bind_ok.mp registered
    obtain ⟨same, i, named, inserted⟩ := createTask_ok created
    exact ⟨same, _, i, named, inserted, made_user built entry i⟩

/-- A call of `spawn` allocates a stack and registers the task. -/
theorem spawn_cases {spec : TaskSpec} {csr csr' : Csrs} {k k' : Kernel} {id : TaskId}
    (spawned : spec.spawn csr k = .ok (id, k', csr')) :
    ∃ bottom, allocTaskStack k.heap = .ok ((bottom, bottom + taskStackSize), k'.heap) ∧
      spec.register csr k.sched bottom (bottom + taskStackSize) = .ok (id, k'.sched, csr') ∧
      k' = ⟨k'.sched, k.pmp, k.uart, k.timer, k'.heap⟩ := by
  obtain ⟨⟨⟨bottom, top⟩, heap⟩, allocated, spawned⟩ := Outcome.bind_ok.mp spawned
  obtain ⟨⟨id', sched, csr''⟩, registered, rest⟩ := Outcome.bind_ok.mp spawned
  obtain ⟨-, rfl⟩ := allocTaskStack_cases allocated
  cases rest
  exact ⟨bottom, allocated, registered, rfl⟩

/-- A successful spawn inserts a newborn task and changes nothing else but the heap. -/
structure SpawnStep (l : Layout) (spec : TaskSpec) (k k' : Kernel) : Prop where
  heap : HeapIn l k'.heap
  pmp : k'.pmp = k.pmp
  inserted : ∃ task i, Inserted task k.sched i k'.sched ∧ Newborn l spec i (task i)

theorem spawn_ok {l : Layout} {spec : TaskSpec} {csr csr' : Csrs} {k k' : Kernel} {id : TaskId}
    (inside : HeapIn l k.heap) (spawned : spec.spawn csr k = .ok (id, k', csr')) : csr' = csr ∧ SpawnStep l spec k k' := by
  obtain ⟨bottom, allocated, registered, kernel⟩ := spawn_cases spawned
  have pmp : k'.pmp = k.pmp := by rw [kernel]
  obtain ⟨stack, inside'⟩ := allocTaskStack_ok inside allocated
  obtain ⟨same, task, i, -, inserted, made⟩ := register_ok registered
  exact ⟨same, inside', pmp, task, i, inserted, made.newborn stack⟩

/-- The table after spawning `specs` into an empty one. -/
structure Spawned (l : Layout) (specs : List TaskSpec) (st : SchedulerState) : Prop where
  current : st.current = none
  fits : specs.length ≤ maxTasks
  filled : ∀ (i : Fin maxTasks) spec, specs[i.val]? = some spec → ∃ t, st.tasks i = some t ∧ Newborn l spec i t
  free : ∀ i : Fin maxTasks, specs.length ≤ i.val → st.tasks i = none

theorem spawned_empty (l : Layout) : Spawned l [] .empty :=
  ⟨rfl, by simp, by simp, fun _ _ => rfl⟩

/-- The first free slot is the next one. -/
theorem Spawned.next {l : Layout} {specs : List TaskSpec} {st st' : SchedulerState} (spawned : Spawned l specs st)
    {task : Fin maxTasks → Task} {i : Fin maxTasks} (inserted : Inserted task st i st') : i.val = specs.length := by
  rcases Nat.lt_trichotomy i.val specs.length with below | same | above
  · obtain ⟨t, slot, -⟩ := spawned.filled i _ (List.getElem?_eq_getElem below)
    rw [inserted.free] at slot
    cases slot
  · exact same
  · have earlier := inserted.first ⟨specs.length, lt_trans above i.isLt⟩ above
    rw [spawned.free _ le_rfl] at earlier
    cases earlier

theorem Spawned.insert {l : Layout} {specs : List TaskSpec} {spec : TaskSpec} {st st' : SchedulerState}
    (spawned : Spawned l specs st) {task : Fin maxTasks → Task} {i : Fin maxTasks} (inserted : Inserted task st i st')
    (newborn : Newborn l spec i (task i)) : Spawned l (specs ++ [spec]) st' := by
  have slot := spawned.next inserted
  constructor
  · rw [inserted.current]
    exact spawned.current
  · rw [List.length_append, List.length_singleton, ← slot]
    exact i.isLt
  · intro j spec' at_
    rw [inserted.tasks]
    by_cases here : j = i
    · subst here
      rw [if_pos rfl]
      rw [slot, List.getElem?_concat_length] at at_
      obtain rfl := Option.some.inj at_
      exact ⟨task j, rfl, newborn⟩
    · rw [if_neg here]
      have other : j.val ≠ specs.length := fun same => here (Fin.ext (same.trans slot.symm))
      have bound := (List.getElem?_eq_some_iff.mp at_).1
      rw [List.length_append, List.length_singleton] at bound
      rw [List.getElem?_append_left (by omega)] at at_
      exact spawned.filled j spec' at_
  · intro j beyond
    rw [List.length_append, List.length_singleton] at beyond
    have other : j ≠ i := by
      rintro rfl
      omega
    rw [inserted.tasks, if_neg other]
    exact spawned.free j (by omega)

theorem spawnAll_ok {l : Layout} {specs done : List TaskSpec} {k k' : Kernel} {csr csr' : Csrs}
    (spawned : Spawned l done k.sched) (inside : HeapIn l k.heap) (all : spawnAll specs k csr = .ok (k', csr')) :
    csr' = csr ∧ Spawned l (done ++ specs) k'.sched ∧ k'.pmp = k.pmp := by
  induction specs generalizing done k csr with
  | nil =>
    cases all
    exact ⟨rfl, by simpa using spawned, rfl⟩
  | cons spec specs ih =>
    rw [spawnAll, List.foldlM_cons] at all
    obtain ⟨⟨k₁, csr₁⟩, first, rest⟩ := Outcome.bind_ok.mp all
    obtain ⟨⟨id, k₂, csr₂⟩, spawn, same⟩ := Outcome.bind_ok.mp first
    cases same
    obtain ⟨csrSame, step⟩ := spawn_ok inside spawn
    obtain ⟨task, i, inserted, newborn⟩ := step.inserted
    obtain ⟨csrRest, result, pmp⟩ := ih (spawned.insert inserted newborn) step.heap rest
    refine ⟨csrRest.trans csrSame, ?_, pmp.trans step.pmp⟩
    rw [List.append_assoc] at result
    exact result

/-! ## Booting -/

/-- A task right after boot. -/
structure Started (l : Layout) (spec : TaskSpec) (i : Fin maxTasks) (t : Task) : Prop where
  of : TaskOf l spec t
  id : t.id = ⟨BitVec.ofNat 8 i⟩
  state : t.state = .Ready
  context : t.context = spec.initial t.stackTop

theorem Newborn.started {l : Layout} {spec : TaskSpec} {i : Fin maxTasks} {t : Task} (newborn : Newborn l spec i t) :
    Started l spec i { t with state := t.state.init } := by
  refine ⟨⟨newborn.of.entryPoint, newborn.of.stack, newborn.of.table, newborn.of.loadable⟩, newborn.id, ?_,
    newborn.context⟩
  simp only [newborn.state, TaskState.init]
  rfl

/-- The machine right after boot. -/
structure BootState (l : Layout) (specs : List TaskSpec) (m : Machine) : Prop where
  mode : m.hart.mode = .machine
  kernel : KernelMap l m.kernel.pmp.file
  clear : ∀ i : Fin pmpCount, 4 ≤ i.val → m.kernel.pmp.file.cfg i = 0 ∧ m.kernel.pmp.file.addr i = 0
  current : m.kernel.sched.current = none
  fits : specs.length ≤ maxTasks
  filled : ∀ (i : Fin maxTasks) spec, specs[i.val]? = some spec →
    ∃ t, m.kernel.sched.tasks i = some t ∧ Started l spec i t
  free : ∀ i : Fin maxTasks, specs.length ≤ i.val → m.kernel.sched.tasks i = none

theorem Booted.state {l : Layout} {specs : List TaskSpec} {m : Machine} (booted : Booted l specs m) :
    BootState l specs m := by
  obtain ⟨reset, heap, isReset, inside, boots⟩ := booted
  obtain ⟨⟨k, csr⟩, all, rest⟩ := Outcome.bind_ok.mp boots
  simp only [withLock_eq] at rest
  cases rest
  obtain ⟨-, spawned, pmp⟩ := spawnAll_ok (spawned_empty l) inside all
  have unlocked := isReset.unlocked
  constructor
  · exact isReset.mode
  · rw [pmp]
    exact pmpInit_kernel l _ unlocked isReset.addrBits
  · rw [pmp]
    exact fun i task => pmpInit_task l _ unlocked task
  · exact spawned.current
  · exact spawned.fits
  · intro i spec at_
    obtain ⟨t, slot, newborn⟩ := spawned.filled i spec at_
    refine ⟨_, ?_, newborn.started⟩
    change (schedInit k.sched).tasks i = _
    rw [schedInit_tasks, slot]
    rfl
  · intro i beyond
    change (schedInit k.sched).tasks i = none
    rw [schedInit_tasks, spawned.free i beyond]
    rfl

end Cyptos
