import Cyptos.Logic.Builder
import Cyptos.Logic.Interleaving
import Cyptos.Logic.Spawn
import Cyptos.Sim.Run

/-!
# Task stacks

Tasks are spawned while the heap serves other requests. The table of tasks and the heap agree on
who owns what: every task lives on the block that its own `spawn` was answered with, so the
separation of blocks is the separation of stacks.
-/

namespace Cyptos
set_option autoImplicit false
open Riscv Riscv.Pmp Sim

/-- The addresses of a task's stack. -/
def Task.stack (t : Task) : Block := ⟨t.stackBottom.toNat, t.stackTop.toNat - t.stackBottom.toNat⟩

theorem HeapUse.layout_valid {use : HeapUse} (other : ∀ layout, use = .other layout → layout.Valid) :
    use.layout.Valid := by
  cases use with
  | stack spec => exact stackLayout_valid
  | other layout => exact other layout rfl

/-- The builder has no objection to a stack on an aligned block. -/
theorem stackRegion_accepted {bottom : BitVec 64} (aligned : bottom.toNat % 8192 = 0) {b : PmpConfigBuilder}
    (room : b.nextIdx < pmpCount) : ∃ b', b.stackRegion bottom taskStackSize = .ok b' := by
  have multiple : bottom.toNat = bottom.toNat / 8192 * 2 ^ (10 + 3) := by omega
  have valid : PmpRegion.Valid ⟨bottom, taskStackSize, Flags.RW⟩ := ⟨_, 10, by decide, multiple, rfl⟩
  obtain ⟨shape, base⟩ := valid.checks
  exact ⟨_, by rw [PmpConfigBuilder.stackRegion, PmpConfigBuilder.region, dif_pos room, if_pos shape, if_pos base]⟩

/-! ## Who owns what -/

section Spawning

variable {ι : Type} (uses : ι → HeapUse)

/-- The call `i` of `spawn` has returned: its task in `slot` lives on the block it was answered with. -/
structure Home (s : Spawning ι) (i : ι) (spec : TaskSpec) (slot : Fin maxTasks) (t : Task) : Prop where
  use : uses i = .stack spec
  returned : s.returned i = some ⟨BitVec.ofNat 8 slot⟩
  task : s.sched.tasks slot = some t
  block : s.heap.calls i = .done (some t.stackBottom)
  made : Made spec t.stackBottom slot t

/-- Every spawn that has returned has its task, and every task is there by a spawn. -/
structure Housed (heapStart heapEnd : BitVec 64) (s : Spawning ι) : Prop where
  safe : HeapSafe (fun i => (uses i).layout) heapStart heapEnd s.heap
  home : ∀ i id, s.returned i = some id → ∃ spec slot t, Home uses s i spec slot t
  owner : ∀ slot t, s.sched.tasks slot = some t → ∃ i spec, Home uses s i spec slot t

variable {uses} {heapStart heapEnd : BitVec 64} {s s' : Spawning ι}

theorem housed_start (ordered : heapStart.toNat ≤ heapEnd.toNat) (csr : Csrs) :
    Housed uses heapStart heapEnd (.start (BumpAllocator.new.init heapStart heapEnd) csr) :=
  ⟨heapSafe_start ordered, nofun, nofun⟩

variable [DecidableEq ι]

/-- The call `i` has put its task into `slot` and returned. -/
def Spawning.registered (s : Spawning ι) (i : ι) (slot : Fin maxTasks) (sched : SchedulerState) : Spawning ι :=
  { s with sched, returned := Function.update s.returned i (some ⟨BitVec.ofNat 8 slot⟩) }

/-- What the rest of a `spawn` does. -/
inductive Registers (uses : ι → HeapUse) (s : Spawning ι) (i : ι) : Spawning ι → Prop
  | idle : Registers uses s i s
  | registers {spec : TaskSpec} {bottom : BitVec 64} {task : Fin maxTasks → Task} {slot : Fin maxTasks}
      {sched : SchedulerState} (use : uses i = .stack spec) (block : s.heap.calls i = .done (some bottom))
      (running : s.returned i = none) (inserted : Inserted task s.sched slot sched)
      (made : Made spec bottom slot (task slot)) : Registers uses s i (s.registered i slot sched)

theorem register_cases {i : ι} (after : s.after uses (.register i) = .ok s') : Registers uses s i s' := by
  simp only [Spawning.after] at after
  split at after
  · rename_i spec bottom use block running
    obtain ⟨⟨id, sched, csr⟩, registered, rest⟩ := Outcome.bind_ok.mp after
    cases rest
    obtain ⟨rfl, task, slot, rfl, inserted, made⟩ := register_ok registered
    exact .registers use block running inserted made
  · cases after
  · cases after
    exact .idle

/-- A home is not lost to an access to the heap. -/
theorem Home.heap {i : ι} {spec : TaskSpec} {slot : Fin maxTasks} {t : Task} (home : Home uses s i spec slot t)
    (e : HeapEvent ι) : Home uses { s with heap := s.heap.after (fun i => (uses i).layout) e } i spec slot t :=
  ⟨home.use, home.returned, home.task, done_run home.block [e], home.made⟩

/-- A home is not lost to another task, which takes a free slot. -/
theorem Home.insert {i j : ι} {spec : TaskSpec} {slot new : Fin maxTasks} {t : Task} (home : Home uses s i spec slot t)
    {task : Fin maxTasks → Task} {sched : SchedulerState} (inserted : Inserted task s.sched new sched)
    (running : s.returned j = none) : Home uses (s.registered j new sched) i spec slot t := by
  have away : i ≠ j := by
    rintro rfl
    exact absurd (running.symm.trans home.returned) nofun
  have taken : slot ≠ new := by
    rintro rfl
    exact absurd (inserted.free.symm.trans home.task) nofun
  refine ⟨home.use, ?_, ?_, home.block, home.made⟩
  · exact (Function.update_of_ne away _ _).trans home.returned
  · exact (inserted.tasks slot).trans ((if_neg taken).trans home.task)

theorem Housed.heap (housed : Housed uses heapStart heapEnd s) (valid : ∀ i, (uses i).layout.Valid)
    (bound : heapEnd.toNat < 2 ^ 63) (e : HeapEvent ι) :
    Housed uses heapStart heapEnd { s with heap := s.heap.after (fun i => (uses i).layout) e } := by
  refine ⟨(housed.safe.event valid bound e).2, ?_, ?_⟩
  · intro i id returned
    obtain ⟨spec, slot, t, home⟩ := housed.home i id returned
    exact ⟨spec, slot, t, home.heap e⟩
  · intro slot t task
    obtain ⟨i, spec, home⟩ := housed.owner slot t task
    exact ⟨i, spec, home.heap e⟩

theorem Housed.registers (housed : Housed uses heapStart heapEnd s) {j : ι} (registers : Registers uses s j s') :
    Housed uses heapStart heapEnd s' := by
  cases registers with
  | idle => exact housed
  | @registers spec bottom task new sched use block running inserted made =>
    have here : sched.tasks new = some (task new) := (inserted.tasks new).trans (if_pos rfl)
    have newHome : Home uses (s.registered j new sched) j spec new (task new) := by
      rw [← made.stackBottom] at block made
      exact ⟨use, Function.update_self _ _ _, here, block, made⟩
    refine ⟨housed.safe, ?_, ?_⟩
    · intro i id returned
      by_cases same : i = j
      · subst same
        exact ⟨spec, new, task new, newHome⟩
      · obtain ⟨spec', slot, t, home⟩ := housed.home i id ((Function.update_of_ne same _ _).symm.trans returned)
        exact ⟨spec', slot, t, home.insert inserted running⟩
    · intro slot t there
      by_cases same : slot = new
      · subst same
        obtain rfl := Option.some.inj (here.symm.trans there)
        exact ⟨j, spec, newHome⟩
      · have before := (inserted.tasks slot).symm.trans there
        rw [if_neg same] at before
        obtain ⟨i, spec', home⟩ := housed.owner slot t before
        exact ⟨i, spec', home.insert inserted running⟩

/-- **One event.** Accesses to the heap and new tasks leave every task its home. -/
theorem Housed.event (housed : Housed uses heapStart heapEnd s) (valid : ∀ i, (uses i).layout.Valid)
    (bound : heapEnd.toNat < 2 ^ 63) {e : SpawnEvent ι} (after : s.after uses e = .ok s') :
    Housed uses heapStart heapEnd s' := by
  cases e with
  | heap e =>
    cases after
    exact housed.heap valid bound e
  | register j => exact housed.registers (register_cases after)

theorem Housed.run (housed : Housed uses heapStart heapEnd s) (valid : ∀ i, (uses i).layout.Valid)
    (bound : heapEnd.toNat < 2 ^ 63) {events : List (SpawnEvent ι)}
    (done : events.foldlM (Spawning.after uses) s = .ok s') : Housed uses heapStart heapEnd s' :=
  (Run.of_foldlM done).invariant housed fun _ _ _ before after => before.event valid bound after

/-- A call of `spawn` that nothing interrupts is a run of three events. -/
theorem spawn_uninterrupted {i : ι} {spec : TaskSpec} (use : uses i = .stack spec) (load : s.heap.calls i = .load)
    (running : s.returned i = none) {k k' : Kernel} (heap : k.heap = s.heap.heap) (sched : k.sched = s.sched)
    {id : TaskId} {csr' : Csrs} (spawned : spec.spawn s.csr k = .ok (id, k', csr')) :
    ∃ s', [.heap (.advance i), .heap (.advance i), .register i].foldlM (Spawning.after uses) s = .ok s' ∧
      s'.heap.heap = k'.heap ∧ s'.sched = k'.sched ∧ s'.csr = csr' ∧ s'.returned i = some id := by
  obtain ⟨bottom, allocated, registered, -⟩ := spawn_cases spawned
  obtain ⟨handed, -⟩ := allocTaskStack_cases allocated
  rw [heap] at handed
  rw [sched] at registered
  have layout : (uses i).layout = ⟨taskStackSize, taskStackAlign⟩ := by
    rw [use]
    rfl
  let loaded : SharedHeap ι := ⟨s.heap.heap, Function.update s.heap.calls i (.exchange s.heap.heap.next)⟩
  let answered : SharedHeap ι := ⟨k'.heap, Function.update loaded.calls i (.done (some bottom))⟩
  have first : s.heap.after (fun i => (uses i).layout) (.advance i) = loaded := by
    rw [SharedHeap.after_advance, load]
    rfl
  have exchange : loaded.calls i = .exchange s.heap.heap.next := Function.update_self _ _ _
  have second : loaded.after (fun i => (uses i).layout) (.advance i) = answered := by
    rw [SharedHeap.after_advance, exchange, exchange_now, layout, handed]
  have block : answered.calls i = .done (some bottom) := Function.update_self _ _ _
  let last : Spawning ι := ⟨answered, k'.sched, csr', Function.update s.returned i (some id)⟩
  have third : Spawning.after uses { s with heap := answered } (.register i) = .ok last := by
    simp only [Spawning.after, use, block, running]
    exact Outcome.bind_ok.mpr ⟨_, registered, rfl⟩
  refine ⟨last, ?_, rfl, rfl, rfl, Function.update_self _ _ _⟩
  simp only [List.foldlM_cons, List.foldlM_nil]
  refine Outcome.bind_ok.mpr ⟨{ s with heap := loaded }, by rw [Spawning.after, first], ?_⟩
  refine Outcome.bind_ok.mpr ⟨{ s with heap := answered }, by rw [Spawning.after, second], ?_⟩
  exact Outcome.bind_ok.mpr ⟨last, third, rfl⟩

end Spawning

/-! ## Private stacks -/

section Private

variable {ι : Type} {uses : ι → HeapUse} {heapStart heapEnd : BitVec 64} {s : Spawning ι}

/-- The stack of the task in `slot`, which the call `i` of `spawn` has made from `spec`, is its own. -/
structure PrivateStack (uses : ι → HeapUse) (heapStart heapEnd : BitVec 64) (s : Spawning ι) (i : ι) (spec : TaskSpec)
    (slot : Fin maxTasks) (t : Task) : Prop where
  block : s.heap.calls i = .done (some t.stackBottom)
  notNull : t.stackBottom ≠ 0
  length : t.stackTop.toNat = t.stackBottom.toNat + 8192
  aligned : t.stackBottom.toNat % 8192 = 0
  low : heapStart.toNat ≤ t.stackBottom.toNat
  high : t.stackTop.toNat ≤ heapEnd.toNat
  tasks : ∀ slot' t', slot' ≠ slot → s.sched.tasks slot' = some t' → t.stack.Apart t'.stack
  allocations : ∀ j p, j ≠ i → s.heap.calls j = .done (some p) → t.stack.Apart ⟨p.toNat, (uses j).layout.size.toNat⟩
  sp : t.context.sp = t.stackTop
  region : ∀ codeBase codeSize mmio, spec.mode = .UMode codeBase codeSize mmio →
    t.pmpConfig.regions 5 = ⟨t.stackBottom, taskStackSize, Flags.RW⟩

theorem Made.sp {spec : TaskSpec} {bottom : BitVec 64} {i : Fin maxTasks} {t : Task} (made : Made spec bottom i t) :
    t.context.sp = t.stackTop := by
  rw [made.context, TaskSpec.initial]
  cases spec.mode with
  | MMode => rfl
  | UMode => rfl

theorem Made.stackEntry {spec : TaskSpec} {bottom : BitVec 64} {i : Fin maxTasks} {t : Task} (made : Made spec bottom i t)
    {codeBase codeSize : BitVec 64} {mmio : List (BitVec 64 × BitVec 64)}
    (user : spec.mode = .UMode codeBase codeSize mmio) :
    t.pmpConfig.regions 5 = ⟨bottom, taskStackSize, Flags.RW⟩ := by
  rw [made.table, TaskSpec.declared, user]
  rfl

variable {i : ι} {spec : TaskSpec} {slot : Fin maxTasks} {t : Task}

/-- The bounds that the task stores are those of its block. -/
theorem Home.bounds (home : Home uses s i spec slot t) (housed : Housed uses heapStart heapEnd s)
    (bound : heapEnd.toNat < 2 ^ 63) :
    t.stackTop.toNat = t.stackBottom.toNat + 8192 ∧ heapStart.toNat ≤ t.stackBottom.toNat ∧
      t.stackTop.toNat ≤ heapEnd.toNat := by
  obtain ⟨low, high⟩ := housed.safe.inside home.block
  rw [home.use] at high
  have size : (HeapUse.stack spec).layout.size.toNat = 8192 := rfl
  have length : t.stackTop.toNat = t.stackBottom.toNat + 8192 := by
    rw [home.made.stackTop, BitVec.toNat_add]
    exact Nat.mod_eq_of_lt (by change t.stackBottom.toNat + 8192 < _; omega)
  exact ⟨length, low, by omega⟩

theorem Home.stack_eq (home : Home uses s i spec slot t) (housed : Housed uses heapStart heapEnd s)
    (bound : heapEnd.toNat < 2 ^ 63) : t.stack = ⟨t.stackBottom.toNat, (uses i).layout.size.toNat⟩ := by
  obtain ⟨length, -, -⟩ := home.bounds housed bound
  rw [Task.stack, length, home.use, Nat.add_sub_cancel_left]
  rfl

/-- Different tasks were spawned by different calls. -/
theorem Home.caller_ne (home : Home uses s i spec slot t) {j : ι} {spec' : TaskSpec} {slot' : Fin maxTasks} {t' : Task}
    (other : Home uses s j spec' slot' t') (different : slot' ≠ slot) : j ≠ i := by
  rintro rfl
  have same := Option.some.inj (other.returned.symm.trans home.returned)
  have value := congrArg BitVec.toNat (TaskId.mk.inj same)
  rw [BitVec.toNat_ofNat, BitVec.toNat_ofNat] at value
  have small : slot.val < 4 := slot.isLt
  have small' : slot'.val < 4 := slot'.isLt
  exact different (Fin.ext (by omega))

theorem Home.privateStack (home : Home uses s i spec slot t) (housed : Housed uses heapStart heapEnd s)
    (positive : 0 < heapStart.toNat) (bound : heapEnd.toNat < 2 ^ 63) :
    PrivateStack uses heapStart heapEnd s i spec slot t := by
  obtain ⟨length, low, high⟩ := home.bounds housed bound
  have notNull : t.stackBottom ≠ 0 := by
    intro null
    rw [null] at low
    exact absurd low (Nat.not_le.mpr positive)
  have aligned := housed.safe.aligned i _ home.block
  simp only [home.use] at aligned
  have stack := home.stack_eq housed bound
  have allocations : ∀ j p, j ≠ i → s.heap.calls j = .done (some p) →
      t.stack.Apart ⟨p.toNat, (uses j).layout.size.toNat⟩ := by
    intro j p different answered
    rw [stack]
    exact housed.safe.apart different.symm home.block answered
  refine ⟨home.block, notNull, length, aligned, low, high, ?_, allocations, home.made.sp,
    fun _ _ _ user => home.made.stackEntry user⟩
  intro slot' t' different there
  obtain ⟨j, spec', other⟩ := housed.owner slot' t' there
  rw [other.stack_eq housed bound]
  exact allocations j _ (home.caller_ne other different) other.block

end Private

/-- **Private stacks.** Whatever spawns and other allocations are interleaved: once a call of `spawn` has
returned, its task lives on a block of its own, which the stack pointer and the PMP entry of a user
task describe exactly, and the builder accepts every block that a stack is allocated on. -/
theorem task_stacks_private {ι : Type} [DecidableEq ι] {uses : ι → HeapUse}
    (valid : ∀ i layout, uses i = .other layout → layout.Valid) {heapStart heapEnd : BitVec 64}
    (positive : 0 < heapStart.toNat) (ordered : heapStart.toNat ≤ heapEnd.toNat) (bound : heapEnd.toNat < 2 ^ 63)
    (csr : Csrs) {events : List (SpawnEvent ι)} {s : Spawning ι}
    (done : events.foldlM (Spawning.after uses) (.start (BumpAllocator.new.init heapStart heapEnd) csr) = .ok s) :
    (∀ i id, s.returned i = some id → ∃ spec, ∃ slot : Fin maxTasks, ∃ t, uses i = .stack spec ∧
      id = ⟨BitVec.ofNat 8 slot⟩ ∧ s.sched.tasks slot = some t ∧ PrivateStack uses heapStart heapEnd s i spec slot t) ∧
    ∀ i spec bottom, uses i = .stack spec → s.heap.calls i = .done (some bottom) →
      ∀ b : PmpConfigBuilder, b.nextIdx < pmpCount → ∃ b', b.stackRegion bottom taskStackSize = .ok b' := by
  have housed := (housed_start ordered csr).run (fun i => HeapUse.layout_valid (valid i)) bound done
  constructor
  · intro i id returned
    obtain ⟨spec, slot, t, home⟩ := housed.home i id returned
    have named := Option.some.inj (returned.symm.trans home.returned)
    exact ⟨spec, slot, t, home.use, named, home.task, home.privateStack housed positive bound⟩
  · intro i spec bottom use answered b room
    have aligned := housed.safe.aligned i bottom answered
    simp only [use] at aligned
    exact stackRegion_accepted aligned room

/-- The echo task is spawned while three bytes are allocated. -/
def busyUses : Bool → HeapUse
  | false => .stack (.user 0x8000_8000 0x8000_8000 0x1000 [(uartBase, 0x1000)])
  | true => .other ⟨3, 1⟩

/-- The other allocation comes between the accesses of the spawn, which has to retry. -/
def busyEvents : List (SpawnEvent Bool) :=
  [.heap (.advance false), .heap (.advance true), .heap (.advance true), .heap (.advance false), .heap (.advance false),
   .heap (.advance false), .register false]

def busyStart : Spawning Bool := .start (BumpAllocator.new.init 0x8002_0000 0x8102_0000) ⟨0, 0, 0, 0, 0⟩

def busyDone : Spawning Bool := (busyEvents.foldlM (Spawning.after busyUses) busyStart).toOption.getD busyStart

theorem busy_run : busyEvents.foldlM (Spawning.after busyUses) busyStart = .ok busyDone := Outcome.eq_ok _ rfl

theorem busy_returned : busyDone.returned false = some ⟨0⟩ := by decide

theorem busy_other : busyDone.heap.calls true = .done (some 0x8002_0000) := by decide

theorem task_stacks_private_busy :
    ∃ slot t, busyDone.sched.tasks slot = some t ∧ t.stack.Apart ⟨(0x8002_0000 : BitVec 64).toNat, 3⟩ := by
  have valid : ∀ b layout, busyUses b = .other layout → layout.Valid := by
    intro b layout use
    cases b with
    | false => cases use
    | true =>
      cases use
      exact ⟨⟨0, rfl⟩, by decide⟩
  have positive : 0 < (0x8002_0000 : BitVec 64).toNat := by decide
  have ordered : (0x8002_0000 : BitVec 64).toNat ≤ (0x8102_0000 : BitVec 64).toNat := by decide
  obtain ⟨homes, -⟩ := task_stacks_private valid positive ordered (by decide) ⟨0, 0, 0, 0, 0⟩ busy_run
  obtain ⟨spec, slot, t, -, -, task, own⟩ := homes false _ busy_returned
  exact ⟨slot, t, task, own.allocations true _ (by decide) busy_other⟩

end Cyptos
