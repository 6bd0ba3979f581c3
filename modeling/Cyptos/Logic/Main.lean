import Cyptos.Kernel.Board
import Cyptos.Kernel.Main
import Cyptos.Logic.Builder
import Cyptos.Logic.Spawn
import Cyptos.Logic.Transcript
import Cyptos.Logic.Uart16550

/-!
# Booting succeeds

Booting a list of tasks fails for three reasons only: there are more tasks than slots, a task declares
regions that the builder rejects, or the heap has no room for the stacks. `kmain` boots its three tasks
and prints; nothing that runs afterwards depends on what it has printed.
-/

namespace Cyptos
set_option autoImplicit false
open Riscv Riscv.Pmp

theorem Outcome.map_ok {α β : Type} {x : Outcome α} {f : α → β} {b : β} : x.map f = .ok b ↔ ∃ a, x = .ok a ∧ f a = b := by
  cases x with
  | error msg => simp [Except.map]
  | ok a => simp [Except.map]

/-! ## Stacks -/

/-- Where the next task stack starts. -/
def BumpAllocator.stackBase (heap : BumpAllocator) : Nat := (heap.next.toNat + 8191) / 8192 * 8192

section Stacks

variable {l : Layout} {heap heap' : BumpAllocator}

theorem toNat_stackBase (inside : HeapIn l heap) :
    (BumpAllocator.alignUp heap.next taskStackAlign).toNat = heap.stackBase ∧
      (BumpAllocator.alignUp heap.next taskStackAlign + taskStackSize).toNat = heap.stackBase + 8192 := by
  have ready := inside.ready
  have low : heap.next.toNat < 2 ^ 63 := lt_of_le_of_lt ready.next_le ready.bound
  have base : (BumpAllocator.alignUp heap.next taskStackAlign).toNat = heap.stackBase :=
    toNat_alignUp (k := 13) rfl (by omega)
  obtain ⟨-, -, sum⟩ := stackLayout_valid.bump low
  refine ⟨base, ?_⟩
  rw [sum, base]
  rfl

theorem alloc_fits (request : AllocLayout)
    (fits : ¬ BumpAllocator.alignUp heap.next request.align + request.size > heap.heapEnd) :
    heap.alloc request = (some (BumpAllocator.alignUp heap.next request.align),
      ⟨heap.heapStart, heap.heapEnd, BumpAllocator.alignUp heap.next request.align + request.size⟩) := by
  simp only [BumpAllocator.alloc, if_neg fits]

theorem allocTaskStack_of_alloc {bottom : BitVec 64}
    (granted : heap.alloc ⟨taskStackSize, taskStackAlign⟩ = (some bottom, heap')) :
    allocTaskStack heap = .ok ((bottom, bottom + taskStackSize), heap') := by
  unfold allocTaskStack
  simp only [granted]

theorem allocTaskStack_fits (inside : HeapIn l heap) (room : heap.stackBase + 8192 ≤ heap.heapEnd.toNat) :
    ∃ bottom heap', allocTaskStack heap = .ok ((bottom, bottom + taskStackSize), heap') ∧ bottom.toNat = heap.stackBase := by
  obtain ⟨base, top⟩ := toNat_stackBase inside
  have fits : ¬ BumpAllocator.alignUp heap.next taskStackAlign + taskStackSize > heap.heapEnd := by
    rw [gt_iff_lt, BitVec.lt_def, top]
    omega
  have granted := alloc_fits ⟨taskStackSize, taskStackAlign⟩ fits
  exact ⟨_, _, allocTaskStack_of_alloc granted, base⟩

/-- A stack that was allocated had room, and the next one starts behind it. -/
theorem allocTaskStack_room (inside : HeapIn l heap) {bottom top : BitVec 64}
    (allocated : allocTaskStack heap = .ok ((bottom, top), heap')) :
    bottom.toNat = heap.stackBase ∧ heap.stackBase + 8192 ≤ heap.heapEnd.toNat ∧
      heap'.stackBase = heap.stackBase + 8192 ∧ heap'.heapEnd = heap.heapEnd := by
  obtain ⟨base, sum⟩ := toNat_stackBase inside
  obtain ⟨handed, rfl⟩ := allocTaskStack_cases allocated
  have start : bottom = BumpAllocator.alignUp heap.next taskStackAlign := by
    unfold BumpAllocator.alloc at handed
    dsimp only at handed
    split at handed
    · cases handed
    · cases handed
      rfl
  have grants := alloc_grants inside.ready stackLayout_valid handed
  have next : heap'.next.toNat = bottom.toNat + 8192 := grants.next
  have fits : bottom.toNat + 8192 ≤ heap.heapEnd.toNat := grants.fits
  rw [start, base] at next fits
  refine ⟨by rw [start, base], fits, ?_, grants.heapEnd⟩
  rw [BumpAllocator.stackBase, next]
  -- the bump position is a multiple of the alignment now
  rw [BumpAllocator.stackBase]
  omega

end Stacks

/-! ## Tasks -/

/-- The builder accepts the regions that a specification declares. -/
def TaskSpec.Acceptable (spec : TaskSpec) : Prop :=
  match spec.mode with
  | .MMode => True
  | .UMode codeBase codeSize mmio =>
    mmio.length ≤ 10 ∧ PmpRegion.Valid ⟨codeBase, codeSize, Flags.RX⟩ ∧ ∀ r ∈ mmioRegions mmio, r.Valid

theorem stackRegion_valid {bottom : BitVec 64} (aligned : bottom.toNat % 8192 = 0) :
    PmpRegion.Valid ⟨bottom, taskStackSize, Flags.RW⟩ := by
  have multiple : bottom.toNat = bottom.toNat / 8192 * 2 ^ (10 + 3) := by omega
  exact ⟨_, 10, by decide, multiple, rfl⟩

theorem buildPmp_succeeds_iff {codeBase codeSize bottom : BitVec 64} {mmio : List (BitVec 64 × BitVec 64)}
    (aligned : bottom.toNat % 8192 = 0) :
    (∃ cfg, buildPmp codeBase codeSize bottom mmio = .ok cfg) ↔
      mmio.length ≤ 10 ∧ PmpRegion.Valid ⟨codeBase, codeSize, Flags.RX⟩ ∧ ∀ r ∈ mmioRegions mmio, r.Valid := by
  constructor
  · rintro ⟨cfg, built⟩
    obtain ⟨-, loadable⟩ := buildPmp_ok built
    have fits := loadable.fits
    simp only [userRegions, List.length_cons, List.length_map] at fits
    refine ⟨by omega, loadable.valid _ List.mem_cons_self, fun r member => ?_⟩
    exact loadable.valid r (List.mem_cons_of_mem _ (List.mem_cons_of_mem _ member))
  · rintro ⟨fits, code, others⟩
    have valid : ∀ r ∈ chainRegions (codeBase, codeSize) (bottom, taskStackSize) mmio, r.Valid := by
      intro r member
      rcases List.mem_cons.mp member with rfl | member
      · exact code
      · rcases List.mem_cons.mp member with rfl | member
        · exact stackRegion_valid aligned
        · exact others r member
    exact buildConfig_accepts fits valid

theorem insertTask_free (task : Fin maxTasks → Task) {st : SchedulerState} {i : Fin maxTasks} (free : st.tasks i = none) :
    ∃ id st', insertTask task st = (.ok id, st') := by
  unfold insertTask
  cases found : Fin.find? fun j => (st.tasks j).isNone with
  | some j => exact ⟨_, _, rfl⟩
  | none =>
    have full := Fin.find?_eq_none_iff.mp found i
    rw [free] at full
    cases full

theorem createTask_free {st : SchedulerState} {i : Fin maxTasks} (free : st.tasks i = none) (csr : Csrs)
    (entry top : BitVec 64) (regions : List PmpRegion) : ∃ r, createTask csr st entry top regions = .ok r := by
  obtain ⟨id, st', inserted⟩ := insertTask_free (userTask entry top regions) free
  simp only [createTask, withLock_eq, inserted]
  exact ⟨_, rfl⟩

theorem createTaskMmode_free {st : SchedulerState} {i : Fin maxTasks} (free : st.tasks i = none) (csr : Csrs)
    (entry top : BitVec 64) : ∃ r, createTaskMmode csr st entry top = .ok r := by
  obtain ⟨id, st', inserted⟩ := insertTask_free (machineTask entry top) free
  simp only [createTaskMmode, withLock_eq, inserted]
  exact ⟨_, rfl⟩

section Spawn

variable {l : Layout} {spec : TaskSpec} {done : List TaskSpec} {k k' : Kernel} {csr csr' : Csrs}

theorem spawn_of_parts {bottom : BitVec 64} {heap : BumpAllocator} {id : TaskId} {sched : SchedulerState}
    (allocated : allocTaskStack k.heap = .ok ((bottom, bottom + taskStackSize), heap))
    (registered : spec.register csr k.sched bottom (bottom + taskStackSize) = .ok (id, sched, csr')) :
    ∃ r, spec.spawn csr k = .ok r :=
  ⟨_, Outcome.bind_ok.mpr ⟨_, allocated, Outcome.bind_ok.mpr ⟨_, registered, rfl⟩⟩⟩

theorem register_of_acceptable {bottom : BitVec 64} (aligned : bottom.toNat % 8192 = 0) (acceptable : spec.Acceptable)
    {sched : SchedulerState} {i : Fin maxTasks} (free : sched.tasks i = none) (csr : Csrs) :
    ∃ r, spec.register csr sched bottom (bottom + taskStackSize) = .ok r := by
  obtain ⟨entry, mode⟩ := spec
  cases mode with
  | MMode => exact createTaskMmode_free free csr entry _
  | UMode codeBase codeSize mmio =>
    obtain ⟨cfg, built⟩ := (buildPmp_succeeds_iff aligned).mpr acceptable
    obtain ⟨r, created⟩ := createTask_free free csr entry (bottom + taskStackSize) (List.ofFn cfg.regions)
    exact ⟨r, Outcome.bind_ok.mpr ⟨cfg, built, created⟩⟩

theorem acceptable_of_register {bottom : BitVec 64} (aligned : bottom.toNat % 8192 = 0) {sched : SchedulerState}
    {r : TaskId × SchedulerState × Csrs}
    (registered : spec.register csr sched bottom (bottom + taskStackSize) = .ok r) : spec.Acceptable := by
  obtain ⟨entry, mode⟩ := spec
  cases mode with
  | MMode => trivial
  | UMode codeBase codeSize mmio =>
    obtain ⟨cfg, built, -⟩ := Outcome.bind_ok.mp registered
    exact (buildPmp_succeeds_iff aligned).mp ⟨cfg, built⟩

/-- What a spawn needs. -/
theorem spawn_succeeds (spawned : Spawned l done k.sched) (inside : HeapIn l k.heap) (slot : done.length < maxTasks)
    (acceptable : spec.Acceptable) (room : k.heap.stackBase + 8192 ≤ k.heap.heapEnd.toNat) (csr : Csrs) :
    ∃ r, spec.spawn csr k = .ok r := by
  obtain ⟨bottom, heap, allocated, base⟩ := allocTaskStack_fits inside room
  have aligned : bottom.toNat % 8192 = 0 := by
    rw [base, BumpAllocator.stackBase]
    exact Nat.mul_mod_left _ _
  have free : k.sched.tasks ⟨done.length, slot⟩ = none := spawned.free _ le_rfl
  obtain ⟨⟨id, sched, csr'⟩, registered⟩ := register_of_acceptable aligned acceptable free csr
  exact spawn_of_parts allocated registered

/-- What a spawn that has succeeded needed, and what it leaves. -/
structure SpawnDone (l : Layout) (done : List TaskSpec) (spec : TaskSpec) (k : Kernel) (csr : Csrs) (id : TaskId)
    (k' : Kernel) (csr' : Csrs) : Prop where
  slot : done.length < maxTasks
  acceptable : spec.Acceptable
  room : k.heap.stackBase + 8192 ≤ k.heap.heapEnd.toNat
  id : id = ⟨BitVec.ofNat 8 done.length⟩
  csr : csr' = csr
  kernel : k' = ⟨k'.sched, k.pmp, k.uart, k.timer, k'.heap⟩
  next : k'.heap.stackBase = k.heap.stackBase + 8192
  heapEnd : k'.heap.heapEnd = k.heap.heapEnd
  inside : HeapIn l k'.heap
  spawned : Spawned l (done ++ [spec]) k'.sched
  placed : ∀ i t, k'.sched.tasks i = some t →
    k.sched.tasks i = some t ∨ i.val = done.length ∧
      t.stackBottom.toNat = k.heap.stackBase ∧ t.stackTop.toNat = k.heap.stackBase + 8192

theorem spawn_done {id : TaskId} (spawned : Spawned l done k.sched) (inside : HeapIn l k.heap)
    (succeeded : spec.spawn csr k = .ok (id, k', csr')) : SpawnDone l done spec k csr id k' csr' := by
  obtain ⟨bottom, allocated, registered, kernel⟩ := spawn_cases succeeded
  obtain ⟨base, room, next, heapEnd⟩ := allocTaskStack_room inside allocated
  obtain ⟨stack, inside'⟩ := allocTaskStack_ok inside allocated
  have aligned : bottom.toNat % 8192 = 0 := by
    rw [base, BumpAllocator.stackBase]
    exact Nat.mul_mod_left _ _
  obtain ⟨same, task, i, named, inserted, made⟩ := register_ok registered
  have slot := spawned.next inserted
  constructor
  · rw [← slot]
    exact i.isLt
  · exact acceptable_of_register aligned registered
  · exact room
  · rw [named, slot]
  · exact same
  · exact kernel
  · exact next
  · exact heapEnd
  · exact inside'
  · exact spawned.insert inserted (made.newborn stack)
  · intro j t at_
    rw [inserted.tasks] at at_
    split at at_
    · rename_i here
      cases at_
      rw [here, made.stackBottom, made.stackTop, stack.size, base]
      exact .inr ⟨slot, rfl, rfl⟩
    · exact .inl at_

/-- The stacks of the first tasks follow one another from `base` on, and the next one is to follow them. -/
structure Stacked (base : Nat) (done : List TaskSpec) (k : Kernel) : Prop where
  next : k.heap.stackBase = base + 8192 * done.length
  placed : ∀ i t, k.sched.tasks i = some t →
    t.stackBottom.toNat = base + 8192 * i.val ∧ t.stackTop.toNat = base + 8192 * (i.val + 1)

theorem SpawnDone.stacked {id : TaskId} {base : Nat} (step : SpawnDone l done spec k csr id k' csr')
    (stacked : Stacked base done k) : Stacked base (done ++ [spec]) k' := by
  constructor
  · rw [step.next, stacked.next, List.length_append, List.length_singleton]
    omega
  · intro i t at_
    rcases step.placed i t at_ with before | ⟨here, bottom, top⟩
    · exact stacked.placed i t before
    · rw [bottom, top, here, stacked.next]
      omega

/-- Spawning a list of tasks succeeds exactly if there are slots, regions and stacks for all of them. -/
theorem spawnAll_succeeds_iff (spawned : Spawned l done k.sched) (inside : HeapIn l k.heap) (specs : List TaskSpec)
    (csr : Csrs) :
    (∃ r, spawnAll specs k csr = .ok r) ↔
      done.length + specs.length ≤ maxTasks ∧ (∀ spec ∈ specs, spec.Acceptable) ∧
        8192 * specs.length ≤ k.heap.heapEnd.toNat - k.heap.stackBase := by
  induction specs generalizing done k csr with
  | nil =>
    refine ⟨fun _ => ⟨spawned.fits, by simp, by simp⟩, fun _ => ⟨_, rfl⟩⟩
  | cons spec specs ih =>
    rw [List.length_cons, List.forall_mem_cons]
    constructor
    · rintro ⟨r, all⟩
      rw [spawnAll, List.foldlM_cons] at all
      obtain ⟨⟨k₁, csr₁⟩, first, rest⟩ := Outcome.bind_ok.mp all
      obtain ⟨⟨id, k₂, csr₂⟩, spawn, same⟩ := Outcome.bind_ok.mp first
      cases same
      have step := spawn_done spawned inside spawn
      have room := step.room
      obtain ⟨slots, others, blocks⟩ := (ih step.spawned step.inside _).mp ⟨r, rest⟩
      rw [List.length_append, List.length_singleton] at slots
      rw [step.next, step.heapEnd] at blocks
      exact ⟨by omega, ⟨step.acceptable, others⟩, by omega⟩
    · rintro ⟨slots, ⟨acceptable, others⟩, blocks⟩
      obtain ⟨⟨id, k₁, csr₁⟩, spawn⟩ := spawn_succeeds spawned inside (by omega) acceptable (by omega) csr
      have step := spawn_done spawned inside spawn
      have remaining : 8192 * specs.length ≤ k₁.heap.heapEnd.toNat - k₁.heap.stackBase := by
        rw [step.next, step.heapEnd]
        omega
      have counted : (done ++ [spec]).length + specs.length ≤ maxTasks := by
        rw [List.length_append, List.length_singleton]
        omega
      obtain ⟨r, rest⟩ := (ih step.spawned step.inside csr₁).mpr ⟨counted, others, remaining⟩
      refine ⟨r, ?_⟩
      rw [spawnAll, List.foldlM_cons]
      exact Outcome.bind_ok.mpr ⟨(k₁, csr₁), Outcome.bind_ok.mpr ⟨_, spawn, rfl⟩, rest⟩

/-- What a list of spawns leaves. -/
theorem spawnAll_stacked {specs : List TaskSpec} {base : Nat} (spawned : Spawned l done k.sched) (inside : HeapIn l k.heap)
    (stacked : Stacked base done k) (all : spawnAll specs k csr = .ok (k', csr')) :
    Stacked base (done ++ specs) k' ∧ k' = ⟨k'.sched, k.pmp, k.uart, k.timer, k'.heap⟩ := by
  induction specs generalizing done k csr with
  | nil =>
    cases all
    rw [List.append_nil]
    exact ⟨stacked, rfl⟩
  | cons spec specs ih =>
    rw [spawnAll, List.foldlM_cons] at all
    obtain ⟨⟨k₁, csr₁⟩, first, rest⟩ := Outcome.bind_ok.mp all
    obtain ⟨⟨id, k₂, csr₂⟩, spawn, same⟩ := Outcome.bind_ok.mp first
    cases same
    have step := spawn_done spawned inside spawn
    obtain ⟨result, kernel⟩ := ih step.spawned step.inside (step.stacked stacked) rest
    rw [List.append_assoc] at result
    rw [step.kernel] at kernel
    exact ⟨result, kernel⟩

end Spawn

/-! ## Booting -/

theorem schedInit_stack {st : SchedulerState} {i : Fin maxTasks} {t : Task} (slot : (schedInit st).tasks i = some t) :
    ∃ t', st.tasks i = some t' ∧ t.stackBottom = t'.stackBottom ∧ t.stackTop = t'.stackTop := by
  rw [schedInit_tasks] at slot
  obtain ⟨t', before, rfl⟩ := Option.map_eq_some_iff.mp slot
  exact ⟨t', before, rfl, rfl⟩

/-- The kernel that `boot` spawns into. -/
def bootKernel (l : Layout) (heap : BumpAllocator) (m : Machine) : Kernel :=
  ⟨.empty, (pmpInit l m.kernel.pmp m.kernel.uart).1, (pmpInit l m.kernel.pmp m.kernel.uart).2, m.kernel.timer.init, heap⟩

/-- The machine that it leaves once the scheduler is started. -/
def bootMachine (m : Machine) (r : Kernel × Csrs) : Machine :=
  ⟨{ m.hart with csr := enableInterrupts r.2 }, { r.1 with sched := schedInit r.1.sched }⟩

/-- Booting is spawning and starting the scheduler. -/
theorem boot_eq (l : Layout) (heap : BumpAllocator) (specs : List TaskSpec) (m : Machine) :
    boot l heap specs m = (spawnAll specs (bootKernel l heap m) m.hart.csr).map (bootMachine m) := by
  simp only [boot, withLock_eq, bootKernel]
  cases spawnAll specs _ m.hart.csr with
  | error msg => rfl
  | ok r => rfl

theorem boot_ok {l : Layout} {heap : BumpAllocator} {specs : List TaskSpec} {m m' : Machine} :
    boot l heap specs m = .ok m' ↔
      ∃ r, spawnAll specs (bootKernel l heap m) m.hart.csr = .ok r ∧ bootMachine m r = m' := by
  rw [boot_eq, Outcome.map_ok]

theorem boot_ok_of_room {l : Layout} {heap : BumpAllocator} (inside : HeapIn l heap) (specs : List TaskSpec) (m : Machine) :
    (∃ m', boot l heap specs m = .ok m') ↔
      specs.length ≤ maxTasks ∧ (∀ spec ∈ specs, spec.Acceptable) ∧
        8192 * specs.length ≤ heap.heapEnd.toNat - heap.stackBase := by
  have spawned : Spawned l [] (bootKernel l heap m).sched := spawned_empty l
  have succeeds := spawnAll_succeeds_iff spawned inside specs m.hart.csr
  rw [List.length_nil, Nat.zero_add] at succeeds
  refine Iff.trans ?_ succeeds
  constructor
  · rintro ⟨m', boots⟩
    obtain ⟨r, all, -⟩ := boot_ok.mp boots
    exact ⟨r, all⟩
  · rintro ⟨r, all⟩
    exact ⟨_, boot_ok.mpr ⟨r, all, rfl⟩⟩

/-- What a boot leaves of its tasks' stacks and of the console. -/
theorem boot_leaves {l : Layout} {heap : BumpAllocator} (inside : HeapIn l heap) {specs : List TaskSpec} {m m' : Machine}
    (boots : boot l heap specs m = .ok m') :
    m'.kernel.uart = (pmpInit l m.kernel.pmp m.kernel.uart).2 ∧ ∀ i t, m'.kernel.sched.tasks i = some t →
      t.stackBottom.toNat = heap.stackBase + 8192 * i.val ∧ t.stackTop.toNat = heap.stackBase + 8192 * (i.val + 1) := by
  obtain ⟨⟨k, csr⟩, all, rfl⟩ := boot_ok.mp boots
  have fresh : Stacked heap.stackBase [] (bootKernel l heap m) := by
    refine ⟨?_, fun i t slot => by cases slot⟩
    rw [List.length_nil, Nat.mul_zero, Nat.add_zero, bootKernel]
  obtain ⟨stacked, kernel⟩ := spawnAll_stacked (spawned_empty l) inside fresh all
  constructor
  · change k.uart = _
    rw [kernel, bootKernel]
  · intro i t slot
    obtain ⟨t', before, bottom, top⟩ := schedInit_stack slot
    rw [bottom, top]
    exact stacked.placed i t' before

/-- **Booting.** Booting any list of tasks succeeds exactly if there are no more of them than slots, the builder
accepts what each declares, and the heap has room for their stacks from the next stack boundary on. The stacks then
follow one another without a gap, in the order of the tasks. -/
theorem boot_succeeds_iff {l : Layout} {heap : BumpAllocator} (inside : HeapIn l heap) (specs : List TaskSpec)
    (m : Machine) :
    ((∃ m', boot l heap specs m = .ok m') ↔
      specs.length ≤ maxTasks ∧ (∀ spec ∈ specs, spec.Acceptable) ∧
        8192 * specs.length ≤ heap.heapEnd.toNat - heap.stackBase) ∧
    ∀ m', boot l heap specs m = .ok m' → ∀ i t, m'.kernel.sched.tasks i = some t →
      t.stackBottom.toNat = heap.stackBase + 8192 * i.val ∧ t.stackTop.toNat = heap.stackBase + 8192 * (i.val + 1) := by
  exact ⟨boot_ok_of_room inside specs m, fun m' boots => (boot_leaves inside boots).2⟩

theorem boot_succeeds_iff_kmain : 8192 * kmainTasks.length ≤ qemuHeap.heapEnd.toNat - qemuHeap.stackBase ∧
    ∀ i t, kmainBooted.kernel.sched.tasks i = some t → t.stackBottom.toNat = 0x8002_2000 + 8192 * i.val := by
  obtain ⟨succeeds, placed⟩ := boot_succeeds_iff qemuHeap_in kmainTasks powerOn
  exact ⟨(succeeds.mp ⟨_, kmain_boots⟩).2.2, fun i t slot => (placed _ kmain_boots i t slot).1⟩

/-! ## What `kmain` prints -/

/-- Print one line. -/
def say (u : Uart) (line : String) : Uart := ⟨u.tx ++ crlf (Serial.bytes (line ++ "\n")), u.rx⟩

theorem println_say (u : Uart) (line : String) : Serial.println u line = say u line := puts_crlf u _

theorem puts_say (u : Uart) (line : String) {text : String} (ends : text = line ++ "\n") : Serial.puts u text = say u line := by
  rw [ends, puts_crlf, say]

theorem say_all (u : Uart) (lines : List String) :
    lines.foldl say u = ⟨u.tx ++ lines.flatMap fun line => crlf (Serial.bytes (line ++ "\n")), u.rx⟩ := by
  induction lines generalizing u with
  | nil => rw [List.foldl_nil, List.flatMap_nil, List.append_nil]
  | cons line lines ih => rw [List.foldl_cons, ih, List.flatMap_cons, say, List.append_assoc]

/-- Print `created` and the number of a task. -/
def told (u : Uart) (created : String) (n : Nat) : Uart :=
  Serial.puts (Serial.putc (Serial.puts u created) (48 + BitVec.ofNat 8 n)) "\n"

theorem told_say (u : Uart) (created : String) (i : Fin maxTasks) :
    told u created i = say u (created ++ toString i.val) := by
  have digit : crlf (Serial.bytes (toString i.val)) = [48 + BitVec.ofNat 8 i] := by
    fin_cases i <;> decide
  rw [told, puts_crlf, puts_crlf, say, bytes_append, bytes_append, crlf_append, crlf_append, digit]
  simp only [Serial.putc, List.append_assoc]

/-- No kernel entry gives cause to print. -/
theorem initEntry_quiet (p : Regs) (i : Fin pmpCount) {r : PmpRegion} {l : Symbols} (kernel : r ∈ l.kernelEntryRegions) :
    ∃ q, ∀ u, initEntry (p, u) i r = (q, u) := by
  simp only [Symbols.kernelEntryRegions, List.mem_cons, List.not_mem_nil, or_false] at kernel
  rcases kernel with rfl | rfl | rfl | rfl
  · by_cases anchored : l.stext > 0
    · refine ⟨writePmpaddr p i (l.stext >>> 2), fun u => ?_⟩
      simp only [initEntry]
      rw [if_neg (by decide), if_neg (by decide), if_pos ⟨by decide, anchored⟩]
    · refine ⟨p, fun u => ?_⟩
      simp only [initEntry]
      rw [if_neg (by decide), if_neg (by decide), if_neg fun both => anchored both.2]
  · refine ⟨setPmpcfg (writePmpaddr p i (l.userTextEnd >>> 2)) i (Flags.X ||| Flags.L ||| Flags.aTor), fun u => ?_⟩
    simp only [initEntry]
    rw [if_pos (by decide)]
  · refine ⟨setPmpcfg (writePmpaddr p i (l.eheap >>> 2)) i (Flags.RW ||| Flags.L ||| Flags.aTor), fun u => ?_⟩
    simp only [initEntry]
    rw [if_pos (by decide)]
  · refine ⟨(configureRegion p ⟨[], []⟩ i ⟨0x1000_0000, 0x0000_1000, Flags.RW ||| Flags.L⟩).2.1, fun u => ?_⟩
    simp only [initEntry, configureRegion, dif_pos i.isLt]
    rfl

theorem initEntries_quiet {l : Symbols} {entries : List (PmpRegion × Fin pmpCount)}
    (kernel : ∀ e ∈ entries, e.1 ∈ l.kernelEntryRegions) (p : Regs) :
    ∃ q, ∀ u, entries.foldl (fun s e => initEntry s e.2 e.1) (p, u) = (q, u) := by
  induction entries generalizing p with
  | nil => exact ⟨p, fun _ => rfl⟩
  | cons e entries ih =>
    obtain ⟨here, later⟩ := List.forall_mem_cons.mp kernel
    obtain ⟨q, first⟩ := initEntry_quiet p e.2 here
    obtain ⟨r, rest⟩ := ih later q
    refine ⟨r, fun u => ?_⟩
    rw [List.foldl_cons, first, rest]

theorem pmpInit_quiet (l : Layout) (p : Regs) :
    ∃ q, ∀ u, pmpInit l p u = (q, Serial.puts u "[pmp] Kernel entries locked\n") := by
  let entries := l.symbols.kernelEntryRegions.zip (List.finRange pmpCount)
  have kernel : ∀ e ∈ entries, e.1 ∈ l.symbols.kernelEntryRegions := fun e member => (List.of_mem_zip member).1
  obtain ⟨q, quiet⟩ := initEntries_quiet kernel (clearAll p)
  refine ⟨q, fun u => ?_⟩
  rw [pmpInit, Symbols.pmpInit]
  simp only [entries] at quiet
  rw [quiet u]

/-! ## Spawning with messages -/

/-- The kernel with another console. -/
def Kernel.withUart (k : Kernel) (u : Uart) : Kernel := ⟨k.sched, k.pmp, u, k.timer, k.heap⟩

theorem spawn_withUart (spec : TaskSpec) (csr : Csrs) (k : Kernel) (u : Uart) :
    spec.spawn csr (k.withUart u) = (spec.spawn csr k).map fun r => (r.1, r.2.1.withUart u, r.2.2) := by
  have heap : (k.withUart u).heap = k.heap := rfl
  have sched : (k.withUart u).sched = k.sched := rfl
  simp only [TaskSpec.spawn, heap, sched]
  cases allocTaskStack k.heap with
  | error msg => rfl
  | ok stack =>
    obtain ⟨⟨bottom, top⟩, heap'⟩ := stack
    simp only [bind, Except.bind]
    cases spec.register csr k.sched bottom top with
    | error msg => rfl
    | ok r => rfl

/-- Spawn tasks in order, each with its message. -/
def spawnTold (tasks : List (TaskSpec × String)) (k : Kernel) (csr : Csrs) : Outcome (Kernel × Csrs) :=
  tasks.foldlM (fun s e => spawnAndTell e.1 e.2 s.1 s.2) (k, csr)

theorem spawnTold_cons (e : TaskSpec × String) (tasks : List (TaskSpec × String)) (k : Kernel) (csr : Csrs) :
    spawnTold (e :: tasks) k csr = spawnAndTell e.1 e.2 k csr >>= fun r => spawnTold tasks r.1 r.2 := by
  rw [spawnTold, List.foldlM_cons]
  rfl

theorem spawnAll_cons (spec : TaskSpec) (specs : List TaskSpec) (k : Kernel) (csr : Csrs) :
    spawnAll (spec :: specs) k csr = spec.spawn csr k >>= fun r => spawnAll specs r.2.1 r.2.2 := by
  rw [spawnAll, List.foldlM_cons]
  cases spec.spawn csr k with
  | error msg => rfl
  | ok r => rfl

/-- What they print, for task numbers from `n` on. -/
def toldAll (u : Uart) : Nat → List (TaskSpec × String) → Uart
  | _, [] => u
  | n, e :: tasks => toldAll (told u e.2 n) (n + 1) tasks

theorem spawnAndTell_eq {spec : TaskSpec} {csr csr' : Csrs} {k k' : Kernel} {n : Nat} (small : n < maxTasks) (u : Uart)
    (succeeded : spec.spawn csr k = .ok (⟨BitVec.ofNat 8 n⟩, k', csr')) (created : String) :
    spawnAndTell spec created (k.withUart u) csr = .ok (k'.withUart (told u created n), csr') := by
  have number : (BitVec.ofNat 8 n).setWidth 64 = BitVec.ofNat 64 n := by
    have bound : n < 4 := small
    apply BitVec.eq_of_toNat_eq
    rw [BitVec.toNat_setWidth, BitVec.toNat_ofNat, BitVec.toNat_ofNat]
    omega
  have digit := Serial.putDec_task (Serial.puts u created) ⟨n, small⟩
  have console : (k'.withUart u).uart = u := rfl
  rw [spawnAndTell, spawn_withUart, succeeded]
  simp only [Except.map, bind, Except.bind, console, number]
  rw [digit]
  rfl

/-- The messages do not change what is spawned. -/
theorem spawnTold_eq {l : Layout} (tasks : List (TaskSpec × String)) {done : List TaskSpec} {k : Kernel}
    (spawned : Spawned l done k.sched) (inside : HeapIn l k.heap) (u : Uart) (csr : Csrs) :
    spawnTold tasks (k.withUart u) csr =
      (spawnAll (tasks.map Prod.fst) k csr).map fun r => (r.1.withUart (toldAll u done.length tasks), r.2) := by
  induction tasks generalizing done k u csr with
  | nil => rfl
  | cons e tasks ih =>
    rw [spawnTold_cons, List.map_cons, spawnAll_cons]
    cases spawn : e.1.spawn csr k with
    | error msg =>
      simp only [spawnAndTell, spawn_withUart, spawn]
      rfl
    | ok r =>
      obtain ⟨id, k', csr'⟩ := r
      have step := spawn_done spawned inside spawn
      have rest := ih step.spawned step.inside (told u e.2 done.length) csr'
      rw [List.length_append, List.length_singleton] at rest
      rw [step.id] at spawn
      rw [spawnAndTell_eq step.slot u spawn, toldAll]
      exact rest

/-! ## `kmain` -/

/-- The allocator after `init_heap`. -/
def Image.heap (img : Image) : BumpAllocator := ⟨img.sheap, img.layout.eheap, img.sheap + 3⟩

def Image.tasks (img : Image) : List TaskSpec := [img.idle, img.echo, img.violation]

/-- The tasks with what is printed about them. -/
def Image.announced (img : Image) : List (TaskSpec × String) :=
  [(img.idle, "[sched] idle task created: "), (img.echo, "[sched] task created: "),
   (img.violation, "[sched] task created: ")]

/-- What `kmain` prints before it enables interrupts. -/
def kmainLines : List String :=
  ["CyptOS v0.1.0",
   "RV64 bare-metal microkernel",
   "----------------------------",
   "[alloc] Heap initialized",
   "[alloc] Test alloc ok, len=3",
   "[trap] mtvec initialized",
   "[pmp] Kernel entries locked",
   "[timer] CLINT initialized, tick=10ms",
   "[sched] idle task created: 0",
   "[sched] task created: 1",
   "[sched] task created: 2"]

section Kmain

variable (img : Image)

theorem alignUp_one (current : BitVec 64) : BumpAllocator.alignUp current 1 = current := by
  have mask : ~~~(1 - 1 : BitVec 64) = BitVec.allOnes 64 := by decide
  rw [BumpAllocator.alignUp, BitVec.add_sub_cancel, mask, BitVec.and_allOnes]

theorem toNat_heap_next (fits : img.sheap.toNat + 3 < 2 ^ 64) : (img.sheap + 3).toNat = img.sheap.toNat + 3 := by
  rw [BitVec.toNat_add]
  exact Nat.mod_eq_of_lt fits

theorem initHeap_eq (fits : img.sheap.toNat + 3 ≤ img.layout.eheap.toNat) (heap : BumpAllocator) (u : Uart) :
    initHeap img heap u = .ok (img.heap, ["[alloc] Heap initialized", "[alloc] Test alloc ok, len=3"].foldl say u) := by
  have bound := img.layout.physical
  have inside : ¬ img.sheap + 3 > img.layout.eheap := by
    rw [gt_iff_lt, BitVec.lt_def, toNat_heap_next img (by omega)]
    omega
  have granted : (heap.init img.sheap img.layout.eheap).alloc ⟨3, 1⟩ = (some img.sheap, img.heap) := by
    simp only [BumpAllocator.alloc, BumpAllocator.init, alignUp_one, if_neg inside]
    rfl
  have length : "[alloc] Test alloc ok, len=" ++ Serial.fmtDec 3 = "[alloc] Test alloc ok, len=3" := by decide
  have line : Serial.puts u "[alloc] Heap initialized\n" = say u "[alloc] Heap initialized" := puts_say u _ (by decide)
  simp only [initHeap, granted, length, println_say, line, List.foldl_cons, List.foldl_nil]

theorem initHeap_fails (short : img.layout.eheap.toNat < img.sheap.toNat + 3) (heap : BumpAllocator) (u : Uart) :
    initHeap img heap u = .error "memory allocation of 3 bytes failed" := by
  have bound := img.layout.physical
  have ordered := img.heap_ordered
  have outside : img.sheap + 3 > img.layout.eheap := by
    rw [gt_iff_lt, BitVec.lt_def, toNat_heap_next img (by omega)]
    exact short
  have refused : (heap.init img.sheap img.layout.eheap).alloc ⟨3, 1⟩ = (none, heap.init img.sheap img.layout.eheap) := by
    simp only [BumpAllocator.alloc, BumpAllocator.init, alignUp_one, if_pos outside]
  simp only [initHeap, refused]

theorem spawns_eq (k : Kernel) (csr : Csrs) (rest : Kernel × Csrs → Outcome Machine) :
    (spawnIdleTask img k csr >>= fun r => spawnEchoTask img r.1 r.2 >>= fun r => spawnViolationTask img r.1 r.2 >>= rest) =
      spawnTold img.announced k csr >>= rest := by
  simp only [spawnIdleTask, spawnEchoTask, spawnViolationTask, spawnTold, Image.announced, List.foldlM_cons,
    List.foldlM_nil, bind_assoc, bind_pure]

theorem Image.heap_in (fits : img.sheap.toNat + 3 ≤ img.layout.eheap.toNat) : HeapIn img.layout img.heap := by
  have bound := img.layout.physical
  have next : img.heap.next.toNat = img.sheap.toNat + 3 := toNat_heap_next img (by omega)
  refine ⟨img.heap_after, ?_, ?_, rfl⟩
  · rw [next]
    exact Nat.le_add_right _ _
  · rw [next]
    exact fits

theorem kmain_before_spawns (t : Timer) (u : Uart) :
    timerInit t (Serial.puts (trapInit (["[alloc] Heap initialized", "[alloc] Test alloc ok, len=3"].foldl say (printBanner u)))
      "[pmp] Kernel entries locked\n") = (t.init, (kmainLines.take 8).foldl say u) := by
  have tick : "[timer] CLINT initialized, tick=" ++ Serial.fmtDec (tickIntervalUs / 1000) ++ "ms" =
    "[timer] CLINT initialized, tick=10ms" := by decide
  have line (u : Uart) : Serial.puts u "[pmp] Kernel entries locked\n" = say u "[pmp] Kernel entries locked" :=
    puts_say u _ (by decide)
  simp only [timerInit, trapInit, printBanner, println_say, line, tick]
  rfl

theorem kmain_spawn_lines (u : Uart) : toldAll u 0 img.announced = (kmainLines.drop 8).foldl say u := by
  have idle (u : Uart) : told u "[sched] idle task created: " 0 = say u "[sched] idle task created: 0" :=
    (told_say u _ 0).trans (congrArg (say u) (by decide))
  have echo (u : Uart) : told u "[sched] task created: " 1 = say u "[sched] task created: 1" :=
    (told_say u _ 1).trans (congrArg (say u) (by decide))
  have violation (u : Uart) : told u "[sched] task created: " 2 = say u "[sched] task created: 2" :=
    (told_say u _ 2).trans (congrArg (say u) (by decide))
  simp only [Image.announced, toldAll, Nat.zero_add, Nat.reduceAdd, idle, echo, violation]
  rfl

/-- `kmain` is `boot` with messages. -/
theorem kmain_eq (fits : img.sheap.toNat + 3 ≤ img.layout.eheap.toNat) (m : Machine) :
    kmain img m = (boot img.layout img.heap img.tasks m).map fun b =>
      ⟨b.hart, b.kernel.withUart (kmainLines.foldl say m.kernel.uart)⟩ := by
  obtain ⟨q, init⟩ := pmpInit_quiet img.layout m.kernel.pmp
  have spawned : Spawned img.layout [] (bootKernel img.layout img.heap m).sched := spawned_empty img.layout
  have spawns (u : Uart) := spawnTold_eq img.announced spawned (img.heap_in fits) u m.hart.csr
  have lines : kmainLines.foldl say m.kernel.uart = toldAll ((kmainLines.take 8).foldl say m.kernel.uart) 0 img.announced := by
    rw [kmain_spawn_lines, ← List.foldl_append, List.take_append_drop]
  have kernel (u : Uart) : (bootKernel img.layout img.heap m).withUart u = ⟨.empty, q, u, m.kernel.timer.init, img.heap⟩ := by
    rw [bootKernel, Kernel.withUart, init]
  have ok_bind {α β : Type} (a : α) (f : α → Outcome β) : (Except.ok a >>= f) = f a := rfl
  simp only [kmain, initHeap_eq img fits, init, withLock_eq, ok_bind, kmain_before_spawns]
  rw [spawns_eq, ← kernel, spawns, boot_eq, lines]
  change _ = ((spawnAll (img.announced.map Prod.fst) (bootKernel img.layout img.heap m) m.hart.csr).map (bootMachine m)).map _
  cases spawnAll (img.announced.map Prod.fst) (bootKernel img.layout img.heap m) m.hart.csr with
  | error msg => rfl
  | ok r => simp only [Except.map, ok_bind, pure, Except.pure, bootMachine, Kernel.withUart, List.length_nil]

theorem Image.acceptable : ∀ spec ∈ img.tasks, spec.Acceptable := by
  have aligned : img.userTextStart.toNat = img.userTextStart.toNat / 4096 * 2 ^ (9 + 3) := by
    have := img.userText_aligned
    omega
  have code : PmpRegion.Valid ⟨img.userTextStart, 0x1000, Flags.RX⟩ := ⟨_, 9, by decide, aligned, rfl⟩
  have uart : PmpRegion.Valid ⟨uartBase, 0x1000, Flags.RW⟩ := ⟨0x1_0000, 9, by decide, rfl, rfl⟩
  intro spec member
  simp only [Image.tasks, List.mem_cons, List.not_mem_nil, or_false] at member
  rcases member with rfl | rfl | rfl
  · trivial
  · refine ⟨by decide, code, fun r member => ?_⟩
    rw [List.mem_singleton.mp member]
    exact uart
  · exact ⟨by decide, code, fun r member => by cases member⟩

/-- What the heap must have room for. -/
def Image.Room : Prop := (img.sheap.toNat + 3 + 8191) / 8192 * 8192 + 3 * 8192 ≤ img.layout.eheap.toNat

theorem Image.Room.fits (room : img.Room) : img.sheap.toNat + 3 ≤ img.layout.eheap.toNat := by
  unfold Image.Room at room
  omega

theorem boot_tasks_iff (fits : img.sheap.toNat + 3 ≤ img.layout.eheap.toNat) (m : Machine) :
    (∃ b, boot img.layout img.heap img.tasks m = .ok b) ↔ img.Room := by
  have bound := img.layout.physical
  have count : img.tasks.length = 3 := rfl
  have limit : img.heap.heapEnd = img.layout.eheap := rfl
  have base : img.heap.stackBase = (img.sheap.toNat + 3 + 8191) / 8192 * 8192 := by
    rw [BumpAllocator.stackBase, Image.heap, toNat_heap_next img (by omega)]
  rw [boot_ok_of_room (img.heap_in fits), base, count, limit, Image.Room]
  constructor
  · rintro ⟨-, -, blocks⟩
    omega
  · intro blocks
    exact ⟨by decide, img.acceptable, by omega⟩

theorem kmain_ok {m m' : Machine} : kmain img m = .ok m' ↔ img.sheap.toNat + 3 ≤ img.layout.eheap.toNat ∧
    ∃ b, boot img.layout img.heap img.tasks m = .ok b ∧
      ⟨b.hart, b.kernel.withUart (kmainLines.foldl say m.kernel.uart)⟩ = m' := by
  rcases Nat.lt_or_ge img.layout.eheap.toNat (img.sheap.toNat + 3) with short | fits
  · have fails : kmain img m = .error "memory allocation of 3 bytes failed" := by
      simp only [kmain, initHeap_fails img short]
      rfl
    rw [fails]
    constructor
    · intro ok
      cases ok
    · rintro ⟨fits, -⟩
      omega
  · rw [kmain_eq img fits, Outcome.map_ok]
    exact ⟨fun boots => ⟨fits, boots⟩, fun boots => boots.2⟩

theorem kmain_succeeds_iff (m : Machine) : (∃ m', kmain img m = .ok m') ↔ img.Room := by
  constructor
  · rintro ⟨m', ok⟩
    obtain ⟨fits, b, boots, -⟩ := (kmain_ok img).mp ok
    exact (boot_tasks_iff img fits m).mp ⟨b, boots⟩
  · intro room
    obtain ⟨b, boots⟩ := (boot_tasks_iff img room.fits m).mpr room
    exact ⟨_, (kmain_ok img).mpr ⟨room.fits, b, boots, rfl⟩⟩

end Kmain

/-- The machine with some more text printed. -/
def Machine.saying (m : Machine) (text : List (BitVec 8)) : Machine :=
  ⟨m.hart, m.kernel.withUart ⟨m.kernel.uart.tx ++ text, m.kernel.uart.rx⟩⟩

/-- **`kmain`.** On any image, `kmain` succeeds exactly if the heap has room for the three bytes and the three
stacks; it has then printed these lines. Whatever it gets to print of its last line before an interrupt comes, every
run from there is one from a machine that has booted the three tasks, up to what was printed before. -/
theorem kmain_refines_boot (img : Image) {m : Machine} (reset : Reset m) :
    ((∃ m', kmain img m = .ok m') ↔ img.Room) ∧
    ∀ m', kmain img m = .ok m' →
      m'.kernel.uart.tx =
        m.kernel.uart.tx ++ kmainLines.flatMap (fun line => crlf (Serial.bytes (line ++ "\n"))) ∧
      ∃ b, Booted img.layout img.tasks b ∧ ∀ said es n, Runs (m'.saying said) es n →
        ∃ n' text, Runs b es n' ∧ n'.silent = n.silent ∧ n.kernel.uart.tx = m'.kernel.uart.tx ++ said ++ text ∧
          n'.kernel.uart.tx = b.kernel.uart.tx ++ text := by
  refine ⟨kmain_succeeds_iff img m, fun m' ok => ?_⟩
  obtain ⟨fits, b, boots, rfl⟩ := (kmain_ok img).mp ok
  have inside := img.heap_in fits
  have lines := say_all m.kernel.uart kmainLines
  refine ⟨?_, b, ⟨m, img.heap, reset, inside, boots⟩, fun said es n run => ?_⟩
  · change (kmainLines.foldl say m.kernel.uart).tx = _
    rw [lines]
  · -- booting and `kmain` read nothing from the console
    have received : b.kernel.uart.rx = (kmainLines.foldl say m.kernel.uart).rx := by
      obtain ⟨q, init⟩ := pmpInit_quiet img.layout m.kernel.pmp
      rw [(boot_leaves inside boots).1, init, puts_crlf, lines]
    refine runs_silent ?_ run
    simp only [Machine.saying, Machine.silent, Kernel.withUart, received]

/-- The image that `kmainTasks` are taken from. -/
def qemuImage : Image where
  layout := qemuVirt
  sheap := 0x8002_0000
  userTextStart := 0x8000_8000
  idleTaskEntry := 0x8000_0200
  userEchoTask := 0x8000_8000
  userViolationTask := 0x8000_8100
  heap_after := by decide
  heap_ordered := by decide
  userText_aligned := by decide

theorem kmain_refines_boot_qemu : ∃ m' b, kmain qemuImage powerOn = .ok m' ∧ Booted qemuVirt kmainTasks b ∧
    m'.kernel.uart.tx = kmainLines.flatMap (fun line => crlf (Serial.bytes (line ++ "\n"))) := by
  obtain ⟨succeeds, result⟩ := kmain_refines_boot qemuImage powerOn_reset
  have room : qemuImage.Room := by
    unfold Image.Room
    decide
  obtain ⟨m', ok⟩ := succeeds.mpr room
  obtain ⟨printed, b, booted, -⟩ := result m' ok
  exact ⟨m', b, ok, booted, printed⟩

end Cyptos
