import Cyptos.Logic.System

/-!
# Memory isolation of the running system

The task entries always hold the regions of the current task. What user mode may access besides
them follows from the kernel's locked entries: these bind user mode too, and come first.
-/

namespace Cyptos
set_option autoImplicit false
open Riscv Riscv.Pmp

section Reachable

variable {l : Layout} {specs : List TaskSpec} {start m : Machine} {es : List Event}

/-- What the hardware holds while a task is dispatched. -/
structure Loaded (l : Layout) (spec : TaskSpec) (t : Task) (f : File) : Prop where
  kernel : KernelMap l f
  task : TaskMap (tableOf (spec.declared t.stackBottom)) f
  loadable : Loadable (spec.declared t.stackBottom)
  stack : StackIn l t.stackBottom t.stackTop

theorem loaded_of_run (booted : Booted l specs start) (run : Runs start es m) {i : Fin maxTasks} {t : Task}
    {spec : TaskSpec} (dispatched : Dispatched specs m i t spec) : Loaded l spec t m.kernel.pmp.file := by
  have sound := sound_of_run booted run
  have guarded := guarded_of_run booted run
  have of := sound.of_at dispatched.slot dispatched.spec
  refine ⟨guarded.kernel, ?_, of.loadable, of.stack⟩
  have task := guarded.task
  rw [table_of_current dispatched.current dispatched.slot, of.table] at task
  exact task

/-! ## The entries of the current task -/

/-- Every region that a specification lists ends at or below the end of physical memory. -/
def TaskSpec.Physical (spec : TaskSpec) : Prop :=
  match spec.mode with
  | .MMode => True
  | .UMode codeBase codeSize mmio =>
    codeBase.toNat + codeSize.toNat ≤ 2 ^ 56 ∧ ∀ r ∈ mmio, r.1.toNat + r.2.toNat ≤ 2 ^ 56

theorem declared_physical {spec : TaskSpec} (physical : spec.Physical) {bottom top : BitVec 64}
    (stack : StackIn l bottom top) {r : PmpRegion} (member : r ∈ spec.declared bottom) :
    r.base.toNat + r.size.toNat ≤ 2 ^ 56 := by
  obtain ⟨entry, mode⟩ := spec
  cases mode with
  | MMode => cases member
  | UMode codeBase codeSize mmio =>
    obtain ⟨code, lists⟩ := physical
    rcases List.mem_cons.mp member with rfl | member
    · exact code
    · rcases List.mem_cons.mp member with rfl | member
      · have size : taskStackSize.toNat = 8192 := rfl
        have high := stack.high
        have limit := l.physical
        have top := stack.size
        simp only [size]
        omega
      · obtain ⟨d, listed, rfl⟩ := List.mem_map.mp member
        exact lists d listed

/-- A valid region inside physical memory is read back from its address register. -/
theorem PmpRegion.Valid.decode {r : PmpRegion} (valid : r.Valid) (inside : r.base.toNat + r.size.toNat ≤ 2 ^ 56)
    {f : File} (bits : f.addrBits = 54) :
    napotDecode (f.legal r.napotAddr).toNat = (r.base.toNat, r.size.toNat) := by
  have addr := valid.napotAddr
  obtain ⟨n, k, -, base, size⟩ := valid
  rw [base, size] at inside
  rw [toNat_legal, bits, addr, base, size]
  exact napotDecode_encode (by decide) inside

/-- Entry `e` holds the region that the declaration has in its place, or is off. -/
def EntryHolds (declared : List PmpRegion) (f : File) (e : Fin pmpCount) : Prop :=
  match declared[e.val - 4]? with
  | some r => f.cfg e = r.flags ||| Flags.aNapot ∧ napotDecode (f.addr e).toNat = (r.base.toNat, r.size.toNat)
  | none => matching (f.cfg e) = .off

theorem Loaded.entry {spec : TaskSpec} {t : Task} {f : File} (loaded : Loaded l spec t f) (physical : spec.Physical)
    {e : Fin pmpCount} (task : 4 ≤ e.val) : EntryHolds (spec.declared t.stackBottom) f e := by
  have cfg := loaded.task.cfg e task
  have addr := loaded.task.addr e task
  unfold EntryHolds
  rw [tableOf, if_pos task] at cfg addr
  cases slot : (spec.declared t.stackBottom)[e.val - 4]? with
  | none =>
    rw [slot] at cfg
    simp only [cfg]
    rfl
  | some r =>
    have member := List.mem_of_getElem? slot
    have valid := loaded.loadable.valid r member
    rw [slot, Option.getD_some] at cfg addr
    rw [PmpRegion.cfg, if_neg valid.size_ne] at cfg
    rw [PmpRegion.addr, if_neg valid.size_ne] at addr
    refine ⟨cfg, ?_⟩
    rw [addr]
    exact valid.decode (declared_physical physical loaded.stack member) loaded.kernel.addrBits

/-- **The task entries belong to the current task.** Before the first dispatch entries 4 to 15 are off;
while a task is current they decode, in order, to its code, its stack and its MMIO regions with their
rights, and the remaining ones are off. -/
theorem task_entries_of_current (booted : Booted l specs start) (run : Runs start es m)
    (physical : ∀ spec ∈ specs, spec.Physical) :
    (m.kernel.sched.current = none → ∀ e : Fin pmpCount, 4 ≤ e.val → matching (m.kernel.pmp.file.cfg e) = .off) ∧
      ∀ i, m.kernel.sched.current = some i → ∃ t spec, m.kernel.sched.tasks i = some t ∧ specs[i.val]? = some spec ∧
        (spec.declared t.stackBottom).length ≤ 12 ∧
        ∀ e : Fin pmpCount, 4 ≤ e.val → EntryHolds (spec.declared t.stackBottom) m.kernel.pmp.file e := by
  have sound := sound_of_run booted run
  constructor
  · intro cur e task
    have cfg := (guarded_of_run booted run).task.cfg e task
    simp only [SchedulerState.table, cur] at cfg
    have off : (PmpConfig.empty.regions e).cfg = 0 := rfl
    rw [cfg, off]
    rfl
  · intro i cur
    obtain ⟨t, slot, -⟩ := sound.inv.current i cur
    obtain ⟨spec, at_, -⟩ := sound.occupied slot
    have loaded := loaded_of_run booted run ⟨cur, slot, at_⟩
    exact ⟨t, spec, slot, at_, loaded.loadable.fits, fun e task =>
      loaded.entry (physical spec (List.mem_of_getElem? at_)) task⟩

end Reachable

theorem task_entries_of_echo : ∃ t, echoRunning.kernel.sched.tasks 1 = some t ∧
    ∀ e : Fin pmpCount, 4 ≤ e.val → EntryHolds
      (userRegions 0x8000_8000 0x1000 t.stackBottom [(uartBase, 0x1000)]) echoRunning.kernel.pmp.file e := by
  have physical : ∀ spec ∈ kmainTasks, spec.Physical := by
    intro spec member
    simp only [kmainTasks, List.mem_cons, List.not_mem_nil, or_false] at member
    rcases member with rfl | rfl | rfl
    · trivial
    · refine ⟨by decide, fun r member => ?_⟩
      obtain rfl := List.mem_singleton.mp member
      decide
    · exact ⟨by decide, fun r member => by cases member⟩
  obtain ⟨t, spec, slot, at_, -, entries⟩ :=
    (task_entries_of_current kmain_booted echo_runs physical).2 1 echo_current
  obtain rfl := Option.some.inj at_
  exact ⟨t, slot, entries⟩

/-! ## What user mode may access -/

/-- A declared region grants the access. -/
def Declares (regions : List PmpRegion) (k : Access) (a : Nat) : Prop :=
  ∃ r ∈ regions, r.Contains a ∧ grants r.flags k = true

section Declaration

variable {codeBase codeSize stackBottom : BitVec 64} {mmio : List (BitVec 64 × BitVec 64)} {a : Nat}

/-- A user task's regions other than its code. -/
def dataRegions (stackBottom : BitVec 64) (mmio : List (BitVec 64 × BitVec 64)) : List PmpRegion :=
  ⟨stackBottom, taskStackSize, Flags.RW⟩ :: mmio.map fun r => ⟨r.1, r.2, Flags.RW⟩

end Declaration

/-- A declaration that covers what the locked entries open to user mode: all text is in the code region,
all kernel data and the UART page are in the other regions, and no region reaches, by the address bits
that a register drops, an address outside the declaration. -/
structure Covers (l : Layout) (codeBase codeSize stackBottom : BitVec 64) (mmio : List (BitVec 64 × BitVec 64)) :
    Prop where
  text : ∀ a, l.Text a → PmpRegion.Contains ⟨codeBase, codeSize, Flags.RX⟩ a
  data : ∀ a, l.Data a → ∃ r ∈ dataRegions stackBottom mmio, r.Contains a
  uart : ∀ a, UartPage a → ∃ r ∈ dataRegions stackBottom mmio, r.Contains a
  code : ∀ a < 2 ^ 56, l.Outside a → PmpRegion.Reaches ⟨codeBase, codeSize, Flags.RX⟩ a →
    PmpRegion.Contains ⟨codeBase, codeSize, Flags.RX⟩ a
  rest : ∀ a < 2 ^ 56, l.Outside a → ¬ PmpRegion.Reaches ⟨codeBase, codeSize, Flags.RX⟩ a →
    (∃ r ∈ dataRegions stackBottom mmio, r.Reaches a) → ∃ r ∈ dataRegions stackBottom mmio, r.Contains a

/-- Below the end of physical memory no address bits are dropped. -/
theorem covers_of_physical {l : Layout} {entry codeBase codeSize bottom top : BitVec 64}
    {mmio : List (BitVec 64 × BitVec 64)} (physical : (TaskSpec.user entry codeBase codeSize mmio).Physical)
    (stack : StackIn l bottom top) (text : ∀ a, l.Text a → PmpRegion.Contains ⟨codeBase, codeSize, Flags.RX⟩ a)
    (data : ∀ a, l.Data a ∨ UartPage a → ∃ r ∈ dataRegions bottom mmio, r.Contains a) :
    Covers l codeBase codeSize bottom mmio := by
  have inside {r : PmpRegion} (member : r ∈ userRegions codeBase codeSize bottom mmio) (a : Nat) :
      r.Reaches a ↔ r.Contains a := PmpRegion.reaches_iff (declared_physical physical stack member)
  refine ⟨text, fun a here => data a (.inl here), fun a here => data a (.inr here), ?_, ?_⟩
  · intro a _ _ reaches
    exact (inside List.mem_cons_self a).mp reaches
  · rintro a - - - ⟨r, member, reaches⟩
    exact ⟨r, member, (inside (List.mem_cons_of_mem _ member) a).mp reaches⟩

section User

variable {l : Layout} {entry codeBase codeSize : BitVec 64} {mmio : List (BitVec 64 × BitVec 64)} {t : Task} {f : File}

theorem Loaded.permits_outside (loaded : Loaded l (.user entry codeBase codeSize mmio) t f) {a : Nat} {k : Access}
    (out : l.Outside a) (physical : a < 2 ^ 56) :
    f.permits .user k a = true ↔
      (PmpRegion.Reaches ⟨codeBase, codeSize, Flags.RX⟩ a ∧ k ≠ .write) ∨
      (¬ PmpRegion.Reaches ⟨codeBase, codeSize, Flags.RX⟩ a ∧
        (∃ r ∈ dataRegions t.stackBottom mmio, r.Reaches a) ∧ k ≠ .exec) :=
  (permits_task loaded.kernel loaded.task loaded.loadable out physical).trans granted_userRegions

end User

/-- Every access that the task's own entries grant outside the image, unless its code region is there. -/
theorem Loaded.permits_mmio {l : Layout} {entry codeBase codeSize : BitVec 64} {mmio : List (BitVec 64 × BitVec 64)}
    {t : Task} {f : File} (loaded : Loaded l (.user entry codeBase codeSize mmio) t f)
    (inText : ∀ x, PmpRegion.Contains ⟨codeBase, codeSize, Flags.RX⟩ x → l.Text x) {a : Nat} {k : Access}
    (out : l.Outside a) (physical : a < 2 ^ 56) {r : PmpRegion} (member : r ∈ dataRegions t.stackBottom mmio)
    (inside : r.Contains a) (kind : k ≠ .exec) : f.permits .user k a = true := by
  rw [loaded.permits_outside out physical]
  refine .inr ⟨?_, ⟨r, member, a, inside, Nat.mod_eq_of_lt physical⟩, kind⟩
  rintro ⟨x, code, same⟩
  have text := inText x code
  have high := text.2
  have data := l.data_lt
  have limit := l.physical
  rw [Nat.mod_eq_of_lt (by omega)] at same
  exact out.text (same ▸ text)

/-- **Declared rights.** A dispatched user task whose code is in the text and whose MMIO regions are
outside the image may execute its code, and read and write its stack and MMIO regions. It may not read
its code: the locked text entry comes first and is execute-only. -/
theorem declared_rights {l : Layout} {specs : List TaskSpec} {start m : Machine} {es : List Event}
    (booted : Booted l specs start) (run : Runs start es m) {i : Fin maxTasks} {t : Task}
    {entry codeBase codeSize : BitVec 64} {mmio : List (BitVec 64 × BitVec 64)}
    (dispatched : Dispatched specs m i t (.user entry codeBase codeSize mmio))
    (inText : ∀ x, PmpRegion.Contains ⟨codeBase, codeSize, Flags.RX⟩ x → l.Text x)
    (outside : ∀ r ∈ mmio, ∀ x, r.1.toNat ≤ x → x < r.1.toNat + r.2.toNat →
      ¬ (l.stext.toNat ≤ x ∧ x < l.eheap.toNat))
    (a : Nat) (physical : a < 2 ^ 56) :
    (PmpRegion.Contains ⟨codeBase, codeSize, Flags.RX⟩ a →
        m.kernel.pmp.file.permits .user .exec a = true ∧ m.kernel.pmp.file.permits .user .read a = false) ∧
      ∀ r ∈ dataRegions t.stackBottom mmio, r.Contains a → ∀ k, k ≠ .exec →
        m.kernel.pmp.file.permits .user k a = true := by
  have loaded := loaded_of_run booted run dispatched
  constructor
  · intro code
    have rights := loaded.kernel.permits_text (inText a code) .user
    refine ⟨(rights .exec).mpr rfl, ?_⟩
    rw [Bool.eq_false_iff, Ne, rights .read]
    decide
  · intro r member inside k kind
    have start := l.text_lt
    have data := l.data_lt
    rcases List.mem_cons.mp member with rfl | listed
    · -- the stack lies in the kernel's data range
      have low := loaded.stack.low
      have high := loaded.stack.high
      have size := loaded.stack.size
      have bytes : taskStackSize.toNat = 8192 := rfl
      obtain ⟨above, below⟩ := inside
      simp only [bytes] at above below
      exact (loaded.kernel.permits_data ⟨by omega, by omega⟩ .user k).mpr kind
    · obtain ⟨d, here, rfl⟩ := List.mem_map.mp listed
      have apart := outside d here a inside.1 inside.2
      rcases l.cases a with text | data' | uart | out
      · exact absurd ⟨text.1, by have := text.2; omega⟩ apart
      · exact absurd ⟨by have := data'.1; omega, data'.2⟩ apart
      · exact (loaded.kernel.permits_uart uart .user k).mpr kind
      · exact loaded.permits_mmio inText out physical member inside kind

theorem echo_in_text (x : Nat) (inside : PmpRegion.Contains ⟨0x8000_8000, 0x1000, Flags.RX⟩ x) : qemuVirt.Text x := by
  have low : (0x8000_8000 : BitVec 64).toNat = 0x8000_8000 := rfl
  have size : (0x1000 : BitVec 64).toNat = 0x1000 := rfl
  have start : qemuVirt.stext.toNat = 0x8000_0000 := rfl
  have stop : qemuVirt.userTextEnd.toNat = 0x8000_9000 := rfl
  obtain ⟨above, below⟩ := inside
  simp only [low, size] at above below
  refine ⟨?_, ?_⟩
  · rw [start]
    omega
  · rw [stop]
    omega

theorem echo_mmio_outside : ∀ r ∈ [(uartBase, (0x1000 : BitVec 64))], ∀ x, r.1.toNat ≤ x → x < r.1.toNat + r.2.toNat →
    ¬ (qemuVirt.stext.toNat ≤ x ∧ x < qemuVirt.eheap.toNat) := by
  intro r member x low high
  obtain rfl := List.mem_singleton.mp member
  have base : uartBase.toNat = 0x1000_0000 := rfl
  have size : (0x1000 : BitVec 64).toNat = 0x1000 := rfl
  have start : qemuVirt.stext.toNat = 0x8000_0000 := rfl
  simp only [base, size] at low high
  rintro ⟨above, -⟩
  rw [start] at above
  omega

theorem declared_rights_echo : echoRunning.kernel.pmp.file.permits .user .exec 0x8000_8000 = true ∧
    echoRunning.kernel.pmp.file.permits .user .read 0x8000_8000 = false := by
  obtain ⟨t, dispatched, -⟩ := echo_dispatched
  exact (declared_rights kmain_booted echo_runs dispatched echo_in_text echo_mmio_outside 0x8000_8000 (by decide)).1
    ⟨by decide, by decide⟩

/-- The echo task cannot read the first byte of its code region, which it declared readable. -/
theorem echo_cannot_read_code : Booted qemuVirt kmainTasks kmainBooted ∧ Runs kmainBooted [timerTick] echoRunning ∧
    ∃ t, Dispatched kmainTasks echoRunning 1 t (.user 0x8000_8000 0x8000_8000 0x1000 [(uartBase, 0x1000)]) ∧
      (∀ x, PmpRegion.Contains ⟨0x8000_8000, 0x1000, Flags.RX⟩ x → qemuVirt.Text x) ∧
      Declares (userRegions 0x8000_8000 0x1000 t.stackBottom [(uartBase, 0x1000)]) .read 0x8000_8000 ∧
      echoRunning.kernel.pmp.file.permits .user .read 0x8000_8000 = false := by
  obtain ⟨t, dispatched, -⟩ := echo_dispatched
  have loaded := loaded_of_run kmain_booted echo_runs dispatched
  have code : PmpRegion.Contains ⟨0x8000_8000, 0x1000, Flags.RX⟩ 0x8000_8000 := ⟨by decide, by decide⟩
  refine ⟨kmain_booted, echo_runs, t, dispatched, echo_in_text,
    ⟨_, List.mem_cons_self, code, (grants_RX .read).mpr (by decide)⟩, ?_⟩
  rw [Bool.eq_false_iff, Ne, loaded.kernel.permits_text (echo_in_text _ code)]
  decide

end Cyptos
