import Cyptos.Logic.Isolation

/-!
# Where trap entry writes

The vector stores its frame below the interrupted stack pointer, which user code sets freely, and
does so in machine mode. The frame takes 248 bytes from 256 below that pointer.
-/

namespace Cyptos
set_option autoImplicit false
open Riscv

/-! ## The frame's bytes -/

theorem frame_offset_of_slot : ∀ e ∈ frameTable, e.2 + 8 ≤ 248 := by decide

theorem slot_of_frame_offset : ∀ k < 31, ∃ e ∈ frameTable, e.2 = 8 * k := by decide

/-- The vector stores to the slots of the frame table. -/
theorem mem_storedBytes_save {h : Hart} {b : BitVec 64} :
    b ∈ storedBytes trapVectorSave h ↔
      ∃ e ∈ frameTable, ∃ i < 8, b = frameBase h + BitVec.ofNat 64 e.2 + BitVec.ofNat 64 i := by
  -- the bank goes through the moved `sp`, the interrupted `sp` itself last
  let h₁ := runBlock [.csrw .mscratch .sp, .addi .sp .sp (-256)] h
  have base : h₁.x .sp = frameBase h := rfl
  have prologue : storedBytes [.csrw .mscratch .sp, .addi .sp .sp (-256)] h = [] := rfl
  have last : storedBytes [.csrr .t0 .mscratch, .sd .t0 240 .sp, .mv .a0 .sp] (runBlock (sds .sp frameBank) h₁) =
      (List.range 8).map fun i => frameBase h + BitVec.ofNat 64 240 + BitVec.ofNat 64 i := by
    rw [runBlock_sds]
    rfl
  rw [trapVectorSave_eq, storedBytes_append, storedBytes_append, prologue, List.nil_append, List.mem_append,
    mem_storedBytes_sds, last, frameTable_bank]
  simp only [List.mem_append, List.mem_singleton, or_and_right, exists_or, exists_eq_left, List.mem_map, List.mem_range]
  apply or_congr
  · rfl
  · simp only [eq_comm]

/-- They are 248 bytes in a row. -/
theorem mem_storedBytes_save_iff {h : Hart} {b : BitVec 64} :
    b ∈ storedBytes trapVectorSave h ↔ ∃ j < 248, b = frameBase h + BitVec.ofNat 64 j := by
  have join (k i : Nat) : frameBase h + BitVec.ofNat 64 k + BitVec.ofNat 64 i = frameBase h + BitVec.ofNat 64 (k + i) := by
    rw [BitVec.add_assoc, ← BitVec.ofNat_add]
  rw [mem_storedBytes_save]
  constructor
  · rintro ⟨e, member, i, small, rfl⟩
    have bound := frame_offset_of_slot e member
    exact ⟨e.2 + i, by omega, join e.2 i⟩
  · rintro ⟨j, bound, rfl⟩
    obtain ⟨e, member, offset⟩ := slot_of_frame_offset (j / 8) (by omega)
    refine ⟨e, member, j % 8, Nat.mod_lt _ (by decide), ?_⟩
    rw [join, offset, Nat.div_add_mod]

/-- All of them lie in a range exactly when the frame does. -/
theorem stores_within_iff {h : Hart} {bottom top : Nat} (low : 8 ≤ bottom) (high : top < 2 ^ 63) :
    (∀ b ∈ storedBytes trapVectorSave h, bottom ≤ b.toNat ∧ b.toNat < top) ↔
      bottom + 256 ≤ (h.x .sp).toNat ∧ (h.x .sp).toNat ≤ top + 8 := by
  have bound := (h.x .sp).isLt
  have base : (frameBase h).toNat = ((h.x .sp).toNat + (2 ^ 64 - 256)) % 2 ^ 64 := by
    rw [frameBase, BitVec.toNat_add]
    rfl
  have byte {j : Nat} (small : j < 248) :
      (frameBase h + BitVec.ofNat 64 j).toNat = ((frameBase h).toNat + j) % 2 ^ 64 := by
    rw [BitVec.toNat_add, BitVec.toNat_ofNat, Nat.mod_eq_of_lt (by omega : j < 2 ^ 64)]
  constructor
  · intro within
    have first := within _ (mem_storedBytes_save_iff.mpr ⟨0, by decide, rfl⟩)
    have last := within _ (mem_storedBytes_save_iff.mpr ⟨247, by decide, rfl⟩)
    rw [byte (by decide)] at first last
    omega
  · rintro ⟨above, below⟩ b stored
    obtain ⟨j, small, rfl⟩ := mem_storedBytes_save_iff.mp stored
    rw [byte small]
    omega

/-! ## Reachable states -/

theorem StackIn.bounds {l : Layout} {bottom top : BitVec 64} (stack : StackIn l bottom top) :
    8 ≤ bottom.toNat ∧ top.toNat < 2 ^ 63 := by
  have low := stack.low
  have high := stack.high
  have start := l.text_lt
  have aligned := l.userTextEnd_aligned
  have limit := l.physical
  omega

/-- **Trap entry.** Whatever trap a dispatched user task takes, with whatever registers, the vector stores
into that task's stack only, if and only if the frame below its stack pointer fits there. Nothing in the
vector checks that it does. -/
theorem trap_entry_stores_iff {l : Layout} {specs : List TaskSpec} {start m : Machine} {es : List Event}
    (booted : Booted l specs start) (run : Runs start es m) {i : Fin maxTasks} {t : Task}
    {entry codeBase codeSize : BitVec 64} {mmio : List (BitVec 64 × BitVec 64)}
    (dispatched : Dispatched specs m i t (.user entry codeBase codeSize mmio)) (cause tval : BitVec 64) :
    (∀ b ∈ storedBytes trapVectorSave (m.hart.trapEntry cause tval),
        t.stackBottom.toNat ≤ b.toNat ∧ b.toNat < t.stackTop.toNat) ↔
      t.stackBottom.toNat + 256 ≤ (m.hart.x .sp).toNat ∧ (m.hart.x .sp).toNat ≤ t.stackTop.toNat + 8 := by
  obtain ⟨low, high⟩ := (loaded_of_run booted run dispatched).stack.bounds
  exact stores_within_iff (h := m.hart.trapEntry cause tval) low high

theorem trap_entry_stores_echo : ∃ t, echoRunning.kernel.sched.tasks 1 = some t ∧
    ((∀ b ∈ storedBytes trapVectorSave (echoRunning.hart.trapEntry 8 0),
        t.stackBottom.toNat ≤ b.toNat ∧ b.toNat < t.stackTop.toNat) ↔
      t.stackBottom.toNat + 256 ≤ (echoRunning.hart.x .sp).toNat ∧
        (echoRunning.hart.x .sp).toNat ≤ t.stackTop.toNat + 8) := by
  obtain ⟨t, dispatched, -⟩ := echo_dispatched
  exact ⟨t, dispatched.slot, trap_entry_stores_iff kmain_booted echo_runs dispatched 8 0⟩

/-- The echo task points `sp` into kernel data. -/
def echoMovesSp : Event := .exec (fun r => if r = .sp then 0x8001_0000 else 0) 0x8000_8000 fun _ => 0

def echoMoved : Machine := (echoRunning.after echoMovesSp).toOption.getD echoRunning

theorem echo_moved_runs : Runs kmainBooted [timerTick, echoMovesSp] echoMoved :=
  echo_runs.next ⟨trivial, Outcome.eq_ok _ rfl⟩

/-- A system call of the echo task then makes the vector write to kernel data. -/
theorem trap_entry_writes_kernel_data : Booted qemuVirt kmainTasks kmainBooted ∧
    Runs kmainBooted [timerTick, echoMovesSp] echoMoved ∧ echoMoved.hart.mode = .user ∧
    ∃ t, Dispatched kmainTasks echoMoved 1 t (.user 0x8000_8000 0x8000_8000 0x1000 [(uartBase, 0x1000)]) ∧
      0x8000_FF00 ∈ storedBytes trapVectorSave (echoMoved.hart.trapEntry 8 0) ∧
      ¬ (t.stackBottom.toNat ≤ (0x8000_FF00 : BitVec 64).toNat) ∧ qemuVirt.Data 0x8000_FF00 := by
  obtain ⟨t, dispatched, bottom⟩ := echo_dispatched
  refine ⟨kmain_booted, echo_moved_runs, rfl, t, ⟨dispatched.current, dispatched.slot, dispatched.spec⟩, ?_, ?_, ?_⟩
  · exact mem_storedBytes_save_iff.mpr ⟨0, by decide, rfl⟩
  · rw [bottom]
    decide
  · exact ⟨by decide, by decide⟩

end Cyptos
