import Cyptos.Logic.Driver

/-!
# Loading a task, write by write

`load_task_config` switches the task entries off, bank by bank, then programs their address registers, and
then enables them, bank by bank. So whatever interrupts it finds every entry off or whole: in the old
configuration with the old address, or in the new one with the new address. Every write takes effect,
because the bytes of locked kernel entries are written back as they are.
-/

namespace Cyptos
set_option autoImplicit false
open Riscv Riscv.Pmp

/-- No entry mixes two configurations, and the kernel's entries are those of `old`. -/
structure Whole (old new f : File) : Prop where
  kernel : ∀ i : Fin pmpCount, i.val < 4 → f.cfg i = old.cfg i ∧ f.addr i = old.addr i
  task : ∀ i : Fin pmpCount, 4 ≤ i.val → matching (f.cfg i) = .off ∨
    (f.cfg i = old.cfg i ∧ f.addr i = old.addr i) ∨ (f.cfg i = new.cfg i ∧ f.addr i = new.addr i)

/-- The kernel half of `pmpcfg0`, as `load_task_config` reads it. -/
def kernelWord (p : Regs) : BitVec 64 := readPmpcfg0 p &&& 0x0000_0000_FFFF_FFFF

theorem bank_zero_or_one (b : Fin 2) : b = 0 ∨ b = 1 := by omega

theorem task_of_bank_one {i : Fin pmpCount} (bank : bankOf i = 1) : 4 ≤ i.val := by
  simp only [Fin.ext_iff, bankOf, Fin.val_one] at bank
  omega

section Switching

variable {p : Regs} {new f : File} (free : TaskUnlocked p.file)

/-- While the task entries are off, their addresses do not matter. -/
theorem Whole.of_off (cfg : f.cfg = (cleared p).file.cfg) (free : TaskUnlocked p.file)
    (addr : ∀ i : Fin pmpCount, i.val < 4 → f.addr i = p.file.addr i) : Whole p.file new f := by
  refine ⟨fun i kernel => ⟨?_, addr i kernel⟩, fun i task => .inl ?_⟩
  · rw [cfg, cleared_kernel p kernel]
  · rw [cfg, cleared_task free task]
    rfl

include free

/-- The first write switches entries 4 to 7 off. -/
theorem whole_first : Whole p.file new (p.file.writeCfg 0 (kernelWord p)) := by
  refine ⟨fun i kernel => ⟨?_, rfl⟩, fun i task => ?_⟩
  · exact writeCfg_cfg_same _ fun _ => byteAt_kernelBits_kernel p kernel
  · rcases bank_zero_or_one (bankOf i) with bank | bank
    · refine .inl ?_
      rw [writeCfg_cfg, if_pos ⟨bank, free i task⟩, kernelWord, byteAt_kernelBits_task _ task bank]
      rfl
    · exact .inr (.inl ⟨writeCfg_cfg_other _ (by rw [bank]; decide), rfl⟩)

theorem careful_cleared : p.Careful (Whole p.file new) (cleared p) := by
  have start : p.Careful (Whole p.file new) p := .refl ⟨fun _ _ => ⟨rfl, rfl⟩, fun _ _ => .inr (.inl ⟨rfl, rfl⟩)⟩
  have first : p.Careful (Whole p.file new) (writePmpcfg0 p (kernelWord p)) := by
    refine start.write (takes_cfg fun i _ held => ?_) (whole_first free)
    apply byteAt_kernelBits_kernel
    by_contra task
    rw [free i (Nat.le_of_not_lt task)] at held
    cases held
  refine first.write (takes_cfg fun i bank held => ?_) (Whole.of_off rfl free fun _ _ => rfl)
  have same : (p.file.writeCfg 0 (kernelWord p)).cfg i = p.file.cfg i :=
    writeCfg_cfg_other _ (by rw [bank]; decide)
  rw [show (writePmpcfg0 p (kernelWord p)).file.cfg i = p.file.cfg i from same, free i (task_of_bank_one bank)] at held
  cases held

/-- The address writes find every task entry off. -/
theorem careful_loop (regions : List PmpRegion) {es : List (Fin pmpCount)} {s : LoadState}
    (tasks : ∀ e ∈ es, 4 ≤ e.val) (cfg : s.regs.file.cfg = (cleared p).file.cfg)
    (addr : ∀ i : Fin pmpCount, i.val < 4 → s.regs.file.addr i = p.file.addr i)
    (before : p.Careful (Whole p.file new) s.regs) :
    p.Careful (Whole p.file new) (es.foldl (loadEntry regions) s).regs := by
  induction es generalizing s with
  | nil => exact before
  | cons e es ih =>
    have task := tasks e (by simp)
    have writable : s.regs.file.addrLocked e = false := by
      apply addrLocked_of_unlocked
      · rw [cfg, cleared_task free task]
        rfl
      · intro h
        rw [cfg, cleared_task free (i := ⟨e + 1, h⟩) (Nat.le_succ_of_le task)]
        rfl
    have cfg' : (s.regs.file.writeAddr e (regionAt regions e).addr).cfg = (cleared p).file.cfg :=
      (writeAddr_cfg _ _ _).trans cfg
    have addr' (i : Fin pmpCount) (kernel : i.val < 4) :
        (s.regs.file.writeAddr e (regionAt regions e).addr).addr i = p.file.addr i := by
      rw [writeAddr_addr_other _ fun same => by rw [same] at kernel; omega]
      exact addr i kernel
    have step : (loadEntry regions s e).regs = writePmpaddr s.regs e (regionAt regions e).addr := by
      rw [loadEntry_eq]
    have after := before.write (takes_addr writable) (Whole.of_off cfg' free addr')
    rw [List.foldl_cons]
    apply ih fun d member => tasks d (by simp [member])
    · rw [step]
      exact cfg'
    · rw [step]
      exact addr'
    · rw [step]
      exact after

end Switching

section Enabling

variable {p : Regs} {regions : List PmpRegion} {i : Fin pmpCount}

/-- The configuration word that enables bank 0. -/
def enableWord (p : Regs) (regions : List PmpRegion) : BitVec 64 := kernelWord p ||| (loaded p regions).taskCfg0High

/-- The register file between the two enabling writes. -/
def halfEnabled (p : Regs) (regions : List PmpRegion) : File :=
  (writePmpcfg0 (loaded p regions).regs (enableWord p regions)).file

theorem byteAt_enableWord (kernel : i.val < 4) : byteAt (enableWord p regions) (byteOf i) = p.file.cfg i := by
  have task : ¬ 4 ≤ i.val := by omega
  have word : (loaded p regions).taskCfg0High = (loaded p regions).word (bankOf i) := by
    rw [bankOf_kernel kernel]
    rfl
  rw [enableWord, byteAt_or, kernelWord, byteAt_kernelBits_kernel p kernel, word, byteAt_loaded, entryOf_bank_byte,
    if_neg task]
  simp

theorem halfEnabled_bank_zero (bank : bankOf i = 0) :
    (halfEnabled p regions).cfg i = (loadTaskConfig p regions).file.cfg i :=
  (writeCfg_cfg_other (halfEnabled p regions) (by rw [bank]; decide)).symm

theorem halfEnabled_bank_one (free : TaskUnlocked p.file) (bank : bankOf i = 1) :
    (halfEnabled p regions).cfg i = 0 := by
  have same : (halfEnabled p regions).cfg i = (loaded p regions).regs.file.cfg i :=
    writeCfg_cfg_other _ (by rw [bank]; decide)
  rw [same, loaded_cfg, cleared_task free (task_of_bank_one bank)]

/-- The first enabling write completes entries 4 to 7; entries 8 to 15 are still off. -/
theorem whole_halfEnabled (free : TaskUnlocked p.file) :
    Whole p.file (loadTaskConfig p regions).file (halfEnabled p regions) := by
  refine ⟨fun i kernel => ⟨?_, loadTaskConfig_kernel_addr p regions kernel⟩, fun i task => ?_⟩
  · rw [halfEnabled_bank_zero (bankOf_kernel kernel), loadTaskConfig_kernel_cfg p regions kernel]
  · rcases bank_zero_or_one (bankOf i) with bank | bank
    · exact .inr (.inr ⟨halfEnabled_bank_zero bank, rfl⟩)
    · refine .inl ?_
      rw [halfEnabled_bank_one free bank]
      rfl

theorem careful_loadTaskConfig (free : TaskUnlocked p.file) (regions : List PmpRegion) :
    p.Careful (Whole p.file (loadTaskConfig p regions).file) (loadTaskConfig p regions) := by
  have addresses : p.Careful (Whole p.file (loadTaskConfig p regions).file) (loaded p regions).regs :=
    careful_loop free regions (fun e member => (mem_taskEntries e).mp member) rfl (fun _ _ => rfl)
      (careful_cleared free)
  have enabled : p.Careful (Whole p.file (loadTaskConfig p regions).file)
      (writePmpcfg0 (loaded p regions).regs (enableWord p regions)) := by
    refine addresses.write (takes_cfg fun i _ held => ?_) (whole_halfEnabled free)
    rw [loaded_cfg] at held ⊢
    have kernel : i.val < 4 := by
      by_contra task
      rw [cleared_task free (Nat.le_of_not_lt task)] at held
      cases held
    rw [byteAt_enableWord kernel, cleared_kernel p kernel]
  rw [loadTaskConfig_eq]
  refine enabled.write (takes_cfg fun i bank held => ?_) ⟨fun i kernel => ?_, fun i _ => .inr (.inr ⟨rfl, rfl⟩)⟩
  · have off : (writePmpcfg0 (loaded p regions).regs (enableWord p regions)).file.cfg i = 0 :=
      halfEnabled_bank_one free bank
    rw [off] at held
    cases held
  · exact ⟨loadTaskConfig_kernel_cfg p regions kernel, loadTaskConfig_kernel_addr p regions kernel⟩

end Enabling

/-- **No half-written entry.** After every prefix of the CSR writes of `load_task_config`, a task entry is off
or holds its old or its new configuration with the address that belongs to it, and the kernel's entries are
as they were. This holds for every slice of regions. -/
theorem load_task_config_whole {p : Regs} (free : TaskUnlocked p.file) (regions : List PmpRegion) :
    ∃ ws, loadTaskConfig p regions = p.writeAll ws ∧ ∀ before, before <+: ws →
      let f := (p.writeAll before).file
      let new := (loadTaskConfig p regions).file
      (∀ i : Fin pmpCount, 4 ≤ i.val → matching (f.cfg i) = .off ∨
        (f.cfg i = p.file.cfg i ∧ f.addr i = p.file.addr i) ∨ (f.cfg i = new.cfg i ∧ f.addr i = new.addr i)) ∧
      ∀ i : Fin pmpCount, i.val < 4 → f.cfg i = p.file.cfg i ∧ f.addr i = p.file.addr i := by
  obtain ⟨ws, written, along⟩ := careful_loadTaskConfig free regions
  refine ⟨ws, written, fun before part => ?_⟩
  have whole := along.of_prefix part
  rw [← Regs.writeAll_file] at whole
  exact ⟨whole.task, whole.kernel⟩

/-- Entry 4 of a task that takes over from another one. -/
theorem load_task_config_whole_over_used :
    ∃ ws, loadTaskConfig usedRegs [.none, .none, .none, .none, ⟨0x8000_8000, 0x1000, Flags.RX⟩] =
        usedRegs.writeAll ws ∧
      ∀ before, before <+: ws →
        let f := (usedRegs.writeAll before).file
        matching (f.cfg 4) = .off ∨ (f.cfg 4 = 0x1B ∧ f.addr 4 = 0x2000_01FF) ∨
          (f.cfg 4 = Flags.RX ||| Flags.aNapot ∧ f.addr 4 = 0x2000_21FF) := by
  obtain ⟨ws, written, whole⟩ := load_task_config_whole usedRegs_unlocked
    [.none, .none, .none, .none, ⟨0x8000_8000, 0x1000, Flags.RX⟩]
  refine ⟨ws, written, fun before part => ?_⟩
  have map := loadTaskConfig_task usedRegs [.none, .none, .none, .none, ⟨0x8000_8000, 0x1000, Flags.RX⟩]
    usedRegs_unlocked
  have entry := (whole before part).1 4 (by decide)
  have bits : (loadTaskConfig usedRegs
      [.none, .none, .none, .none, ⟨0x8000_8000, 0x1000, Flags.RX⟩]).file.addrBits = 64 :=
    loadTaskConfig_addrBits _ _
  have addr : PmpRegion.addr ⟨0x8000_8000, 0x1000, Flags.RX⟩ = 0x2000_21FF := by decide
  have region : regionAt [.none, .none, .none, .none, ⟨0x8000_8000, 0x1000, Flags.RX⟩] 4 =
      ⟨0x8000_8000, 0x1000, Flags.RX⟩ := rfl
  rw [map.cfg 4 (by decide), map.addr 4 (by decide), legal_full bits, region, addr] at entry
  exact entry

end Cyptos
