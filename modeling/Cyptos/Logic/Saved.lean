import Cyptos.Riscv.Checked
import Cyptos.Logic.System

/-!
# Saving the PMP entries

`save_current_config` does not decode an entry: it shifts the address register and writes 8 for the
size. For the entries that `load_task_config` programs this loses nothing, because the encoding of an
eight-byte region at a shifted address register is that register. Entries that were off come back as
entries without rights for the first eight bytes of memory.
-/

namespace Cyptos
set_option autoImplicit false
open Riscv Riscv.Pmp

/-! ## One entry -/

theorem low_byte (w : BitVec 64) (j : Fin 8) : ((w >>> (j.val * 8)) &&& 0xFF).setWidth 8 = byteAt w j := by
  apply BitVec.eq_of_getLsbD_eq
  intro b small
  have ones : (0xFF : BitVec 64).getLsbD b = true := by interval_cases b <;> rfl
  simp only [byteAt, BitVec.getLsbD_setWidth, BitVec.getLsbD_and, BitVec.getLsbD_ushiftRight, ones, Bool.and_true, small,
    decide_true, Bool.true_and, BitVec.getLsbD_extractLsb', Nat.mul_comm]

theorem save_flags (p : Regs) (i : Fin pmpCount) : (saveCurrentConfig p i).flags = p.file.cfg i := by
  have byte (b : Fin 2) : ((p.file.readCfg b >>> ((i.val % 8) * 8)) &&& 0xFF).setWidth 8 = p.file.cfg (entryOf b (byteOf i)) :=
    (low_byte _ (byteOf i)).trans (byteAt_readCfg p.file b (byteOf i))
  have own (b : Fin 2) (bank : bankOf i = b) : p.file.cfg (entryOf b (byteOf i)) = p.file.cfg i := by
    rw [← bank, entryOf_bank_byte]
  have bound : i.val < 16 := i.isLt
  simp only [saveCurrentConfig, readPmpcfg0, readPmpcfg2, byte]
  split
  · exact own 0 (Fin.ext (by simp only [bankOf]; omega))
  · exact own 1 (Fin.ext (by simp only [bankOf]; omega))

/-- The encoding of the saved descriptor is the address register. -/
theorem save_addr (p : Regs) (i : Fin pmpCount) (small : (p.file.addr i).toNat < 2 ^ 54) :
    (saveCurrentConfig p i).napotAddr = p.file.addr i := by
  have half : (8 : BitVec 64) / 2 - 1 = 3 := by decide
  apply BitVec.eq_of_toNat_eq
  simp only [PmpRegion.napotAddr, saveCurrentConfig, readPmpaddr, half]
  rw [BitVec.toNat_ushiftRight, BitVec.toNat_add, BitVec.toNat_shiftLeft, Nat.shiftLeft_eq, Nat.shiftRight_eq_div_pow]
  have three : (3 : BitVec 64).toNat = 3 := rfl
  rw [three]
  omega

/-! ## Restoring a saved table -/

/-- A saved table leaves the entries in use as they were; the others come back on, but without rights. -/
theorem restored_tail {p : Regs} {regions : List PmpRegion} (bits : p.file.addrBits = 54)
    (map : TaskMap (tableOf regions) p.file) (loadable : Loadable regions) (free : TaskUnlocked p.file) :
    BareTail p.file (loadTaskConfig p (List.ofFn (saveCurrentConfig p))).file (4 + regions.length) := by
  have back := loadTaskConfig_ofFn p (saveCurrentConfig p) free
  set q := loadTaskConfig p (List.ofFn (saveCurrentConfig p)) with restored
  have used (i : Fin 16) : (saveCurrentConfig p i).size ≠ 0 := by
    show (8 : BitVec 64) ≠ 0
    decide
  have cfg (i : Fin 16) (task : 4 ≤ i.val) : q.file.cfg i = p.file.cfg i ||| Flags.aNapot := by
    rw [back.cfg i task, PmpRegion.cfg, if_neg (used i), save_flags]
  have addr (i : Fin 16) : q.file.addr i = p.file.addr i := by
    rcases Nat.lt_or_ge i.val 4 with kernel | task
    · exact loadTaskConfig_kernel_addr p _ kernel
    · have small : (p.file.addr i).toNat < 2 ^ 54 := by
        rw [map.addr i task, toNat_legal, bits]
        exact Nat.mod_lt _ (by decide)
      have same : q.file.addrBits = 54 := by rw [restored, loadTaskConfig_addrBits, bits]
      rw [back.addr i task, PmpRegion.addr, if_neg (used i), save_addr p i small]
      apply BitVec.eq_of_toNat_eq
      rw [toNat_legal, same, Nat.mod_eq_of_lt small]
  -- behind the regions the table has empty descriptors
  have empty (i : Fin 16) (behind : 4 + regions.length ≤ i.val) : p.file.cfg i = 0 ∧ p.file.addr i = 0 := by
    have task : 4 ≤ i.val := by omega
    rw [map.cfg i task, map.addr i task, tableOf, if_pos task, List.getElem?_eq_none (by omega)]
    exact ⟨rfl, BitVec.eq_of_toNat_eq (by rw [toNat_legal, bits]; rfl)⟩
  have on (i : Fin 16) (behind : 4 + regions.length ≤ i.val) : q.file.cfg i = Flags.aNapot := by
    rw [cfg i (by omega), (empty i behind).1]
    rfl
  refine ⟨fun i front => ?_, fun i _ => addr i, fun i behind => by rw [(empty i behind).1]; rfl, fun i behind => ?_,
    fun i behind => ?_⟩
  · rcases Nat.lt_or_ge i.val 4 with kernel | task
    · exact loadTaskConfig_kernel_cfg p _ kernel
    · -- an entry in use has its mode bits already
      obtain ⟨r, slot⟩ : ∃ r, regions[i.val - 4]? = some r := ⟨_, List.getElem?_eq_getElem (by omega)⟩
      have valid := loadable.valid r (List.mem_of_getElem? slot)
      have own := map.cfg i task
      rw [tableOf, if_pos task, slot, Option.getD_some, PmpRegion.cfg, if_neg valid.size_ne] at own
      rw [cfg i task, own, BitVec.or_assoc, BitVec.or_self]
  · rw [on i behind, addr i, (empty i behind).2]
    exact ⟨rfl, rfl⟩
  · rw [on i behind]
    refine ⟨rfl, fun k => ?_⟩
    cases k <;> rfl

theorem Sound.loadable {l : Layout} {specs : List TaskSpec} {st : SchedulerState} (sound : Sound l specs st) :
    ∃ regions, st.table = tableOf regions ∧ Loadable regions := by
  cases cur : st.current with
  | none =>
    refine ⟨[], ?_, loadable_nil⟩
    simp only [SchedulerState.table, cur, tableOf_nil]
  | some i =>
    obtain ⟨t, slot, -⟩ := sound.inv.current i cur
    obtain ⟨spec, -, of⟩ := sound.occupied slot
    exact ⟨_, (table_of_current cur slot).trans of.table, of.loadable⟩

/-- **Save, switch, restore.** In every reachable state the entries that `save_current_config` reads can be loaded again
after any other task's table. The entries in use come back as they were; the others come back behind them, switched on for
the first eight bytes and without rights. Every byte is then decided as before, and so is every access of several bytes
unless it starts in the first eight bytes and ends behind them. -/
theorem saved_config_restores {l : Layout} {specs : List TaskSpec} {start m : Machine} {es : List Event}
    (booted : Booted l specs start) (run : Runs start es m) {other : List PmpRegion} (unlocking : Unlocking other) {q : Regs}
    (restored : q = loadTaskConfig (loadTaskConfig m.kernel.pmp other) (List.ofFn (saveCurrentConfig m.kernel.pmp))) :
    (∃ n, 4 ≤ n ∧ BareTail m.kernel.pmp.file q.file n) ∧
      (∀ mode k a, q.file.permits mode k a = m.kernel.pmp.file.permits mode k a) ∧
      ∀ width mode k (a : BitVec 64), (a.toNat + width ≤ 8 ∨ 8 ≤ a.toNat ∧ a.toNat + width ≤ 2 ^ 64) →
        q.file.permitsN width mode k a = m.kernel.pmp.file.permitsN width mode k a := by
  have sound := sound_of_run booted run
  have guarded := guarded_of_run booted run
  have free := guarded.unlocked sound
  obtain ⟨regions, table, loadable⟩ := sound.loadable
  have task := guarded.task
  rw [table] at task
  have tail := restored_tail guarded.kernel.addrBits task loadable free
  rw [← loadTaskConfig_twice free unlocking, ← restored] at tail
  exact ⟨⟨_, Nat.le_add_right _ _, tail⟩, fun mode k _ => tail.permits mode k, fun _ mode k _ side => tail.permitsN side mode k⟩

/-- After a switch to no task at all and back the echo task may still execute its text. A doubleword across the first
eight bytes, which machine mode could read, is refused. -/
theorem saved_config_restores_echo :
    let p := echoRunning.kernel.pmp
    let q := loadTaskConfig (loadTaskConfig p []) (List.ofFn (saveCurrentConfig p))
    q.file.permits .user .exec 0x8000_8000 = p.file.permits .user .exec 0x8000_8000 ∧
      q.file.permitsN 8 .machine .read 8 = p.file.permitsN 8 .machine .read 8 ∧
      p.file.permitsN 8 .machine .read 4 = true ∧ q.file.permitsN 8 .machine .read 4 = false := by
  have unlocking : Unlocking [] := by
    intro i r task slot
    cases slot
  obtain ⟨-, bytes, wide⟩ := saved_config_restores kmain_booted echo_runs unlocking rfl
  exact ⟨bytes .user .exec 0x8000_8000, wide 8 .machine .read 8 (by decide), by decide +kernel, by decide +kernel⟩

end Cyptos
