import Cyptos.Logic.Builder

/-!
# Single entries

`napot_addr` is exact and invertible on naturally aligned power-of-two regions, and these are the
regions that `configure_region` accepts. It programs one entry and keeps the other fifteen, although it
rewrites the configuration word that the entry shares with seven of them.
-/

namespace Cyptos
set_option autoImplicit false
open Riscv Riscv.Pmp

/-! ## Valid regions -/

theorem PmpRegion.valid_iff (r : PmpRegion) :
    r.Valid ↔ (∃ k, r.size.toNat = 2 ^ k) ∧ 8 ≤ r.size.toNat ∧ r.size.toNat ∣ r.base.toNat := by
  constructor
  · rintro ⟨m, k, -, base, size⟩
    refine ⟨⟨k + 3, size⟩, ?_, ?_⟩
    · rw [size, pow_add]
      exact Nat.le_mul_of_pos_left 8 (Nat.two_pow_pos k)
    · rw [base, size]
      exact Nat.dvd_mul_left _ _
  · rintro ⟨⟨k, size⟩, large, m, base⟩
    have three : 3 ≤ k := by
      apply (Nat.pow_le_pow_iff_right (by decide : 1 < 2)).mp
      rw [← size]
      exact large
    have bound : k < 64 := by
      apply (Nat.pow_lt_pow_iff_right (by decide : 1 < 2)).mp
      rw [← size]
      exact r.size.isLt
    obtain ⟨n, rfl⟩ : ∃ n, k = n + 3 := ⟨k - 3, by omega⟩
    exact ⟨m, n, bound, by rw [base, size, Nat.mul_comm], size⟩

section Valid

variable {r : PmpRegion} (valid : r.Valid)
include valid

theorem PmpRegion.Valid.sum_lt : r.base.toNat + (r.size.toNat / 2 - 1) < 2 ^ 64 := by
  have fits := valid.fits
  have large := ((PmpRegion.valid_iff r).mp valid).2.1
  omega

/-- The encoding leaves the two upper bits of the register clear. -/
theorem PmpRegion.Valid.napotAddr_lt : r.napotAddr.toNat < 2 ^ 62 := by
  have sum := valid.sum_lt
  rw [valid.napotAddr, napotEncode]
  omega

theorem PmpRegion.Valid.covers_iff (a : Nat) : napotMatch r.napotAddr.toNat a = true ↔ r.Contains a := by
  have encode := valid.napotAddr
  obtain ⟨m, k, bound, base, size⟩ := valid
  rw [encode, PmpRegion.Contains, base, size]
  exact napotMatch_range (by omega)

theorem PmpRegion.Valid.reads_back : napotDecode r.napotAddr.toNat = (r.base.toNat, r.size.toNat) := by
  have fits := valid.fits
  have small := valid.napotAddr_lt
  have encode := valid.napotAddr
  obtain ⟨m, k, bound, base, size⟩ := valid
  rw [base, size] at fits encode
  rw [encode] at small
  rw [encode, base, size, ← Nat.mod_eq_of_lt small]
  exact napotDecode_encode (by decide) fits

end Valid

/-- The bits of an encoding, shifted back to their places in an address. -/
theorem getLsbD_napotAddr {r : PmpRegion} (valid : r.Valid) (i : Nat) :
    (r.napotAddr <<< 2).getLsbD i = (4 * r.napotAddr.toNat).testBit i := by
  have small := valid.napotAddr_lt
  rw [← BitVec.testBit_toNat, BitVec.toNat_shiftLeft, Nat.shiftLeft_eq, Nat.mod_eq_of_lt (by omega), Nat.mul_comm]

/-- **NAPOT encoding.** On a naturally aligned region `napot_addr` does not overflow, its value matches the
addresses of the region and no others, and the region is read back from it. -/
theorem napot_exact {r : PmpRegion} (power : ∃ k, r.size.toNat = 2 ^ k) (large : 8 ≤ r.size.toNat)
    (aligned : r.size.toNat ∣ r.base.toNat) :
    let v := r.napotAddr
    r.base.toNat + (r.size.toNat / 2 - 1) < 2 ^ 64 ∧ v.toNat = (r.base.toNat + (r.size.toNat / 2 - 1)) / 4 ∧
      (∀ a : BitVec 64, (∀ i, trailingOnes 64 v.toNat + 2 < i → a.getLsbD i = (v <<< 2).getLsbD i) ↔
        r.base.toNat ≤ a.toNat ∧ a.toNat < r.base.toNat + r.size.toNat) ∧
      napotDecode v.toNat = (r.base.toNat, r.size.toNat) ∧
      ∀ r' : PmpRegion, (∃ k, r'.size.toNat = 2 ^ k) → 8 ≤ r'.size.toNat → r'.size.toNat ∣ r'.base.toNat →
        r'.napotAddr = v → r'.base = r.base ∧ r'.size = r.size := by
  intro v
  have valid : r.Valid := r.valid_iff.mpr ⟨power, large, aligned⟩
  refine ⟨valid.sum_lt, valid.napotAddr, fun a => ?_, valid.reads_back, ?_⟩
  · rw [← PmpRegion.Contains, ← valid.covers_iff, napotMatch_iff_bits]
    simp only [v, getLsbD_napotAddr valid, BitVec.testBit_toNat]
  · intro r' power' large' aligned' same
    have valid' : r'.Valid := r'.valid_iff.mpr ⟨power', large', aligned'⟩
    have ranges := valid'.reads_back
    rw [same, valid.reads_back, Prod.mk.injEq] at ranges
    exact ⟨(BitVec.eq_of_toNat_eq ranges.1).symm, (BitVec.eq_of_toNat_eq ranges.2).symm⟩

/-- The upper half of the address space, the largest region with a base other than zero. -/
theorem napot_exact_upper_half :
    napotDecode (PmpRegion.napotAddr ⟨0x8000_0000_0000_0000, 0x8000_0000_0000_0000, Flags.RW⟩).toNat =
      (0x8000_0000_0000_0000, 0x8000_0000_0000_0000) :=
  (napot_exact (r := ⟨0x8000_0000_0000_0000, 0x8000_0000_0000_0000, Flags.RW⟩) ⟨63, rfl⟩ (by decide)
    (by decide)).2.2.2.1

/-! ## One entry -/

section Configure

variable {p : Regs} {u : Uart} {region : PmpRegion}

/-- The checks of `configure_region` accept exactly the valid regions. -/
theorem configureRegion_accepts (valid : region.Valid) (i : Fin pmpCount) :
    configureRegion p u i region =
      (true, setPmpcfg (writePmpaddr p i region.napotAddr) i (region.flags ||| Flags.aNapot), u) := by
  obtain ⟨⟨large, power⟩, aligned⟩ := PmpRegion.Valid.checks valid
  exact configureRegion_ok power (BitVec.not_lt.mpr large) aligned

theorem configureRegion_refuses {idx : Nat} (bad : ¬ (idx < pmpCount ∧ region.Valid)) :
    (configureRegion p u idx region).1 = false ∧ (configureRegion p u idx region).2.1 = p := by
  unfold configureRegion
  split
  · rename_i inside
    split
    · exact ⟨rfl, rfl⟩
    · rename_i shape
      split
      · exact ⟨rfl, rfl⟩
      · rename_i aligned
        simp only [Bool.or_eq_true, not_or, Bool.not_eq_true', Bool.not_eq_false, decide_eq_true_eq] at shape
        have valid : region.Valid := valid_of_checks (BitVec.not_lt.mp shape.2) shape.1 (not_not.mp aligned)
        exact absurd ⟨inside, valid⟩ bad
  · exact ⟨rfl, rfl⟩

theorem configureRegion_true_iff (idx : Nat) :
    (configureRegion p u idx region).1 = true ↔ idx < pmpCount ∧ region.Valid := by
  constructor
  · intro accepted
    by_contra bad
    rw [(configureRegion_refuses bad).1] at accepted
    cases accepted
  · rintro ⟨inside, valid⟩
    rw [configureRegion_accepts valid ⟨idx, inside⟩]

/-- An accepted call on a free entry installs the region there. -/
theorem configureRegion_file {i : Fin pmpCount} (valid : region.Valid) (free : p.file.addrLocked i = false) :
    (configureRegion p u i region).2.1.file =
      File.install p.file i region.napotAddr (region.flags ||| Flags.aNapot) := by
  have addr := writePmpaddr_file region.napotAddr free
  have own : locked ((writePmpaddr p i region.napotAddr).file.cfg i) = false := by
    rw [addr]
    exact ((addrLocked_eq_false_iff p.file).mp free).1
  rw [configureRegion_accepts valid, setPmpcfg_file own, addr]
  rfl

end Configure

/-- **One entry or nothing.** On CSRs that hold all 64 bits written to them, `configure_region` accepts
exactly the valid regions at an existing index, writes no CSR otherwise, and on a free entry installs the
region and keeps the other fifteen. -/
theorem configure_region_exact {p : Regs} (bits : p.file.addrBits = 64) (u : Uart) (idx : Nat) (region : PmpRegion) :
    let answer := configureRegion p u idx region
    (answer.1 = true ↔ idx < 16 ∧ ((∃ k, region.size.toNat = 2 ^ k) ∧ 8 ≤ region.size.toNat) ∧
        region.size.toNat ∣ region.base.toNat) ∧
      (answer.1 = false → answer.2.1 = p) ∧
      (answer.1 = true → ∀ i : Fin pmpCount, i.val = idx → locked (p.file.cfg i) = false →
        (∀ j : Fin pmpCount, j.val = idx + 1 → ¬ (locked (p.file.cfg j) = true ∧ matching (p.file.cfg j) = .tor)) →
        region.base.toNat + (region.size.toNat / 2 - 1) < 2 ^ 64 ∧
          (answer.2.1.file.addr i).toNat = (region.base.toNat + (region.size.toNat / 2 - 1)) / 4 ∧
          answer.2.1.file.cfg i = region.flags ||| Flags.aNapot ∧
          ∀ j : Fin pmpCount, j ≠ i →
            answer.2.1.file.cfg j = p.file.cfg j ∧ answer.2.1.file.addr j = p.file.addr j) := by
  intro answer
  have accepts : answer.1 = true ↔ idx < pmpCount ∧ region.Valid := configureRegion_true_iff idx
  refine ⟨?_, ?_, ?_⟩
  · rw [accepts, PmpRegion.valid_iff, and_assoc]
  · intro refused
    apply (configureRegion_refuses _).2
    rw [← accepts, refused]
    decide
  · rintro accepted i rfl own above
    have valid := (accepts.mp accepted).2
    have file : answer.2.1.file = _ := configureRegion_file valid ((addrLocked_eq_false_iff p.file).mpr ⟨own, above⟩)
    rw [file]
    refine ⟨valid.sum_lt, ?_, Function.update_self _ _ _, fun j other => ?_⟩
    · have addr : (File.install p.file i region.napotAddr (region.flags ||| Flags.aNapot)).addr i =
          p.file.legal region.napotAddr := Function.update_self _ _ _
      rw [addr, legal_full bits, valid.napotAddr]
      rfl
    · exact ⟨Function.update_of_ne other _ _, Function.update_of_ne other _ _⟩

/-- The entry of another task's code region is programmed while its neighbours keep theirs. -/
theorem configure_region_neighbours :
    let answer := configureRegion usedRegs ⟨[], []⟩ 5 ⟨0x8000_8000, 0x1000, Flags.RX⟩
    answer.1 = true ∧ (answer.2.1.file.addr (5 : Fin pmpCount)).toNat = 0x2000_21FF ∧
      answer.2.1.file.cfg (5 : Fin pmpCount) = Flags.RX ||| Flags.aNapot ∧
      answer.2.1.file.cfg (4 : Fin pmpCount) = 0x1B := by
  obtain ⟨accepts, -, installs⟩ :=
    configure_region_exact (p := usedRegs) rfl ⟨[], []⟩ 5 ⟨0x8000_8000, 0x1000, Flags.RX⟩
  have accepted := accepts.mpr ⟨by decide, ⟨⟨12, rfl⟩, by decide⟩, by decide⟩
  obtain ⟨-, addr, cfg, others⟩ := installs accepted 5 rfl (by decide) (by decide)
  exact ⟨accepted, addr, cfg, (others 4 (by decide)).1⟩

end Cyptos
