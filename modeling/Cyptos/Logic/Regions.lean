import Cyptos.Kernel.Spec
import Cyptos.Logic.Driver

/-!
# Declared regions

What the builder accepts and in which entries it puts it: the regions in the order of the
calls from entry 4 on, each a naturally aligned power-of-two range. A task's declaration is
its code, its stack and its MMIO list; a machine-mode task declares nothing.
-/

namespace Cyptos
set_option autoImplicit false
open Riscv Riscv.Pmp

/-! ## One region -/

/-- Byte address `a` lies in the region. -/
def PmpRegion.Contains (r : PmpRegion) (a : Nat) : Prop := r.base.toNat ≤ a ∧ a < r.base.toNat + r.size.toNat

/-- A physical address register drops the address bits from 56 up, so a region reaches the
addresses that agree with its own on the bits below. -/
def PmpRegion.Reaches (r : PmpRegion) (a : Nat) : Prop := ∃ x, r.Contains x ∧ x % 2 ^ 56 = a

/-- A naturally aligned power-of-two region of at least eight bytes. -/
def PmpRegion.Valid (r : PmpRegion) : Prop :=
  ∃ m k, k + 3 < 64 ∧ r.base.toNat = m * 2 ^ (k + 3) ∧ r.size.toNat = 2 ^ (k + 3)

theorem isPowerOfTwo_iff (n : BitVec 64) : isPowerOfTwo n = true ↔ ∃ k < 64, n.toNat = 2 ^ k := by
  simp [isPowerOfTwo, List.any_eq_true]

/-- The checks of the builder say that a region is valid. -/
theorem valid_of_checks {base size : BitVec 64} {flags : BitVec 8} (large : size ≥ 8) (power : isPowerOfTwo size = true)
    (aligned : base &&& (size - 1) = 0) : PmpRegion.Valid ⟨base, size, flags⟩ := by
  obtain ⟨k, bound, pow⟩ := (isPowerOfTwo_iff size).mp power
  have ge : 2 ^ 3 ≤ 2 ^ k := by
    rw [← pow]
    exact BitVec.le_def.mp large
  have three : 3 ≤ k := (Nat.pow_le_pow_iff_right (by decide : 1 < 2)).mp ge
  obtain ⟨n, rfl⟩ : ∃ n, k = n + 3 := ⟨k - 3, by omega⟩
  have mask : (size - 1).toNat = 2 ^ (n + 3) - 1 := by
    rw [BitVec.toNat_sub_of_le (BitVec.le_def.mpr ?_), pow]
    · rfl
    · rw [pow]
      exact Nat.one_le_two_pow
  have multiple : base.toNat % 2 ^ (n + 3) = 0 := by
    have masked := congrArg BitVec.toNat aligned
    rw [BitVec.toNat_and, mask, Nat.and_two_pow_sub_one_eq_mod] at masked
    exact masked
  refine ⟨base.toNat / 2 ^ (n + 3), n, bound, ?_, pow⟩
  exact (Nat.div_mul_cancel (Nat.dvd_of_mod_eq_zero multiple)).symm

/-- A valid region does not wrap. -/
theorem PmpRegion.Valid.fits {r : PmpRegion} (valid : r.Valid) : r.base.toNat + r.size.toNat ≤ 2 ^ 64 := by
  obtain ⟨m, k, bound, base, size⟩ := valid
  have space : 2 ^ 64 = 2 ^ (61 - k) * 2 ^ (k + 3) := by
    rw [← pow_add]
    congr 1
    omega
  have small : m * 2 ^ (k + 3) < 2 ^ (61 - k) * 2 ^ (k + 3) := by
    rw [← base, ← space]
    exact r.base.isLt
  have number : m + 1 ≤ 2 ^ (61 - k) := Nat.lt_of_mul_lt_mul_right small
  have scaled := Nat.mul_le_mul_right (2 ^ (k + 3)) number
  rw [base, size, space]
  linarith

theorem PmpRegion.Valid.size_ne {r : PmpRegion} (valid : r.Valid) : r.size ≠ 0 := by
  obtain ⟨m, k, -, -, size⟩ := valid
  intro zero
  rw [zero] at size
  exact absurd size (Nat.two_pow_pos _).ne

/-- `napot_addr` computes the NAPOT encoding without overflow. -/
theorem PmpRegion.Valid.napotAddr {r : PmpRegion} (valid : r.Valid) :
    r.napotAddr.toNat = napotEncode r.base.toNat r.size.toNat := by
  have fits := valid.fits
  obtain ⟨m, k, -, -, size⟩ := valid
  have large : 8 ≤ r.size.toNat := by
    rw [size, pow_add]
    exact Nat.le_mul_of_pos_left 8 (Nat.two_pow_pos k)
  have half : (r.size / 2 - 1).toNat = r.size.toNat / 2 - 1 := by
    have div : (r.size / 2).toNat = r.size.toNat / 2 := BitVec.toNat_udiv
    rw [BitVec.toNat_sub_of_le (BitVec.le_def.mpr ?_), div]
    · rfl
    · rw [div]
      exact (by omega : 1 ≤ r.size.toNat / 2)
  have sum : (r.base + (r.size / 2 - 1)).toNat = r.base.toNat + (r.size.toNat / 2 - 1) := by
    rw [BitVec.toNat_add, half]
    apply Nat.mod_eq_of_lt
    omega
  rw [PmpRegion.napotAddr, BitVec.toNat_ushiftRight, sum, Nat.shiftRight_eq_div_pow]
  rfl

/-! ## The builder -/

/-- A list of regions from entry 4 on. -/
def tableOf (regions : List PmpRegion) (i : Fin pmpCount) : PmpRegion :=
  if 4 ≤ i.val then regions[i.val - 4]?.getD .none else .none

theorem tableOf_nil : tableOf [] = PmpConfig.empty.regions := by
  funext i
  simp [tableOf, PmpConfig.empty]

theorem tableOf_append (regions : List PmpRegion) (r : PmpRegion) (h : 4 + regions.length < pmpCount) :
    Function.update (tableOf regions) ⟨4 + regions.length, h⟩ r = tableOf (regions ++ [r]) := by
  funext i
  by_cases here : i = ⟨4 + regions.length, h⟩
  · subst here
    simp [tableOf]
  · rw [Function.update_of_ne here]
    have other : i.val ≠ 4 + regions.length := fun same => here (Fin.ext same)
    simp only [tableOf]
    split
    · rw [List.getElem?_append]
      split
      · rfl
      · rw [List.getElem?_eq_none (by omega), List.getElem?_eq_none (by simp; omega)]
    · rfl

/-- The builder after accepting `regions`, in order. -/
structure Built (b : PmpConfigBuilder) (regions : List PmpRegion) : Prop where
  table : b.regions = tableOf regions
  next : b.nextIdx = 4 + regions.length
  fits : regions.length ≤ 12
  valid : ∀ r ∈ regions, r.Valid

theorem built_builder : Built PmpConfig.builder [] := ⟨tableOf_nil.symm, rfl, by simp, by simp⟩

/-- One accepted call adds one valid region. -/
theorem Built.region {b b' : PmpConfigBuilder} {regions : List PmpRegion} (built : Built b regions)
    {base size : BitVec 64} {flags : BitVec 8} (accepted : b.region base size flags = .ok b') :
    Built b' (regions ++ [⟨base, size, flags⟩]) := by
  unfold PmpConfigBuilder.region at accepted
  split at accepted
  · rename_i room
    split at accepted
    · rename_i shape
      split at accepted
      · rename_i aligned
        cases accepted
        have next := built.next
        constructor
        · have room' : 4 + regions.length < pmpCount := next ▸ room
          have slot : (⟨b.nextIdx, room⟩ : Fin pmpCount) = ⟨4 + regions.length, room'⟩ := Fin.ext next
          rw [slot, built.table]
          exact tableOf_append regions ⟨base, size, flags⟩ room'
        · simp only [next, List.length_append, List.length_singleton]
          omega
        · have bound : b.nextIdx < 16 := room
          simp only [List.length_append, List.length_singleton]
          omega
        · intro r member
          rcases List.mem_append.mp member with old | new
          · exact built.valid r old
          · rw [List.mem_singleton.mp new]
            exact valid_of_checks shape.1 shape.2 aligned
      · cases accepted
    · cases accepted
  · cases accepted

/-- The MMIO regions of a list, with the rights that they get. -/
def mmioRegions (mmio : List (BitVec 64 × BitVec 64)) : List PmpRegion := mmio.map fun r => ⟨r.1, r.2, Flags.RW⟩

theorem Built.mmio {b b' : PmpConfigBuilder} {regions : List PmpRegion} (built : Built b regions)
    {mmio : List (BitVec 64 × BitVec 64)} (accepted : mmio.foldlM (fun b r => b.mmioRegion r.1 r.2) b = .ok b') :
    Built b' (regions ++ mmioRegions mmio) := by
  induction mmio generalizing b regions with
  | nil =>
    cases accepted
    simpa [mmioRegions] using built
  | cons r mmio ih =>
    rw [List.foldlM_cons] at accepted
    obtain ⟨c, first, rest⟩ := Outcome.bind_ok.mp accepted
    have more := ih (built.region first) rest
    simpa [mmioRegions] using more

/-- What a user task declares. -/
def userRegions (codeBase codeSize stackBottom : BitVec 64) (mmio : List (BitVec 64 × BitVec 64)) : List PmpRegion :=
  ⟨codeBase, codeSize, Flags.RX⟩ :: ⟨stackBottom, taskStackSize, Flags.RW⟩ :: mmio.map fun r => ⟨r.1, r.2, Flags.RW⟩

/-- What a task with its stack at `stackBottom` declares. -/
def TaskSpec.declared (spec : TaskSpec) (stackBottom : BitVec 64) : List PmpRegion :=
  match spec.mode with
  | .MMode => []
  | .UMode codeBase codeSize mmio => userRegions codeBase codeSize stackBottom mmio

/-- A list of regions that the hardware entries can hold. -/
structure Loadable (regions : List PmpRegion) : Prop where
  fits : regions.length ≤ 12
  valid : ∀ r ∈ regions, r.Valid

theorem loadable_nil : Loadable [] := ⟨by simp, by simp⟩

/-- What a chain of builder calls declares, in the order of the entries. -/
def chainRegions (code stack : BitVec 64 × BitVec 64) (mmio : List (BitVec 64 × BitVec 64)) : List PmpRegion :=
  ⟨code.1, code.2, Flags.RX⟩ :: ⟨stack.1, stack.2, Flags.RW⟩ :: mmioRegions mmio

/-- An accepted chain is a table of what it declares. -/
theorem buildConfig_ok {code stack : BitVec 64 × BitVec 64} {mmio : List (BitVec 64 × BitVec 64)}
    {cfg : PmpConfig} (built : buildConfig code stack mmio = .ok cfg) :
    cfg.regions = tableOf (chainRegions code stack mmio) ∧ Loadable (chainRegions code stack mmio) := by
  obtain ⟨b, first, built⟩ := Outcome.bind_ok.mp built
  obtain ⟨c, second, built⟩ := Outcome.bind_ok.mp built
  obtain ⟨d, rest, built⟩ := Outcome.bind_ok.mp built
  cases built
  have all := ((built_builder.region first).region second).mmio rest
  exact ⟨all.table, all.fits, all.valid⟩

/-- The configuration of a user task holds what it declares. -/
theorem buildPmp_ok {codeBase codeSize stackBottom : BitVec 64} {mmio : List (BitVec 64 × BitVec 64)} {cfg : PmpConfig}
    (built : buildPmp codeBase codeSize stackBottom mmio = .ok cfg) :
    cfg.regions = tableOf (userRegions codeBase codeSize stackBottom mmio) ∧
      Loadable (userRegions codeBase codeSize stackBottom mmio) := by
  have chain : buildConfig (codeBase, codeSize) (stackBottom, taskStackSize) mmio = .ok cfg := built
  exact buildConfig_ok chain

end Cyptos
