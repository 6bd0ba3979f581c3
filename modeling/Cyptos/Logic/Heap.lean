import Cyptos.Kernel.Allocator
import Cyptos.Riscv.Word
import Cyptos.Sim.Arena

/-!
# The heap

The bump allocator is an arena whose mark is `next`. A call works on a copy of `next` that may be
out of date when it comes to the compare-exchange; the exchange then succeeds only if nothing has
moved in between, so a successful call does in one step what `alloc` does without interference.
-/

namespace Cyptos
set_option autoImplicit false
open Riscv Sim

/-! ## Layouts -/

/-- What a `core::alloc::Layout` guarantees: a power-of-two alignment, and a size that does not exceed
`isize::MAX` when rounded up to it. -/
structure AllocLayout.Valid (l : AllocLayout) : Prop where
  power : ∃ k, l.align.toNat = 2 ^ k
  rounded : (l.size.toNat + (l.align.toNat - 1)) / l.align.toNat * l.align.toNat ≤ 2 ^ 63 - 1

/-- Aligning up does not go down and lands on a multiple. -/
theorem toNat_alignUp {current align : BitVec 64} {k : Nat} (power : align.toNat = 2 ^ k)
    (room : current.toNat + 2 ^ k < 2 ^ 64) :
    (BumpAllocator.alignUp current align).toNat = (current.toNat + (2 ^ k - 1)) / 2 ^ k * 2 ^ k := by
  have pos := Nat.two_pow_pos k
  have mask : (align - 1).toNat = 2 ^ k - 1 := by
    rw [BitVec.toNat_sub_of_le (BitVec.le_def.mpr ?_), power]
    · rfl
    · rw [power]
      exact pos
  have sum : (current + align - 1).toNat = current.toNat + (2 ^ k - 1) := by
    have total : (current + align).toNat = current.toNat + 2 ^ k := by
      rw [BitVec.toNat_add, power, Nat.mod_eq_of_lt room]
    rw [BitVec.toNat_sub_of_le (BitVec.le_def.mpr ?_), total]
    · change current.toNat + 2 ^ k - 1 = _
      omega
    · rw [total]
      change 1 ≤ _
      omega
  rw [BumpAllocator.alignUp, toNat_clear_low mask, sum]
  have division := Nat.div_add_mod (current.toNat + (2 ^ k - 1)) (2 ^ k)
  rw [Nat.mul_comm] at division
  omega

/-- Rounded sizes leave room for one more alignment step. -/
theorem AllocLayout.Valid.size_le {l : AllocLayout} (valid : l.Valid) {k : Nat} (power : l.align.toNat = 2 ^ k) :
    k ≤ 63 ∧ l.size.toNat + 2 ^ k ≤ 2 ^ 63 := by
  have pos := Nat.two_pow_pos k
  have small : k < 64 := by
    apply (Nat.pow_lt_pow_iff_right (by decide : 1 < 2)).mp
    rw [← power]
    exact l.align.isLt
  have rounded := valid.rounded
  rw [power] at rounded
  have split : 2 ^ 63 = 2 ^ (63 - k) * 2 ^ k := by
    rw [← pow_add]
    congr 1
    omega
  generalize units : (l.size.toNat + (2 ^ k - 1)) / 2 ^ k = m at rounded
  have fewer : m < 2 ^ (63 - k) := by
    apply Nat.lt_of_mul_lt_mul_right (a := 2 ^ k)
    rw [← split]
    omega
  have scaled : (m + 1) * 2 ^ k ≤ 2 ^ (63 - k) * 2 ^ k := Nat.mul_le_mul_right _ fewer
  rw [← split, Nat.add_mul, Nat.one_mul] at scaled
  have covers : l.size.toNat ≤ m * 2 ^ k := by
    have division := Nat.div_add_mod (l.size.toNat + (2 ^ k - 1)) (2 ^ k)
    have rest := Nat.mod_lt (l.size.toNat + (2 ^ k - 1)) pos
    rw [units, Nat.mul_comm] at division
    omega
  exact ⟨by omega, by omega⟩

/-- The arithmetic of a request does not wrap, and its block starts on a multiple of the alignment. -/
theorem AllocLayout.Valid.bump {l : AllocLayout} (valid : l.Valid) {current : BitVec 64} (low : current.toNat < 2 ^ 63) :
    let aligned := BumpAllocator.alignUp current l.align
    current.toNat ≤ aligned.toNat ∧ aligned.toNat % l.align.toNat = 0 ∧
      (aligned + l.size).toNat = aligned.toNat + l.size.toNat := by
  intro aligned
  obtain ⟨k, power⟩ := valid.power
  obtain ⟨small, size⟩ := valid.size_le power
  have pos := Nat.two_pow_pos k
  have step : 2 ^ k ≤ 2 ^ 63 := Nat.pow_le_pow_right (by decide) small
  have value : aligned.toNat = (current.toNat + (2 ^ k - 1)) / 2 ^ k * 2 ^ k := toNat_alignUp power (by omega)
  have division := Nat.div_add_mod (current.toNat + (2 ^ k - 1)) (2 ^ k)
  have rest := Nat.mod_lt (current.toNat + (2 ^ k - 1)) pos
  rw [Nat.mul_comm, ← value] at division
  refine ⟨by omega, ?_, ?_⟩
  · rw [power, value, Nat.mul_mod_left]
  · rw [BitVec.toNat_add]
    apply Nat.mod_eq_of_lt
    omega

/-! ## One allocation -/

/-- The allocator is in use: `next` lies in a heap in the lower half of the address space. -/
structure HeapReady (a : BumpAllocator) : Prop where
  start_le : a.heapStart.toNat ≤ a.next.toNat
  next_le : a.next.toNat ≤ a.heapEnd.toNat
  bound : a.heapEnd.toNat < 2 ^ 63

/-- A request is answered with the block at `p`. -/
structure Grants (a : BumpAllocator) (l : AllocLayout) (p : BitVec 64) (a' : BumpAllocator) : Prop where
  fresh : a.next.toNat ≤ p.toNat
  aligned : p.toNat % l.align.toNat = 0
  fits : p.toNat + l.size.toNat ≤ a.heapEnd.toNat
  heapStart : a'.heapStart = a.heapStart
  heapEnd : a'.heapEnd = a.heapEnd
  next : a'.next.toNat = p.toNat + l.size.toNat

theorem alloc_grants {a a' : BumpAllocator} {l : AllocLayout} {p : BitVec 64} (ready : HeapReady a) (valid : l.Valid)
    (allocated : a.alloc l = (some p, a')) : Grants a l p a' := by
  have low : a.next.toNat < 2 ^ 63 := lt_of_le_of_lt ready.next_le ready.bound
  obtain ⟨up, aligned, sum⟩ := valid.bump low
  unfold BumpAllocator.alloc at allocated
  dsimp only at allocated
  split at allocated
  · cases allocated
  · rename_i inside
    cases allocated
    have fits := BitVec.le_def.mp (BitVec.not_lt.mp inside)
    rw [sum] at fits
    exact ⟨up, aligned, fits, rfl, rfl, sum⟩

theorem Grants.ready {a a' : BumpAllocator} {l : AllocLayout} {p : BitVec 64} (ready : HeapReady a)
    (grants : Grants a l p a') : HeapReady a' := by
  have start := ready.start_le
  have fresh := grants.fresh
  have fits := grants.fits
  have next := grants.next
  refine ⟨?_, ?_, ?_⟩
  · rw [grants.heapStart]
    omega
  · rw [grants.heapEnd]
    omega
  · rw [grants.heapEnd]
    exact ready.bound

/-! ## An allocation without interference -/

/-- Rounding up to a multiple gives the least one. -/
theorem roundUp_isLeast (n : Nat) {d : Nat} (pos : 0 < d) :
    IsLeast {q | n ≤ q ∧ d ∣ q} ((n + (d - 1)) / d * d) := by
  have division := Nat.div_add_mod (n + (d - 1)) d
  have rest := Nat.mod_lt (n + (d - 1)) pos
  rw [Nat.mul_comm] at division
  refine ⟨⟨by omega, Nat.dvd_mul_left _ _⟩, ?_⟩
  rintro q ⟨above, c, rfl⟩
  have units : (n + (d - 1)) / d < c + 1 := by
    apply (Nat.div_lt_iff_lt_mul pos).mpr
    rw [Nat.add_mul, Nat.one_mul, Nat.mul_comm c d]
    omega
  rw [Nat.mul_comm d c]
  exact Nat.mul_le_mul_right d (Nat.le_of_lt_succ units)

/-- The size bound of a layout, without the rounding. -/
theorem AllocLayout.Valid.of_sum {l : AllocLayout} (power : ∃ k, l.align.toNat = 2 ^ k)
    (sum : l.size.toNat + l.align.toNat - 1 ≤ 2 ^ 63 - 1) : l.Valid := by
  refine ⟨power, ?_⟩
  obtain ⟨k, align⟩ := power
  have pos := Nat.two_pow_pos k
  have down := Nat.div_mul_le_self (l.size.toNat + (l.align.toNat - 1)) l.align.toNat
  omega

/-- **An allocation without interference** returns the least aligned address from the bump position on,
or null when the block does not fit there; none of its additions wraps. -/
theorem alloc_exact {a : BumpAllocator} {l : AllocLayout} (started : 0 < a.heapStart.toNat) (ready : HeapReady a)
    (power : ∃ k, l.align.toNat = 2 ^ k) (admitted : l.size.toNat + l.align.toNat - 1 ≤ 2 ^ 63 - 1) :
    ∃ p : BitVec 64, IsLeast {q | a.next.toNat ≤ q ∧ l.align.toNat ∣ q} p.toNat ∧ 0 < p.toNat ∧
      p = BumpAllocator.alignUp a.next l.align ∧
      a.next.toNat + l.align.toNat < 2 ^ 64 ∧ a.next.toNat + l.align.toNat - 1 < 2 ^ 64 ∧
      p.toNat + l.size.toNat < 2 ^ 64 ∧
      (p.toNat + l.size.toNat ≤ a.heapEnd.toNat →
        a.alloc l = (some p, { a with next := BitVec.ofNat 64 (p.toNat + l.size.toNat) })) ∧
      (a.heapEnd.toNat < p.toNat + l.size.toNat → a.alloc l = (none, a)) := by
  have valid := AllocLayout.Valid.of_sum power admitted
  have low : a.next.toNat < 2 ^ 63 := lt_of_le_of_lt ready.next_le ready.bound
  obtain ⟨up, -, sum⟩ := valid.bump low
  obtain ⟨k, align⟩ := power
  have pos := Nat.two_pow_pos k
  have value : (BumpAllocator.alignUp a.next l.align).toNat = _ := toNat_alignUp align (by omega)
  have next : BumpAllocator.alignUp a.next l.align + l.size =
      BitVec.ofNat 64 ((BumpAllocator.alignUp a.next l.align).toNat + l.size.toNat) := by
    rw [← sum, BitVec.ofNat_toNat, BitVec.setWidth_eq]
  have small := (BumpAllocator.alignUp a.next l.align + l.size).isLt
  rw [sum] at small
  have start := ready.start_le
  refine ⟨_, ?_, by omega, rfl, by omega, by omega, small, ?_, ?_⟩
  · rw [value, align]
    exact roundUp_isLeast a.next.toNat pos
  · intro fits
    have inside : ¬ BumpAllocator.alignUp a.next l.align + l.size > a.heapEnd := by
      rw [gt_iff_lt, BitVec.lt_def, sum]
      omega
    rw [← next]
    simp only [BumpAllocator.alloc, if_neg inside]
  · intro large
    have outside : BumpAllocator.alignUp a.next l.align + l.size > a.heapEnd := by
      rw [gt_iff_lt, BitVec.lt_def, sum]
      omega
    simp only [BumpAllocator.alloc, if_pos outside]

/-- A page-sized block from a bump position that is not aligned to it. -/
theorem alloc_exact_page :
    BumpAllocator.alloc ⟨0x8002_0000, 0x8080_0000, 0x8002_0008⟩ ⟨0x1000, 0x1000⟩ =
      (some 0x8002_1000, ⟨0x8002_0000, 0x8080_0000, 0x8002_2000⟩) := by
  have ready : HeapReady ⟨0x8002_0000, 0x8080_0000, 0x8002_0008⟩ := ⟨by decide, by decide, by decide⟩
  obtain ⟨p, -, -, aligned, -, -, -, fits, -⟩ :=
    alloc_exact (l := ⟨0x1000, 0x1000⟩) (by decide) ready ⟨12, rfl⟩ (by decide)
  obtain rfl : p = 0x8002_1000 := aligned
  exact fits (by decide)

end Cyptos
