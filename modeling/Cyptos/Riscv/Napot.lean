import Mathlib.Tactic

/-!
# Naturally aligned power-of-two ranges

A NAPOT address register holds the range's base shifted right by two, with the low
bits replaced by `0 1 … 1`; the number `k` of trailing ones gives the size `2^(k+3)`.
`napotDecode` reads a range back and `napotMatch_encode` says which byte addresses
the encoding of an aligned range matches on a register of `n` implemented bits:
those of the range, reduced to the `n + 2` bits of a physical address.
-/

namespace Riscv
set_option autoImplicit false

/-- The number of trailing one bits of `v`, looking at `w` bits at most. -/
def trailingOnes : Nat → Nat → Nat
  | 0, _ => 0
  | w + 1, v => if v % 2 = 1 then trailingOnes w (v / 2) + 1 else 0

/-- Base and size of the range that a NAPOT address register `v` denotes. -/
def napotDecode (v : Nat) : Nat × Nat :=
  let k := trailingOnes 64 v
  (v / 2 ^ (k + 1) * 2 ^ (k + 3), 2 ^ (k + 3))

/-- Byte address `a` agrees with `v` on the bits above the encoded size. -/
def napotMatch (v a : Nat) : Bool :=
  let k := trailingOnes 64 v
  a / 2 ^ (k + 3) == v / 2 ^ (k + 1)

/-- The register value for the range of size `size` at `base`. -/
def napotEncode (base size : Nat) : Nat := (base + (size / 2 - 1)) / 4

theorem trailingOnes_pattern (m : Nat) :
    ∀ w k, k ≤ w → trailingOnes w (m * 2 ^ (k + 1) + (2 ^ k - 1)) = k := by
  intro w
  induction w with
  | zero => intro k hk; simp only [Nat.le_zero.mp hk, trailingOnes]
  | succ w ih =>
    intro k hk
    cases k with
    | zero => simp [trailingOnes, Nat.mul_mod_left]
    | succ k =>
      have pos := Nat.two_pow_pos k
      have shape : m * 2 ^ (k + 1 + 1) + (2 ^ (k + 1) - 1) = 2 * (m * 2 ^ (k + 1) + (2 ^ k - 1)) + 1 := by
        have e : m * 2 ^ (k + 1 + 1) = 2 * (m * 2 ^ (k + 1)) := by ring
        have e' : 2 ^ (k + 1) = 2 * 2 ^ k := by ring
        rw [e, e']
        omega
      rw [shape, trailingOnes, if_pos (by omega)]
      rw [show (2 * (m * 2 ^ (k + 1) + (2 ^ k - 1)) + 1) / 2 = m * 2 ^ (k + 1) + (2 ^ k - 1) by omega]
      rw [ih k (by omega)]

theorem pattern_div (m k : Nat) : (m * 2 ^ (k + 1) + (2 ^ k - 1)) / 2 ^ (k + 1) = m := by
  have low : 2 ^ k - 1 < 2 ^ (k + 1) := by
    have := Nat.two_pow_pos k
    have : 2 ^ (k + 1) = 2 * 2 ^ k := by ring
    omega
  rw [Nat.mul_comm, Nat.mul_add_div (Nat.two_pow_pos _), Nat.div_eq_of_lt low, Nat.add_zero]

/-- The encoding of an aligned range is the range's number followed by the size pattern. -/
theorem napotEncode_pattern (m k : Nat) :
    napotEncode (m * 2 ^ (k + 3)) (2 ^ (k + 3)) = m * 2 ^ (k + 1) + (2 ^ k - 1) := by
  have pos := Nat.two_pow_pos k
  have e3 : 2 ^ (k + 3) = 8 * 2 ^ k := by ring
  have e1 : 2 ^ (k + 1) = 2 * 2 ^ k := by ring
  simp only [napotEncode, e3, e1]
  rw [show m * (8 * 2 ^ k) = 4 * (m * (2 * 2 ^ k)) by ring]
  omega

theorem napotMatch_pattern {m k a : Nat} (small : k ≤ 64) :
    napotMatch (m * 2 ^ (k + 1) + (2 ^ k - 1)) a = true ↔ a / 2 ^ (k + 3) = m := by
  simp only [napotMatch, trailingOnes_pattern m 64 k small, pattern_div, beq_iff_eq]

/-- The addresses with the same number of whole blocks below them. -/
theorem div_two_pow_eq_iff {a m n : Nat} : a / 2 ^ n = m ↔ m * 2 ^ n ≤ a ∧ a < m * 2 ^ n + 2 ^ n := by
  have pos := Nat.two_pow_pos n
  rw [Nat.div_eq_iff pos]
  constructor
  · rintro ⟨lo, hi⟩
    exact ⟨lo, by omega⟩
  · rintro ⟨lo, hi⟩
    exact ⟨lo, by omega⟩

/-- A register matches exactly the range it decodes to. -/
theorem napotMatch_iff_decode (v a : Nat) :
    napotMatch v a = true ↔ (napotDecode v).1 ≤ a ∧ a < (napotDecode v).1 + (napotDecode v).2 := by
  simp only [napotMatch, napotDecode, beq_iff_eq]
  exact div_two_pow_eq_iff

/-- The match, bit by bit: an address agrees with the register shifted left by two on all bits above
the encoded size. -/
theorem napotMatch_iff_bits (v a : Nat) :
    napotMatch v a = true ↔ ∀ i, trailingOnes 64 v + 2 < i → a.testBit i = (4 * v).testBit i := by
  have scaled : v / 2 ^ (trailingOnes 64 v + 1) = 4 * v / 2 ^ (trailingOnes 64 v + 3) := by
    rw [show 2 ^ (trailingOnes 64 v + 3) = 4 * 2 ^ (trailingOnes 64 v + 1) by ring]
    exact (Nat.mul_div_mul_left v _ (by decide)).symm
  simp only [napotMatch, beq_iff_eq, scaled]
  constructor
  · intro same i above
    obtain ⟨j, rfl⟩ : ∃ j, i = j + (trailingOnes 64 v + 3) := ⟨i - (trailingOnes 64 v + 3), by omega⟩
    rw [← Nat.testBit_div_two_pow, ← Nat.testBit_div_two_pow, same]
  · intro bits
    apply Nat.eq_of_testBit_eq
    intro j
    rw [Nat.testBit_div_two_pow, Nat.testBit_div_two_pow]
    exact bits _ (by omega)

/-- The encoding of an aligned range matches the addresses of the range. -/
theorem napotMatch_range {m k a : Nat} (small : k ≤ 64) :
    napotMatch (napotEncode (m * 2 ^ (k + 3)) (2 ^ (k + 3))) a = true ↔
      m * 2 ^ (k + 3) ≤ a ∧ a < m * 2 ^ (k + 3) + 2 ^ (k + 3) := by
  rw [napotEncode_pattern, napotMatch_pattern small]
  exact div_two_pow_eq_iff

/-- Dropping the bits of an encoding above an `n`-bit register keeps the size pattern, or fills the
register when the range is larger than what it can denote. -/
theorem pattern_mod (m k n : Nat) :
    (m * 2 ^ (k + 1) + (2 ^ k - 1)) % 2 ^ n =
      if k < n then (m % 2 ^ (n - (k + 1))) * 2 ^ (k + 1) + (2 ^ k - 1) else 2 ^ n - 1 := by
  have pos := Nat.two_pow_pos k
  have e1 : 2 ^ (k + 1) = 2 * 2 ^ k := by ring
  split
  · rename_i fits
    have split : 2 ^ n = 2 ^ (k + 1) * 2 ^ (n - (k + 1)) := by
      rw [← pow_add]; congr 1; omega
    have low : (m * 2 ^ (k + 1) + (2 ^ k - 1)) % 2 ^ (k + 1) = 2 ^ k - 1 := by
      rw [Nat.mul_comm, Nat.mul_add_mod, Nat.mod_eq_of_lt (by omega)]
    rw [split, Nat.mod_mul, pattern_div, low]
    ring
  · rename_i large
    obtain ⟨d, rfl⟩ : ∃ d, k = n + d := ⟨k - n, by omega⟩
    have posn := Nat.two_pow_pos n
    have posd := Nat.two_pow_pos d
    have shape : m * 2 ^ (n + d + 1) + (2 ^ (n + d) - 1) = 2 ^ n * (m * 2 ^ (d + 1) + (2 ^ d - 1)) + (2 ^ n - 1) := by
      have e : 2 ^ (n + d) = 2 ^ n * 2 ^ d := pow_add 2 n d
      have e' : 2 ^ n * (2 ^ d - 1) = 2 ^ n * 2 ^ d - 2 ^ n := by rw [Nat.mul_sub, Nat.mul_one]
      have ge : 2 ^ n ≤ 2 ^ n * 2 ^ d := Nat.le_mul_of_pos_right _ posd
      rw [Nat.mul_add, e', e, show m * 2 ^ (n + d + 1) = 2 ^ n * (m * 2 ^ (d + 1)) by rw [pow_add, pow_add]; ring]
      omega
    rw [shape, Nat.mul_add_mod, Nat.mod_eq_of_lt (by omega)]

/-- A register of `n` bits that was written the encoding of an aligned range matches the physical
addresses that arise from the range's addresses by dropping the bits from `n + 2` up. -/
theorem napotMatch_encode {m k n a : Nat} (width : n ≤ 64) (phys : a < 2 ^ (n + 2)) :
    napotMatch (napotEncode (m * 2 ^ (k + 3)) (2 ^ (k + 3)) % 2 ^ n) a = true ↔
      ∃ x, m * 2 ^ (k + 3) ≤ x ∧ x < m * 2 ^ (k + 3) + 2 ^ (k + 3) ∧ x % 2 ^ (n + 2) = a := by
  have pos := Nat.two_pow_pos (k + 3)
  rw [napotEncode_pattern, pattern_mod]
  split
  · rename_i fits
    -- addresses split as offset in the range, and the range's number modulo what the register keeps
    have space : 2 ^ (n + 2) = 2 ^ (k + 3) * 2 ^ (n - (k + 1)) := by
      rw [← pow_add]; congr 1; omega
    rw [napotMatch_pattern (by omega), space]
    constructor
    · intro number
      refine ⟨m * 2 ^ (k + 3) + a % 2 ^ (k + 3), Nat.le_add_right _ _,
        Nat.add_lt_add_left (Nat.mod_lt _ pos) _, ?_⟩
      rw [Nat.mod_mul, Nat.mul_comm m, Nat.mul_add_mod, Nat.mul_add_div pos, Nat.mod_mod,
        Nat.div_eq_of_lt (Nat.mod_lt _ pos)]
      simp only [Nat.add_zero, ← number]
      exact Nat.mod_add_div a _
    · rintro ⟨x, lo, hi, rfl⟩
      have number : x / 2 ^ (k + 3) = m := div_two_pow_eq_iff.mpr ⟨lo, hi⟩
      rw [Nat.mod_mul, number, Nat.add_mul_div_left _ _ pos, Nat.div_eq_of_lt (Nat.mod_lt _ pos), Nat.zero_add]
  · rename_i large
    have full := napotMatch_pattern (m := 0) (k := n) (a := a) width
    rw [Nat.zero_mul, Nat.zero_add] at full
    rw [full]
    have below : a / 2 ^ (n + 3) = 0 := by
      apply Nat.div_eq_of_lt
      have : 2 ^ (n + 3) = 2 * 2 ^ (n + 2) := by ring
      omega
    have divides : 2 ^ (n + 2) ∣ m * 2 ^ (k + 3) :=
      Dvd.dvd.mul_left (pow_dvd_pow 2 (by omega)) m
    have room : 2 ^ (n + 2) ≤ 2 ^ (k + 3) := Nat.pow_le_pow_right (by decide) (by omega)
    refine ⟨fun _ => ⟨m * 2 ^ (k + 3) + a, Nat.le_add_right _ _, by omega, ?_⟩, fun _ => below⟩
    obtain ⟨q, hq⟩ := divides
    rw [hq, Nat.mul_add_mod, Nat.mod_eq_of_lt phys]

/-- An aligned range inside the physical address space is read back exactly. -/
theorem napotDecode_encode {m k n : Nat} (width : n ≤ 64) (inside : m * 2 ^ (k + 3) + 2 ^ (k + 3) ≤ 2 ^ (n + 2)) :
    napotDecode (napotEncode (m * 2 ^ (k + 3)) (2 ^ (k + 3)) % 2 ^ n) = (m * 2 ^ (k + 3), 2 ^ (k + 3)) := by
  have size : k + 3 ≤ n + 2 := by
    apply (Nat.pow_le_pow_iff_right (by decide : 1 < 2)).mp
    omega
  have fits : k < n := by omega
  have space : 2 ^ (n + 2) = 2 ^ (k + 3) * 2 ^ (n - (k + 1)) := by
    rw [← pow_add]; congr 1; omega
  have number : m < 2 ^ (n - (k + 1)) := by
    rw [space] at inside
    have : 2 ^ (k + 3) * (m + 1) ≤ 2 ^ (k + 3) * 2 ^ (n - (k + 1)) := by linarith
    exact Nat.le_of_mul_le_mul_left this (Nat.two_pow_pos _)
  rw [napotEncode_pattern, pattern_mod, if_pos fits, Nat.mod_eq_of_lt number]
  simp only [napotDecode, trailingOnes_pattern m 64 k (by omega), pattern_div]

end Riscv
