import Mathlib.Tactic

/-!
# Bytes of a doubleword

Little-endian views of a 64-bit word. A packed CSR (eight configuration bytes in
one `pmpcfg`) and a doubleword in memory are both read through `byteAt` and built
by `ofBytes`; the bit operations of a driver act on each byte by itself.
-/

namespace Riscv
set_option autoImplicit false

/-- Byte `i` of a doubleword, least significant first. -/
def byteAt (w : BitVec 64) (i : Nat) : BitVec 8 := w.extractLsb' (8 * i) 8

/-- A byte moved to position `i` of a doubleword. -/
def placeByte (c : BitVec 8) (i : Nat) : BitVec 64 := c.setWidth 64 <<< (8 * i)

/-- The doubleword whose byte `i` is `f i`. -/
def ofBytes (f : Fin 8 → BitVec 8) : BitVec 64 :=
  placeByte (f 0) 0 ||| placeByte (f 1) 1 ||| placeByte (f 2) 2 ||| placeByte (f 3) 3 |||
    placeByte (f 4) 4 ||| placeByte (f 5) 5 ||| placeByte (f 6) 6 ||| placeByte (f 7) 7

@[simp] theorem byteAt_or (v w : BitVec 64) (i : Nat) : byteAt (v ||| w) i = byteAt v i ||| byteAt w i := by
  apply BitVec.eq_of_getLsbD_eq
  intro b hb
  simp [byteAt, hb]

@[simp] theorem byteAt_and (v w : BitVec 64) (i : Nat) : byteAt (v &&& w) i = byteAt v i &&& byteAt w i := by
  apply BitVec.eq_of_getLsbD_eq
  intro b hb
  simp [byteAt, hb]

theorem byteAt_not (w : BitVec 64) (i : Fin 8) : byteAt (~~~w) i = ~~~byteAt w i := by
  apply BitVec.eq_of_getLsbD_eq
  intro b hb
  simp [byteAt, hb]
  omega

@[simp] theorem byteAt_zero (i : Nat) : byteAt 0#64 i = 0#8 := by
  apply BitVec.eq_of_getLsbD_eq
  intro b hb
  simp [byteAt]

/-- A placed byte occupies its own position and no other. -/
theorem byteAt_placeByte (c : BitVec 8) (i j : Fin 8) :
    byteAt (placeByte c j) i = if i = j then c else 0 := by
  apply BitVec.eq_of_getLsbD_eq
  intro b hb
  simp only [byteAt, placeByte, BitVec.getLsbD_extractLsb', BitVec.getLsbD_shiftLeft,
    BitVec.getLsbD_setWidth, hb, decide_true, Bool.true_and]
  by_cases same : i = j
  · subst same
    have inside : 8 * i.val + b < 64 := by omega
    have index : 8 * i.val + b - 8 * i.val = b := by omega
    simp [inside, index, show b < 64 by omega]
  · have apart : i.val ≠ j.val := fun h => same (Fin.ext h)
    simp only [same, if_false]
    by_cases below : 8 * i.val + b < 8 * j.val
    · simp [below]
    · simp [BitVec.getLsbD_of_ge c (8 * i.val + b - 8 * j.val) (by omega)]

@[simp] theorem byteAt_ofBytes (f : Fin 8 → BitVec 8) (i : Fin 8) : byteAt (ofBytes f) i = f i := by
  have place (j : Fin 8) := byteAt_placeByte (f j) i j
  simp only [ofBytes, byteAt_or]
  have p0 := place 0; have p1 := place 1; have p2 := place 2; have p3 := place 3
  have p4 := place 4; have p5 := place 5; have p6 := place 6; have p7 := place 7
  simp only [Fin.isValue, Fin.coe_ofNat_eq_mod, Nat.reduceMod] at p0 p1 p2 p3 p4 p5 p6 p7
  rw [p0, p1, p2, p3, p4, p5, p6, p7]
  fin_cases i <;> simp

/-- Two doublewords with the same bytes are the same. -/
theorem eq_of_byteAt {v w : BitVec 64} (same : ∀ i : Fin 8, byteAt v i = byteAt w i) : v = w := by
  apply BitVec.eq_of_getLsbD_eq
  intro b hb
  have bit := congrArg (fun x : BitVec 8 => x.getLsbD (b % 8)) (same ⟨b / 8, by omega⟩)
  simpa [byteAt, Nat.mod_lt, show 8 * (b / 8) + b % 8 = b by omega] using bit

/-- The mask that clears byte `j` keeps every other byte. -/
theorem byteAt_and_clear (w : BitVec 64) (i j : Fin 8) :
    byteAt (w &&& ~~~placeByte 0xFF j) i = if i = j then 0 else byteAt w i := by
  rw [byteAt_and, byteAt_not, byteAt_placeByte]
  by_cases same : i = j
  · simp only [same, if_true]
    exact BitVec.and_zero
  · simp only [same, if_false]
    exact BitVec.and_allOnes

/-! ## Masks -/

/-- A word is what a mask clears of it together with what the mask keeps. -/
theorem clear_or_keep (w m : BitVec 64) : w &&& ~~~m ||| w &&& m = w := by
  apply BitVec.eq_of_getLsbD_eq
  intro b h
  simp only [BitVec.getLsbD_or, BitVec.getLsbD_and, BitVec.getLsbD_not, h, decide_true, Bool.true_and]
  cases w.getLsbD b <;> cases m.getLsbD b <;> rfl

/-- Clearing the low bits rounds down. -/
theorem toNat_clear_low {x m : BitVec 64} {k : Nat} (mask : m.toNat = 2 ^ k - 1) :
    (x &&& ~~~m).toNat = x.toNat - x.toNat % 2 ^ k := by
  have parts := clear_or_keep x m
  have low : (x &&& m).toNat = x.toNat % 2 ^ k := by
    rw [BitVec.toNat_and, mask, Nat.and_two_pow_sub_one_eq_mod]
  have disjoint : (x &&& ~~~m) &&& (x &&& m) = 0#64 := by
    apply BitVec.eq_of_getLsbD_eq
    intro b h
    simp only [BitVec.getLsbD_and, BitVec.getLsbD_not, BitVec.getLsbD_zero]
    cases m.getLsbD b <;> simp
  rw [← BitVec.add_eq_or_of_and_eq_zero _ _ disjoint] at parts
  have sum := congrArg BitVec.toNat parts
  have le : x.toNat % 2 ^ k ≤ x.toNat := Nat.mod_le _ _
  have bound := x.isLt
  have bound' := (x &&& ~~~m).isLt
  have le' : (x &&& ~~~m).toNat ≤ x.toNat := by
    rw [BitVec.toNat_and]
    exact Nat.and_le_left
  rw [BitVec.toNat_add, low] at sum
  omega

end Riscv
