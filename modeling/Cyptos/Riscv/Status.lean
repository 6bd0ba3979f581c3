import Mathlib.Tactic

/-!
# Machine status across traps

The `mstatus` fields that a trap and `mret` rewrite: the interrupt enable `MIE`, its
saved copy `MPIE` and the previous privilege `MPP`. Trap entry moves the mode and the
enable into the saved fields and disables interrupts; `mret` moves them back.
-/

namespace Riscv
set_option autoImplicit false

/-- Privilege modes of a hart without supervisor mode. -/
inductive Mode
  | user | machine
  deriving DecidableEq, Repr

/-- The two-bit code of a mode in `MPP`. -/
def Mode.code : Mode → BitVec 2
  | .user => 0b00
  | .machine => 0b11

namespace Status

def mieBit : BitVec 64 := 1 <<< 3
def mpieBit : BitVec 64 := 1 <<< 7
def mppBits : BitVec 64 := 0b11 <<< 11

def mie (s : BitVec 64) : Bool := s.getLsbD 3
def mpie (s : BitVec 64) : Bool := s.getLsbD 7
def mpp (s : BitVec 64) : BitVec 2 := s.extractLsb' 11 2

/-- `mstatus` after a trap is taken in mode `mode`. -/
def trap (mode : Mode) (s : BitVec 64) : BitVec 64 :=
  (s &&& ~~~(mieBit ||| mpieBit ||| mppBits)) ||| (if mie s then mpieBit else 0) |||
    (match mode with | .user => 0 | .machine => mppBits)

/-- `mstatus` after `mret`. -/
def mret (s : BitVec 64) : BitVec 64 :=
  (s &&& ~~~(mieBit ||| mppBits)) ||| (if mpie s then mieBit else 0) ||| mpieBit

/-- The mode `mret` returns to. -/
def mretMode (s : BitVec 64) : Mode := if mpp s = 0b00 then .user else .machine

@[simp] theorem mie_trap (mode : Mode) (s : BitVec 64) : mie (trap mode s) = false := by
  change (trap mode s).getLsbD 3 = false
  cases mode <;> cases h : mie s <;> simp [trap, h, mieBit, mpieBit, mppBits]

@[simp] theorem mpie_trap (mode : Mode) (s : BitVec 64) : mpie (trap mode s) = mie s := by
  cases mode <;> cases h : mie s <;> simp [mpie, trap, h, mieBit, mpieBit, mppBits]

theorem mpp_eq {s : BitVec 64} {c : BitVec 2} (low : s.getLsbD 11 = c.getLsbD 0)
    (high : s.getLsbD 12 = c.getLsbD 1) : mpp s = c := by
  apply BitVec.eq_of_getLsbD_eq
  intro i hi
  obtain rfl | rfl : i = 0 ∨ i = 1 := by omega
  · simpa [mpp] using low
  · simpa [mpp] using high

@[simp] theorem mpp_trap (mode : Mode) (s : BitVec 64) : mpp (trap mode s) = mode.code := by
  apply mpp_eq <;> cases mode <;> cases h : mie s <;>
    simp [trap, h, mieBit, mpieBit, mppBits, Mode.code]

@[simp] theorem mie_mret (s : BitVec 64) : mie (mret s) = mpie s := by
  cases h : mpie s <;> simp [mie, mret, h, mieBit, mpieBit, mppBits]

/-! ## Clearing and setting the enable -/

@[simp] theorem mie_clear (s : BitVec 64) : mie (s &&& ~~~(1#64 <<< 3)) = false := by simp [mie]

@[simp] theorem mie_set (s : BitVec 64) : mie (s ||| (1#64 <<< 3)) = true := by simp [mie]

@[simp] theorem mpie_clear (s : BitVec 64) : mpie (s &&& ~~~(1#64 <<< 3)) = mpie s := by simp [mpie]

@[simp] theorem mpie_set (s : BitVec 64) : mpie (s ||| (1#64 <<< 3)) = mpie s := by simp [mpie]

/-- The test of the enable bit. -/
theorem and_mie_ne_zero (s : BitVec 64) : s &&& (1#64 <<< 3) ≠ 0 ↔ mie s = true := by
  have bit : s &&& (1#64 <<< 3) = if s.getLsbD 3 then 1#64 <<< 3 else 0#64 := BitVec.and_twoPow s 3
  rw [bit, mie]
  cases s.getLsbD 3 with
  | true => decide
  | false => decide

@[simp] theorem mretMode_of_mpp {s : BitVec 64} {mode : Mode} (saved : mpp s = mode.code) :
    mretMode s = mode := by
  cases mode <;> simp [mretMode, saved, Mode.code]

end Status

end Riscv
