import Cyptos.Kernel.Config

/-!
# The CLINT timer (`timer.rs`)
-/

namespace Cyptos
set_option autoImplicit false

/-- The two timer registers of hart 0 and the kernel's tick counter. -/
structure Timer where
  mtime : BitVec 64
  mtimecmp : BitVec 64
  tickCount : BitVec 64

namespace Timer

/-- Microseconds to timer ticks, in wrapping 64-bit arithmetic. -/
def usToTicks (us : BitVec 64) : BitVec 64 := us * timerFreqHz / 1_000_000

/-- Next timer interrupt at the current time plus `deltaUs` microseconds. -/
def setTimerUs (t : Timer) (deltaUs : BitVec 64) : Timer :=
  { t with mtimecmp := t.mtime + usToTicks deltaUs }

def clearTimer (t : Timer) : Timer := { t with mtimecmp := BitVec.allOnes 64 }

def scheduleNextTick (t : Timer) : Timer := setTimerUs t tickIntervalUs

def incrementTick (t : Timer) : Timer := { t with tickCount := t.tickCount + 1 }

/-- `timer::init`, without the interrupt-enable bit in `mie`. -/
def init (t : Timer) : Timer := setTimerUs (clearTimer t) tickIntervalUs

/-! ## Deadlines -/

/-- The ticks that a delay stands for, in exact arithmetic. -/
def ticksOf (us : BitVec 64) : Nat := us.toNat * timerFreqHz.toNat / 1_000_000

theorem toNat_usToTicks (us : BitVec 64) :
    (usToTicks us).toNat = us.toNat * timerFreqHz.toNat % 2 ^ 64 / 1_000_000 := by
  rw [usToTicks, BitVec.toNat_udiv, BitVec.toNat_mul]
  rfl

/-- The conversion loses ticks when its product wraps, and only then. -/
theorem usToTicks_cases (us : BitVec 64) :
    us.toNat * timerFreqHz.toNat < 2 ^ 64 ∧ (usToTicks us).toNat = ticksOf us ∨
      2 ^ 64 ≤ us.toNat * timerFreqHz.toNat ∧ (usToTicks us).toNat < ticksOf us := by
  rw [toNat_usToTicks, ticksOf]
  generalize us.toNat * timerFreqHz.toNat = product
  rcases Nat.lt_or_ge product (2 ^ 64) with small | wraps
  · exact .inl ⟨small, by rw [Nat.mod_eq_of_lt small]⟩
  · exact .inr ⟨wraps, by omega⟩

/-- As long as the true deadline fits in 64 bits, adding the ticks to `mtime` does not wrap. -/
theorem toNat_setTimerUs {t : Timer} {deltaUs : BitVec 64} (fits : t.mtime.toNat + ticksOf deltaUs < 2 ^ 64) :
    (t.setTimerUs deltaUs).mtimecmp.toNat = t.mtime.toNat + (usToTicks deltaUs).toNat := by
  have le : (usToTicks deltaUs).toNat ≤ ticksOf deltaUs := by
    rcases usToTicks_cases deltaUs with ⟨-, ticks⟩ | ⟨-, less⟩
    · exact ticks.le
    · exact less.le
  rw [setTimerUs, BitVec.toNat_add]
  exact Nat.mod_eq_of_lt (by omega)

theorem toNat_setTimerUs_exact {t : Timer} {deltaUs : BitVec 64} (fits : t.mtime.toNat + ticksOf deltaUs < 2 ^ 64)
    (product : deltaUs.toNat * timerFreqHz.toNat < 2 ^ 64) :
    (t.setTimerUs deltaUs).mtimecmp.toNat = t.mtime.toNat + ticksOf deltaUs := by
  rcases usToTicks_cases deltaUs with ⟨-, ticks⟩ | ⟨wraps, -⟩
  · rw [toNat_setTimerUs fits, ticks]
  · omega

theorem ticksOf_mono {short long : BitVec 64} (le : short.toNat ≤ long.toNat) : ticksOf short ≤ ticksOf long :=
  Nat.div_le_div_right (Nat.mul_le_mul_right _ le)

/-- **Deadlines.** When the true deadline fits in 64 bits, `set_timer_us` writes it, and no shorter delay
is given a later one, exactly when the product of the conversion does not wrap. -/
theorem set_timer_exact_iff (t : Timer) (deltaUs : BitVec 64) (fits : t.mtime.toNat + ticksOf deltaUs < 2 ^ 64) :
    ((t.setTimerUs deltaUs).mtimecmp.toNat = t.mtime.toNat + ticksOf deltaUs ∧
      ∀ shorter : BitVec 64, shorter.toNat ≤ deltaUs.toNat →
        (t.setTimerUs shorter).mtimecmp.toNat ≤ (t.setTimerUs deltaUs).mtimecmp.toNat) ↔
      deltaUs.toNat * timerFreqHz.toNat < 2 ^ 64 := by
  constructor
  · rintro ⟨written, -⟩
    rw [toNat_setTimerUs fits] at written
    rcases usToTicks_cases deltaUs with ⟨product, -⟩ | ⟨-, less⟩
    · exact product
    · omega
  · intro product
    refine ⟨toNat_setTimerUs_exact fits product, fun shorter le => ?_⟩
    have ticks := ticksOf_mono le
    have smaller : shorter.toNat * timerFreqHz.toNat < 2 ^ 64 :=
      lt_of_le_of_lt (Nat.mul_le_mul_right _ le) product
    rw [toNat_setTimerUs_exact fits product, toNat_setTimerUs_exact (by omega) smaller]
    omega

/-- The delay of the kernel's own tick is far below the bound. -/
theorem tick_deadline_exact :
    ((⟨5_000, 0, 0⟩ : Timer).setTimerUs tickIntervalUs).mtimecmp.toNat = 5_000 + ticksOf tickIntervalUs :=
  ((set_timer_exact_iff ⟨5_000, 0, 0⟩ tickIntervalUs (by decide)).mpr (by decide)).1

/-- A delay of some 21 days at time zero: the deadline, 18446744073710 ticks, fits, but what is written is
zero, earlier than the deadline for one microsecond. -/
theorem long_delay_expires_at_once :
    let t : Timer := ⟨0, 0, 0⟩
    t.mtime.toNat + ticksOf 1_844_674_407_371 = 18_446_744_073_710 ∧
      (t.setTimerUs 1_844_674_407_371).mtimecmp = 0 ∧ (t.setTimerUs 1).mtimecmp = 10 := by
  decide

end Timer

end Cyptos
