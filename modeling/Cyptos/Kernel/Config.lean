import Mathlib.Tactic

/-!
# Hardware and kernel constants (`config.rs`)
-/

namespace Cyptos
set_option autoImplicit false

def uartBase : BitVec 64 := 0x1000_0000

def timerFreqHz : BitVec 64 := 10_000_000
def tickIntervalUs : BitVec 64 := 10_000

abbrev maxTasks : Nat := 4

def taskStackSize : BitVec 64 := 8192
def taskStackAlign : BitVec 64 := 8192

abbrev pmpCount : Nat := 16

def sysGetc : BitVec 64 := 0
def sysPutc : BitVec 64 := 1
def sysLegacyPoc : BitVec 64 := 42

/-- Outcome of code that may panic; the error is the panic message. -/
abbrev Outcome := Except String

/-- A sequence that does not panic is two parts that do not panic. -/
theorem Outcome.bind_ok {α β : Type} {x : Outcome α} {f : α → Outcome β} {b : β} :
    (x >>= f) = .ok b ↔ ∃ a, x = .ok a ∧ f a = .ok b := by
  cases x with
  | error e => simp [bind, Except.bind]
  | ok a => simp [bind, Except.bind]

theorem Outcome.eq_ok {α : Type} {x : Outcome α} (d : α) (ok : x.toBool = true) : x = .ok (x.toOption.getD d) := by
  cases x with
  | error e => cases ok
  | ok a => rfl

end Cyptos
