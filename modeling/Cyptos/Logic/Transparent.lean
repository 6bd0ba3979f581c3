import Cyptos.Logic.History
import Cyptos.Logic.Protected

/-!
# Traps that stay with their task

Interrupts other than the timer, system calls and breakpoints return to the interrupted task. Where
it has to go on is said by its instruction stream: at the interrupted instruction after an
interrupt, behind the trapping instruction after an exception. The handler's step is four bytes
always, so the two agree except after a compressed breakpoint; and it returns at all only if the frame
and the stack below it can be stored.
-/

namespace Cyptos
set_option autoImplicit false
open Riscv Sim

/-- The instruction at the program counter is a compressed breakpoint. -/
def AtCEbreak (h : Hart) : Prop := loadH h.mem h.pc = cEbreakHalf

/-- A trap of this cause can be taken here and is not one that switches tasks: an interrupt other
than the timer's, an `ecall` from user mode, or a breakpoint instruction of either length. -/
inductive StayTrap (h : Hart) (cause : BitVec 64) : Prop
  | interrupt (interrupt : isInterrupt cause = true) (other : causeCode cause ≠ 7)
  | ecall (exception : isInterrupt cause = false) (code : (causeCode cause).toNat = 8) (user : h.mode = .user)
      (word : loadW h.mem h.pc = ecallWord)
  | breakpoint (exception : isInterrupt cause = false) (code : (causeCode cause).toNat = 3)
      (instr : loadW h.mem h.pc = ebreakWord ∨ AtCEbreak h)

/-- The trap asks for a byte in `a0`. -/
def AsksByte (h : Hart) (cause : BitVec 64) : Prop :=
  isInterrupt cause = false ∧ (causeCode cause).toNat = 8 ∧ h.x .a7 = sysGetc

section Stay

variable {m : Machine} {cause : BitVec 64}

theorem StayTrap.response (stay : StayTrap m.hart cause) (tval : BitVec 64) : m.response cause tval = .resume := by
  have mcause : (m.trapState cause tval).csr.mcause = cause := by rw [trapState_eq]; rfl
  rw [Machine.response, TrapState.response, mcause]
  cases stay with
  | interrupt interrupt other => rw [respond_interrupt interrupt, if_neg other]
  | ecall exception code user word =>
    exact (respond_exception exception code).trans (respondException_resume (by decide))
  | breakpoint exception code instr =>
    exact (respond_exception exception code).trans (respondException_resume (by decide))

/-- Such a trap returns, to what the task is owed. -/
theorem StayTrap.returns (stay : StayTrap m.hart cause) (tval : BitVec 64) (clobber : Reg → BitVec 64) :
    ∃ m', m.trap cause tval clobber = .ok m' ∧ m'.kernel.sched.current = m.kernel.sched.current ∧
      Restored m'.hart (m.snapshot cause) := by
  have response := stay.response tval
  have calm : m.response cause tval ≠ .panic := by
    rw [response]
    decide
  obtain ⟨r, handled⟩ := handler_returns calm
  have trapped : m.trap cause tval clobber = .ok (m.resume cause tval clobber r) := Outcome.bind_ok.mpr ⟨r, handled, rfl⟩
  refine ⟨_, trapped, ?_⟩
  cases trap_cases trapped with
  | stay _ sched _ hart =>
    refine ⟨by rw [sched], ?_⟩
    rw [← reply_snapshot m cause tval]
    exact hart.restored
  | preempt other =>
    rw [response] at other
    cases other
  | kill other =>
    rw [response] at other
    cases other

/-- The trapping instruction has four bytes unless it is the compressed breakpoint. -/
theorem StayTrap.length (stay : StayTrap m.hart cause) (exception : isInterrupt cause = false)
    (plain : ¬ AtCEbreak m.hart) : instrLength m.hart.mem m.hart.pc = 4 := by
  cases stay with
  | interrupt interrupt other =>
    rw [exception] at interrupt
    cases interrupt
  | ecall _ code user word =>
    rw [instrLength, loadH_of_loadW word]
    decide
  | breakpoint _ code instr =>
    rw [instrLength, loadH_of_loadW (instr.resolve_right plain)]
    decide

end Stay

end Cyptos
