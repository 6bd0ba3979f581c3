import Cyptos.Kernel.Boot
import Cyptos.Logic.Trap

/-!
# One step of the machine

A trap that returns has stayed with the interrupted task, or has rescheduled from the table as it
was or with the current task dead. Every invariant of the system is proved over these cases.
-/

namespace Cyptos
set_option autoImplicit false
open Riscv

/-- The context in which the interrupted task is to go on after a trap. -/
def Machine.reply (m : Machine) (cause tval : BitVec 64) : TaskContext := (m.trapState cause tval).reply

/-- What the handler does about a trap taken now. -/
def Machine.response (m : Machine) (cause tval : BitVec 64) : Response := (m.trapState cause tval).response

/-- The trap handler has rescheduled from the table `base`, in the interrupted task's context. -/
structure Handover (m : Machine) (cause tval : BitVec 64) (base : SchedulerState) (s r : TrapState) : Prop where
  switched : Switched s r
  sched : s.kernel.sched = base
  pmp : s.kernel.pmp = m.kernel.pmp
  context : TaskContext.of s.frame s.csr.mepc s.csr.mstatus = m.reply cause tval

/-- The cases of a handler that returns. -/
inductive Handled (m : Machine) (cause tval : BitVec 64) (r : TrapState) : Prop
  | stay (response : m.response cause tval = .resume) (stays : Stays (m.trapState cause tval) r)
  | preempt {s : TrapState} (response : m.response cause tval = .preempt)
      (handover : Handover m cause tval m.kernel.sched s r)
  | kill {s : TrapState} (response : m.response cause tval = .kill)
      (handover : Handover m cause tval m.kernel.sched.killed s r)

/-- The trap has returned to what the handler left. -/
structure Rescheduled (m : Machine) (cause tval : BitVec 64) (base : SchedulerState) (m' : Machine)
    (s r : TrapState) : Prop extends Handover m cause tval base s r where
  kernel : m'.kernel = r.kernel
  hart : Resumed m'.hart (.of r.frame r.csr.mepc r.csr.mstatus)

/-- The cases of a trap that returns. -/
inductive Trapped (m : Machine) (cause tval : BitVec 64) (m' : Machine) : Prop
  | stay (response : m.response cause tval = .resume) (sched : m'.kernel.sched = m.kernel.sched)
      (pmp : m'.kernel.pmp = m.kernel.pmp) (hart : Resumed m'.hart (m.reply cause tval))
  | preempt {s r : TrapState} (response : m.response cause tval = .preempt)
      (resched : Rescheduled m cause tval m.kernel.sched m' s r)
  | kill {s r : TrapState} (response : m.response cause tval = .kill)
      (resched : Rescheduled m cause tval m.kernel.sched.killed m' s r)

/-! ## The trapped context -/

section Reply

variable {s : TrapState}

theorem respondException_resume {n : Nat} {mpp : BitVec 64} (member : n ∈ [3, 8, 9, 11]) :
    respondException n mpp = .resume := by
  simp only [List.mem_cons, List.not_mem_nil, or_false] at member
  rcases member with rfl | rfl | rfl | rfl <;> rfl

/-- Only a resumed task gets a reply. -/
theorem reply_of_resched (resched : s.response ≠ .resume) : s.reply = .of s.frame s.csr.mepc s.csr.mstatus := by
  by_cases step : isInterrupt s.csr.mcause = false ∧ (causeCode s.csr.mcause).toNat ∈ [3, 8, 9, 11]
  · have response : s.response = .resume :=
      (respond_exception step.1 rfl).trans (respondException_resume step.2)
    exact absurd response resched
  · have pc : s.replyPc = s.csr.mepc := if_neg step
    have frame : s.replyFrame = s.frame := by
      apply if_neg
      rintro ⟨exception, code, -⟩
      exact step ⟨exception, by rw [code]; decide⟩
    rw [TrapState.reply, pc, frame]

theorem stays_reply {r : TrapState} (stays : Stays s r) : TaskContext.of r.frame r.csr.mepc r.csr.mstatus = s.reply := by
  rw [stays.frame, stays.csr]
  rfl

end Reply

theorem of_context (c : TaskContext) : TaskContext.of c.frame c.mepc c.mstatus = c := rfl

section Machine

variable {m m' : Machine} {cause tval : BitVec 64}

/-- The trap handler's status is that of the interrupted mode. -/
theorem reply_mstatus (m : Machine) (cause tval : BitVec 64) :
    (m.reply cause tval).mstatus = Status.trap m.hart.mode m.hart.csr.mstatus := by
  rw [Machine.reply, trapState_eq]
  rfl

theorem trapState_kernel (m : Machine) (cause tval : BitVec 64) : (m.trapState cause tval).kernel = m.kernel := by
  rw [trapState_eq]

/-- **The handler's cases.** A handler that returns falls under one of them. -/
theorem handler_cases {r : TrapState} (handled : trapHandler (m.trapState cause tval) = .ok r) :
    Handled m cause tval r := by
  have outcome := trapHandler_result (m.trapState cause tval)
  have kernel := trapState_kernel m cause tval
  have reply := reply_of_resched (s := m.trapState cause tval)
  rw [handled] at outcome
  cases response : (m.trapState cause tval).response with
  | resume =>
    rw [response] at outcome
    obtain ⟨r', same, stays⟩ := outcome
    obtain rfl := Except.ok.inj same
    exact .stay response stays
  | preempt =>
    rw [response] at outcome
    obtain ⟨s', r', same, core, switched⟩ := outcome
    obtain rfl := Except.ok.inj same
    refine .preempt response ⟨switched, ?_, ?_, ?_⟩
    · rw [core.sched, kernel]
    · rw [core.pmp, kernel]
    · rw [core.frame, core.csr]
      exact (reply (by rw [response]; decide)).symm
  | kill =>
    rw [response] at outcome
    obtain ⟨s', r', same, core, switched⟩ := outcome
    obtain rfl := Except.ok.inj same
    refine .kill response ⟨switched, ?_, ?_, ?_⟩
    · rw [core.sched]
      simp only [TrapState.killed, kernel]
    · rw [core.pmp]
      simp only [TrapState.killed, kernel]
    · rw [core.frame, core.csr]
      exact (reply (by rw [response]; decide)).symm
  | panic =>
    rw [response] at outcome
    obtain ⟨msg, failed⟩ := outcome
    cases failed

/-- The handler returns unless it panics. -/
theorem handler_returns (calm : m.response cause tval ≠ .panic) : ∃ r, trapHandler (m.trapState cause tval) = .ok r := by
  have outcome := trapHandler_result (m.trapState cause tval)
  cases response : (m.trapState cause tval).response with
  | resume =>
    rw [response] at outcome
    obtain ⟨r, handled, -⟩ := outcome
    exact ⟨r, handled⟩
  | preempt =>
    rw [response] at outcome
    obtain ⟨-, r, handled, -⟩ := outcome
    exact ⟨r, handled⟩
  | kill =>
    rw [response] at outcome
    obtain ⟨-, r, handled, -⟩ := outcome
    exact ⟨r, handled⟩
  | panic => exact absurd response calm

/-- **Traps.** A trap that returns falls under one of the cases. -/
theorem trap_cases {clobber : Reg → BitVec 64} (trapped : m.trap cause tval clobber = .ok m') :
    Trapped m cause tval m' := by
  obtain ⟨r, handled, result⟩ := Outcome.bind_ok.mp trapped
  cases result
  have hart := resume_resumed m cause tval clobber r
  cases handler_cases handled with
  | stay response stays =>
    refine .stay response ?_ ?_ ?_
    · rw [resume_kernel, stays.sched, trapState_kernel]
    · rw [resume_kernel, stays.pmp, trapState_kernel]
    · rw [stays_reply stays] at hart
      exact hart
  | preempt response handover => exact .preempt response ⟨handover, rfl, hart⟩
  | kill response handover => exact .kill response ⟨handover, rfl, hart⟩

end Machine

end Cyptos
