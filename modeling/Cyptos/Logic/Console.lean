import Cyptos.Logic.Transparent

/-!
# The console under traps

Of everything that a trap handler does, only `SYS_GETC` takes a byte from the receiver. The other
handlers print at most. `SYS_PUTC` sends its byte and nothing else.
-/

namespace Cyptos
set_option autoImplicit false
open Riscv

/-! ## Printing -/

/-- Bytes were sent, and the receiver was left alone. -/
structure Printed (u u' : Uart) : Prop where
  rx : u'.rx = u.rx
  tx : u.tx <+: u'.tx

theorem Printed.refl (u : Uart) : Printed u u := ⟨rfl, List.prefix_refl _⟩

theorem Printed.trans {u v w : Uart} (first : Printed u v) (second : Printed v w) : Printed u w :=
  ⟨second.rx.trans first.rx, first.tx.trans second.tx⟩

theorem putc_printed (u : Uart) (c : BitVec 8) : Printed u (Serial.putc u c) := ⟨rfl, List.prefix_append _ _⟩

theorem puts_printed (u : Uart) (s : String) : Printed u (Serial.puts u s) := by
  unfold Serial.puts
  induction Serial.bytes s generalizing u with
  | nil => exact .refl u
  | cons c cs ih =>
    rw [List.foldl_cons]
    refine Printed.trans ?_ (ih _)
    split
    · exact (putc_printed u 13).trans (putc_printed _ c)
    · exact putc_printed u c

theorem log_printed (s : TrapState) (msg : String) : Printed s.kernel.uart (s.log msg).kernel.uart := puts_printed _ _

theorem putDec_printed {u u' : Uart} {i : Fin maxTasks} (done : Serial.putDec u (BitVec.ofNat 64 i) = .ok u') :
    Printed u u' := by
  rw [Serial.putDec_task] at done
  cases done
  exact putc_printed u _

/-! ## Switching -/

theorem schedule_printed {s r : TrapState} (done : schedule s = .ok r) : Printed s.kernel.uart r.kernel.uart := by
  simp only [schedule, withLock_eq] at done
  split at done
  · cases done
    exact .refl _
  · obtain ⟨u, printed, rest⟩ := Outcome.bind_ok.mp done
    cases rest
    exact ((puts_printed _ _).trans (putDec_printed printed)).trans (puts_printed u _)

theorem markDead_printed {u u' : Uart} {st : SchedulerState} (done : (markDead u st).1 = .ok u') : Printed u u' := by
  unfold markDead at done
  split at done
  · cases done
    exact .refl _
  · split at done
    · cases done
      exact .refl _
    · obtain ⟨v, printed, rest⟩ := Outcome.bind_ok.mp done
      cases rest
      exact ((puts_printed _ _).trans (putDec_printed printed)).trans (puts_printed v _)

theorem killCurrent_printed {s r : TrapState} (done : killCurrent s = .ok r) : Printed s.kernel.uart r.kernel.uart := by
  simp only [killCurrent, withLock_eq] at done
  obtain ⟨u, printed, rest⟩ := Outcome.bind_ok.mp done
  exact (markDead_printed printed).trans (schedule_printed rest)

/-! ## Handlers -/

theorem tryGetc_rx (u : Uart) : u.rx.take 1 ++ (Serial.tryGetc u).2.rx = u.rx := by
  obtain ⟨tx, rx⟩ := u
  cases rx with
  | nil => rfl
  | cons c rest => rfl

theorem tryGetc_tx (u : Uart) : (Serial.tryGetc u).2.tx = u.tx := by
  obtain ⟨tx, rx⟩ := u
  cases rx with
  | nil => rfl
  | cons c rest => rfl

theorem timer_printed (s : TrapState) (timer : Timer) :
    Printed s.kernel.uart ({ s with kernel := { s.kernel with timer := timer } } : TrapState).kernel.uart := .refl _

theorem handleTimer_printed {s r : TrapState} (done : handleTimer s = .ok r) : Printed s.kernel.uart r.kernel.uart := by
  unfold handleTimer at done
  simp only at done
  split at done
  · refine Printed.trans ?_ (schedule_printed done)
    exact ((timer_printed s _).trans (log_printed _ _)).trans (timer_printed _ _)
  · refine Printed.trans ?_ (schedule_printed done)
    exact (timer_printed s _).trans (timer_printed _ _)

theorem handleAccessFault_printed {name : String} {mepc mtval : BitVec 64} {s r : TrapState}
    (done : handleAccessFault name mepc mtval s = .ok r) : Printed s.kernel.uart r.kernel.uart := by
  unfold handleAccessFault at done
  dsimp only at done
  split at done
  · exact (log_printed _ _).trans (killCurrent_printed done)
  · cases done

theorem handleInterrupt_printed {cause : BitVec 64} {s r : TrapState} (done : handleInterrupt cause s = .ok r) :
    Printed s.kernel.uart r.kernel.uart := by
  unfold handleInterrupt at done
  split at done
  · exact handleTimer_printed done
  · split at done
    · cases done
      exact log_printed _ _
    · split at done
      · cases done
        exact log_printed _ _
      · cases done
        exact log_printed _ _

theorem writeMepc_kernel (s : TrapState) (v : BitVec 64) : (writeMepc s v).kernel = s.kernel := rfl

theorem handleException_printed {cause mepc mtval : BitVec 64} {s r : TrapState}
    (done : handleException cause mepc mtval s = .ok r) (other : cause.toNat ≠ 8) :
    Printed s.kernel.uart r.kernel.uart := by
  unfold handleException at done
  -- the arms are system calls, access faults, what is only logged, and panics
  split at done
  all_goals first
    | exact absurd ‹cause.toNat = 8› other
    | exact handleAccessFault_printed done
    | (cases done; rw [writeMepc_kernel]; exact log_printed s _)
    | cases done

theorem handleSyscall_getc {s : TrapState} (getc : s.frame.a7 = sysGetc) :
    (handleSyscall s).kernel.uart = (Serial.tryGetc s.kernel.uart).2 := by
  rw [handleSyscall, if_pos getc]

theorem handleSyscall_putc {s : TrapState} (putc : s.frame.a7 = sysPutc) :
    (handleSyscall s).kernel.uart = Serial.putc s.kernel.uart (s.frame.a0.setWidth 8) := by
  have other : s.frame.a7 ≠ sysGetc := by
    rw [putc]
    decide
  rw [handleSyscall, if_neg other, if_pos putc]

theorem handleSyscall_printed (s : TrapState) (other : s.frame.a7 ≠ sysGetc) :
    Printed s.kernel.uart (handleSyscall s).kernel.uart := by
  rw [handleSyscall, if_neg other]
  split
  · exact putc_printed _ _
  · split
    · exact log_printed _ _
    · exact log_printed _ _

/-! ## Traps -/

instance (h : Hart) (cause : BitVec 64) : Decidable (AsksByte h cause) := inferInstanceAs (Decidable (_ ∧ _ ∧ _))

/-- The trap sends the byte in `a0`. -/
def SendsByte (h : Hart) (cause : BitVec 64) : Prop :=
  isInterrupt cause = false ∧ (causeCode cause).toNat = 8 ∧ h.x .a7 = sysPutc

instance (h : Hart) (cause : BitVec 64) : Decidable (SendsByte h cause) := inferInstanceAs (Decidable (_ ∧ _ ∧ _))

/-- What a trap takes from the receiver: nothing unless it asks, and nothing if nothing is there. -/
def Machine.taken (m : Machine) (cause : BitVec 64) : List (BitVec 8) :=
  if AsksByte m.hart cause then m.kernel.uart.rx.take 1 else []

/-- What a trap sends for its task. -/
def Machine.sent (m : Machine) (cause : BitVec 64) : List (BitVec 8) :=
  if SendsByte m.hart cause then [(m.hart.x .a0).setWidth 8] else []

section Traps

variable {m m' : Machine} {cause tval : BitVec 64} {clobber : Reg → BitVec 64}

theorem trap_kernel (trapped : m.trap cause tval clobber = .ok m') :
    ∃ r, trapHandler (m.trapState cause tval) = .ok r ∧ m'.kernel = r.kernel := by
  obtain ⟨r, handled, rest⟩ := Outcome.bind_ok.mp trapped
  cases rest
  exact ⟨r, handled, resume_kernel m cause tval clobber r⟩

/-- A system call leaves the console as `handle_syscall` does. -/
theorem trap_syscall (trapped : m.trap cause tval clobber = .ok m') (exception : isInterrupt cause = false)
    (code : (causeCode cause).toNat = 8) :
    m'.kernel.uart = (handleSyscall ⟨TrapFrame.ofRegs m.hart.x, m.trapCsrs cause tval, m.kernel⟩).kernel.uart := by
  obtain ⟨r, handled, kernel⟩ := trap_kernel trapped
  rw [trapState_eq] at handled
  have mcause : (m.trapCsrs cause tval).mcause = cause := rfl
  simp only [trapHandler, mcause, exception, handleException, code, Bool.false_eq_true, if_false] at handled
  cases handled
  rw [kernel]
  rfl

/-- A trap that does not ask for a byte prints at most. -/
theorem trap_printed (trapped : m.trap cause tval clobber = .ok m') (other : ¬ AsksByte m.hart cause) :
    Printed m.kernel.uart m'.kernel.uart := by
  by_cases syscall : isInterrupt cause = false ∧ (causeCode cause).toNat = 8
  · rw [trap_syscall trapped syscall.1 syscall.2]
    have frame : (TrapFrame.ofRegs m.hart.x).a7 ≠ sysGetc := fun getc => other ⟨syscall.1, syscall.2, getc⟩
    exact handleSyscall_printed ⟨TrapFrame.ofRegs m.hart.x, m.trapCsrs cause tval, m.kernel⟩ frame
  · obtain ⟨r, handled, kernel⟩ := trap_kernel trapped
    rw [trapState_eq] at handled
    have mcause : (m.trapCsrs cause tval).mcause = cause := rfl
    rw [kernel]
    simp only [trapHandler, mcause] at handled
    split at handled
    · exact handleInterrupt_printed handled
    · rename_i exception
      exact handleException_printed handled fun code => syscall ⟨Bool.eq_false_iff.mpr exception, code⟩

/-- What a trap takes is taken from the front of the queue, once. -/
theorem trap_taken (trapped : m.trap cause tval clobber = .ok m') :
    m.taken cause ++ m'.kernel.uart.rx = m.kernel.uart.rx := by
  by_cases asks : AsksByte m.hart cause
  · rw [Machine.taken, if_pos asks]
    obtain ⟨exception, code, getc⟩ := asks
    rw [trap_syscall trapped exception code, handleSyscall_getc getc]
    exact tryGetc_rx m.kernel.uart
  · rw [Machine.taken, if_neg asks, List.nil_append]
    exact (trap_printed trapped asks).rx

/-- What a trap sends for its task goes out behind what was sent before. -/
theorem trap_sent (trapped : m.trap cause tval clobber = .ok m') :
    m.kernel.uart.tx ++ m.sent cause <+: m'.kernel.uart.tx := by
  by_cases sends : SendsByte m.hart cause
  · rw [Machine.sent, if_pos sends]
    obtain ⟨exception, code, putc⟩ := sends
    rw [trap_syscall trapped exception code, handleSyscall_putc putc]
    exact List.prefix_refl _
  · rw [Machine.sent, if_neg sends, List.append_nil]
    by_cases asks : AsksByte m.hart cause
    · obtain ⟨exception, code, getc⟩ := asks
      rw [trap_syscall trapped exception code, handleSyscall_getc getc, tryGetc_tx]
    · exact (trap_printed trapped asks).tx

end Traps

end Cyptos
