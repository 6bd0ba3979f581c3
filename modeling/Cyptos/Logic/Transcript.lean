import Cyptos.Kernel.Boot
import Cyptos.Logic.Switch

/-!
# What has been printed has no effect

The kernel prints and never looks at what it has printed. A machine that has more text behind it takes
the same steps, and prints the same text on top.
-/

namespace Cyptos
set_option autoImplicit false
open Riscv Sim

/-! ## Text behind -/

/-- The same console, with `text` sent before all that it has sent. -/
def Uart.behind (text : List (BitVec 8)) (u : Uart) : Uart := ⟨text ++ u.tx, u.rx⟩

def Kernel.behind (text : List (BitVec 8)) (k : Kernel) : Kernel := ⟨k.sched, k.pmp, k.uart.behind text, k.timer, k.heap⟩

def TrapState.behind (text : List (BitVec 8)) (s : TrapState) : TrapState := ⟨s.frame, s.csr, s.kernel.behind text⟩

def Machine.behind (text : List (BitVec 8)) (m : Machine) : Machine := ⟨m.hart, m.kernel.behind text⟩

/-- The machine as if it had printed nothing. -/
def Machine.silent (m : Machine) : Machine :=
  ⟨m.hart, ⟨m.kernel.sched, m.kernel.pmp, ⟨[], m.kernel.uart.rx⟩, m.kernel.timer, m.kernel.heap⟩⟩

theorem silent_behind (m : Machine) : m.silent.behind m.kernel.uart.tx = m := by
  obtain ⟨hart, sched, pmp, ⟨tx, rx⟩, timer, heap⟩ := m
  rw [Machine.behind, Kernel.behind, Uart.behind, Machine.silent, List.append_nil]

section Printing

variable (text : List (BitVec 8))

theorem putc_behind (u : Uart) (c : BitVec 8) : Serial.putc (u.behind text) c = (Serial.putc u c).behind text := by
  rw [Serial.putc, Serial.putc, Uart.behind, Uart.behind, List.append_assoc]

theorem puts_behind (u : Uart) (s : String) : Serial.puts (u.behind text) s = (Serial.puts u s).behind text := by
  unfold Serial.puts
  induction Serial.bytes s generalizing u with
  | nil => rfl
  | cons c cs ih =>
    rw [List.foldl_cons, List.foldl_cons]
    split
    · rw [putc_behind, putc_behind, ih]
    · rw [putc_behind, ih]

theorem log_behind (s : TrapState) (msg : String) : (s.behind text).log msg = (s.log msg).behind text := by
  have printed : Serial.println (s.kernel.uart.behind text) msg = (Serial.println s.kernel.uart msg).behind text :=
    puts_behind text _ _
  exact congrArg (fun u => (⟨s.frame, s.csr, ⟨s.kernel.sched, s.kernel.pmp, u, s.kernel.timer, s.kernel.heap⟩⟩ : TrapState))
    printed

theorem tryGetc_behind (u : Uart) :
    Serial.tryGetc (u.behind text) = ((Serial.tryGetc u).1, (Serial.tryGetc u).2.behind text) := by
  obtain ⟨tx, rx⟩ := u
  cases rx <;> rfl

end Printing

/-! ## Handlers -/

section Handlers

variable (text : List (BitVec 8)) (s : TrapState)

theorem schedule_behind : schedule (s.behind text) = (schedule s).map (TrapState.behind text) := by
  obtain ⟨frame, csr, k⟩ := s
  simp only [schedule, withLock_eq, TrapState.behind, Kernel.behind]
  cases (pickNext frame csr.mepc csr.mstatus k.sched).1 with
  | none => rfl
  | some target =>
    simp only [puts_behind, Serial.putDec_task, putc_behind, bind, Except.bind, pure, Except.pure, Except.map]
    rfl

theorem markDead_behind (u : Uart) (st : SchedulerState) :
    markDead (u.behind text) st = ((markDead u st).1.map (Uart.behind text), (markDead u st).2) := by
  cases cur : st.current with
  | none =>
    simp only [markDead, cur]
    rfl
  | some i =>
    cases slot : st.tasks i with
    | none =>
      simp only [markDead, cur, slot]
      rfl
    | some t =>
      simp only [markDead, cur, slot, puts_behind, Serial.putDec_task, putc_behind, bind, Except.bind, pure,
        Except.pure, Except.map]

theorem killCurrent_behind : killCurrent (s.behind text) = (killCurrent s).map (TrapState.behind text) := by
  obtain ⟨frame, csr, k⟩ := s
  simp only [killCurrent, withLock_eq, TrapState.behind, Kernel.behind, markDead_behind]
  cases (markDead k.uart k.sched).1 with
  | error msg => rfl
  | ok u => exact schedule_behind text ⟨frame, csr, ⟨(markDead k.uart k.sched).2, k.pmp, u, k.timer, k.heap⟩⟩

theorem handleSyscall_behind : handleSyscall (s.behind text) = (handleSyscall s).behind text := by
  obtain ⟨frame, csr, k⟩ := s
  unfold handleSyscall
  have same : (TrapState.behind text ⟨frame, csr, k⟩).frame.a7 = frame.a7 := rfl
  rw [same]
  split
  · have read := tryGetc_behind text k.uart
    simp only [TrapState.behind, Kernel.behind, read]
  · split
    · simp only [TrapState.behind, Kernel.behind, putc_behind]
    · split
      · exact log_behind text _ _
      · exact log_behind text _ _

theorem handleTimer_behind : handleTimer (s.behind text) = (handleTimer s).map (TrapState.behind text) := by
  obtain ⟨frame, csr, ⟨sched, pmp, uart, timer, heap⟩⟩ := s
  have same (u : Uart) (t : Timer) : schedule ⟨frame, csr, ⟨sched, pmp, u.behind text, t, heap⟩⟩ =
      (schedule ⟨frame, csr, ⟨sched, pmp, u, t, heap⟩⟩).map (TrapState.behind text) :=
    schedule_behind text ⟨frame, csr, ⟨sched, pmp, u, t, heap⟩⟩
  rw [TrapState.behind, Kernel.behind, handleTimer, handleTimer]
  generalize timer.incrementTick = t
  by_cases hundredth : t.tickCount.toNat % 100 = 0
  · simp only [hundredth, if_true, TrapState.log, Serial.println, puts_behind, same]
  · simp only [hundredth, if_false, same]

theorem handleInterrupt_behind (cause : BitVec 64) :
    handleInterrupt cause (s.behind text) = (handleInterrupt cause s).map (TrapState.behind text) := by
  unfold handleInterrupt
  split
  · exact handleTimer_behind text s
  · split
    · exact congrArg Except.ok (log_behind text s _)
    · split
      · exact congrArg Except.ok (log_behind text s _)
      · exact congrArg Except.ok (log_behind text s _)

theorem handleAccessFault_behind (name : String) (mepc mtval : BitVec 64) :
    handleAccessFault name mepc mtval (s.behind text) = (handleAccessFault name mepc mtval s).map (TrapState.behind text) := by
  have same : readMpp (s.behind text).csr = readMpp s.csr := rfl
  simp only [handleAccessFault, same]
  split
  · rw [log_behind, killCurrent_behind]
  · rfl

theorem handleException_behind (cause mepc mtval : BitVec 64) :
    handleException cause mepc mtval (s.behind text) =
      (handleException cause mepc mtval s).map (TrapState.behind text) := by
  have logged (msg : String) : (writeMepc ((s.behind text).log msg) (mepc + 4)) =
      (writeMepc (s.log msg) (mepc + 4)).behind text := by
    rw [log_behind]
    rfl
  unfold handleException
  split
  · rfl
  · exact handleAccessFault_behind text s _ _ _
  · rfl
  · exact congrArg Except.ok (logged _)
  · rfl
  · exact handleAccessFault_behind text s _ _ _
  · rfl
  · exact handleAccessFault_behind text s _ _ _
  · rw [handleSyscall_behind]
    rfl
  · exact congrArg Except.ok (logged _)
  · exact congrArg Except.ok (logged _)
  · rfl
  · rfl
  · rfl
  · rfl

theorem trapHandler_behind : trapHandler (s.behind text) = (trapHandler s).map (TrapState.behind text) := by
  have same : (s.behind text).csr = s.csr := rfl
  simp only [trapHandler, same]
  split
  · exact handleInterrupt_behind text s _
  · exact handleException_behind text s _ _ _

end Handlers

/-! ## Runs -/

section Runs

variable (text : List (BitVec 8))

theorem after_behind (m : Machine) (e : Event) : (m.behind text).after e = (m.after e).map (Machine.behind text) := by
  cases e with
  | exec x pc mem => rfl
  | writeMstatus v => rfl
  | device rx mtime => rfl
  | trap cause tval clobber =>
    have seen : (m.behind text).trapState cause tval = (m.trapState cause tval).behind text := by
      simp only [Machine.trapState, Machine.entered, Machine.behind, TrapState.behind]
    have back (s : TrapState) : (m.behind text).resume cause tval clobber (s.behind text) =
        (m.resume cause tval clobber s).behind text := by
      simp only [Machine.resume, Machine.entered, Machine.behind, TrapState.behind]
    simp only [Machine.after, Machine.trap, seen, trapHandler_behind]
    cases trapHandler (m.trapState cause tval) with
    | error msg => rfl
    | ok s => exact congrArg Except.ok (back s)

theorem runs_behind {m n : Machine} {es : List Event} (run : Runs m es n) : Runs (m.behind text) es (n.behind text) := by
  induction run with
  | start => exact .start
  | @next es t u e _ step ih =>
    refine ih.next ⟨?_, ?_⟩
    · cases e <;> exact step.1
    · rw [after_behind, step.2]
      rfl

theorem runs_of_behind {m n : Machine} {es : List Event} (run : Runs (m.behind text) es n) :
    ∃ n', n = n'.behind text ∧ Runs m es n' := by
  induction run with
  | start => exact ⟨m, rfl, .start⟩
  | @next es t u e _ step ih =>
    obtain ⟨t', rfl, before⟩ := ih
    obtain ⟨admits, after⟩ := step
    rw [after_behind] at after
    cases result : t'.after e with
    | error msg =>
      rw [result] at after
      cases after
    | ok u' =>
      rw [result] at after
      cases after
      refine ⟨u', rfl, before.next ⟨?_, result⟩⟩
      cases e <;> exact admits

end Runs

/-- Machines that differ in what they have printed run alike and print alike. -/
theorem runs_silent {m b n : Machine} {es : List Event} (same : m.silent = b.silent) (run : Runs m es n) :
    ∃ n' text, Runs b es n' ∧ n'.silent = n.silent ∧ n.kernel.uart.tx = m.kernel.uart.tx ++ text ∧
      n'.kernel.uart.tx = b.kernel.uart.tx ++ text := by
  rw [← silent_behind m] at run
  obtain ⟨n₀, rfl, quiet⟩ := runs_of_behind _ run
  rw [same] at quiet
  have again := runs_behind b.kernel.uart.tx quiet
  rw [silent_behind] at again
  exact ⟨_, n₀.kernel.uart.tx, again, rfl, rfl, rfl⟩

end Cyptos
