import Cyptos.Kernel.Trap
import Cyptos.Logic.Switch

/-!
# What a trap does

The vector hands the interrupted registers to the handler as a frame and restores the frame that
the handler leaves, whatever the handler did to the caller-saved registers. The handler has four
responses: resume the interrupted task, preempt it, kill it, or panic.
-/

namespace Cyptos
set_option autoImplicit false
open Riscv

/-! ## The vector -/

section Vector

variable (h : Hart)

/-- Where the vector puts the frame. -/
def frameBase : BitVec 64 := h.x .sp + BitVec.ofInt 64 (-256)

/-- The registers that the vector stores first; the interrupted `sp` comes last, through `mscratch`. -/
def frameBank : List (Reg × Nat) := frameTable.take 30

theorem trapVectorSave_eq :
    trapVectorSave = [.csrw .mscratch .sp, .addi .sp .sp (-256)] ++
      (sds .sp frameBank ++ [.csrr .t0 .mscratch, .sd .t0 240 .sp, .mv .a0 .sp]) := by decide

/-- The registers of the vector once it has moved `sp`. -/
def vectorRegs : Reg → BitVec 64 := Function.update h.x .sp (frameBase h)

theorem save_eq_blocks :
    runBlock trapVectorSave h =
      { h with
        x := Function.update (Function.update (vectorRegs h) .t0 (h.x .sp)) .a0 (frameBase h)
        csr := { h.csr with mscratch := h.x .sp }
        mem := storeD (storeAll h.mem (frameBase h) (frameBank.map fun e => (e.2, vectorRegs h e.1)))
          (frameBase h + BitVec.ofNat 64 240) (h.x .sp) } := by
  rw [trapVectorSave_eq, runBlock_append, runBlock_append, runBlock_sds]
  rfl

theorem frameBank_sp : ∀ e ∈ frameBank, e.1 ≠ .sp := by decide

theorem frameTable_bank : frameTable = frameBank ++ [(.sp, 240)] := by decide

/-- The vector stores the interrupted registers as a frame. -/
theorem save_mem : (runBlock trapVectorSave h).mem = (TrapFrame.ofRegs h.x).toMem h.mem (frameBase h) := by
  have bank : (frameBank.map fun e => (e.2, vectorRegs h e.1)) = frameBank.map fun e => (e.2, h.x e.1) := by
    apply List.map_congr_left
    intro e member
    rw [vectorRegs, Function.update_of_ne (frameBank_sp e member)]
  rw [save_eq_blocks, TrapFrame.toMem_eq, TrapFrame.reg_ofRegs, frameTable_bank, List.map_append, storeAll_append]
  simp only [bank]
  rfl

theorem save_a0 : (runBlock trapVectorSave h).x .a0 = frameBase h := by
  rw [save_eq_blocks]
  rfl

theorem save_sp : (runBlock trapVectorSave h).x .sp = frameBase h := by
  rw [save_eq_blocks]
  rfl

theorem save_csr : (runBlock trapVectorSave h).csr = { h.csr with mscratch := h.x .sp } := by
  rw [save_eq_blocks]

/-- The handler sees the interrupted registers. -/
theorem save_frame : TrapFrame.ofMem (runBlock trapVectorSave h).mem (frameBase h) = TrapFrame.ofRegs h.x := by
  apply TrapFrame.ofMem_eq
  intro e member
  rw [save_mem, TrapFrame.loadD_toMem _ _ _ member, TrapFrame.reg_ofRegs]

theorem trapVectorRestore_eq : trapVectorRestore = lds .sp frameTable := rfl

theorem frameTable_registers : frameTable.Pairwise fun d e => d.1 ≠ e.1 ∧ d.1 ≠ .sp := by decide

/-- The restore loads the whole frame at `sp` and changes nothing else. -/
theorem restore_eq {m : Mem} {f : TrapFrame} (frame : h.mem = f.toMem m (h.x .sp)) :
    runBlock trapVectorRestore h = { h with x := f.reg } := by
  rw [trapVectorRestore_eq]
  have regs : (runBlock (lds .sp frameTable) h).x = f.reg := by
    funext r
    have load := runBlock_lds_x (h := h) frameTable_registers (mem_frameTable r)
    simp only at load
    rw [load, frame, TrapFrame.loadD_toMem_reg]
  rw [← regs]
  exact runBlock_lds .sp frameTable h

end Vector

/-- The CSRs that the handler sees. -/
def Machine.trapCsrs (m : Machine) (cause tval : BitVec 64) : Csrs :=
  ⟨Status.trap m.hart.mode m.hart.csr.mstatus, m.hart.pc, cause, tval, m.hart.x .sp⟩

theorem trapState_eq (m : Machine) (cause tval : BitVec 64) :
    m.trapState cause tval = ⟨TrapFrame.ofRegs m.hart.x, m.trapCsrs cause tval, m.kernel⟩ := by
  have frame := save_frame (m.hart.trapEntry cause tval)
  rw [← save_a0] at frame
  simp only [Machine.trapState, Machine.entered, frame, save_csr]
  rfl

/-- The hart runs in the context `c`. -/
structure Resumed (h : Hart) (c : TaskContext) : Prop where
  x : h.x = c.frame.reg
  pc : h.pc = c.mepc
  mode : h.mode = Status.mretMode c.mstatus
  mstatus : h.csr.mstatus = Status.mret c.mstatus

/-- `mret` runs the context that the registers, `mepc` and `mstatus` hold. -/
theorem Resumed.of_mret {h : Hart} {c : TaskContext} (x : h.x = c.frame.reg) (mepc : h.csr.mepc = c.mepc)
    (mstatus : h.csr.mstatus = c.mstatus) : Resumed h.mret c := by
  constructor
  · exact x
  · exact mepc
  · rw [← mstatus]
    rfl
  · rw [← mstatus]
    rfl

/-- Restoring a frame and returning from the trap, whatever the caller-saved registers hold. -/
theorem return_resumed {h : Hart} (arg : h.x .sp = h.x .a0) (clobber : Reg → BitVec 64) (s : TrapState) :
    Resumed (runBlock trapVectorRestore { h with
      x := fun r => if callerSaved r then clobber r else h.x r
      csr := s.csr
      mem := s.frame.toMem h.mem (h.x .a0) }).mret (.of s.frame s.csr.mepc s.csr.mstatus) := by
  rw [restore_eq (m := h.mem) (f := s.frame)]
  · exact ⟨rfl, rfl, rfl, rfl⟩
  · simp only [← arg]
    rfl

/-- Returning from the handler resumes the context that it left in the frame and the CSRs. -/
theorem resume_resumed (m : Machine) (cause tval : BitVec 64) (clobber : Reg → BitVec 64) (s : TrapState) :
    Resumed (m.resume cause tval clobber s).hart (.of s.frame s.csr.mepc s.csr.mstatus) :=
  return_resumed ((save_sp _).trans (save_a0 _).symm) clobber s

@[simp] theorem resume_kernel (m : Machine) (cause tval : BitVec 64) (clobber : Reg → BitVec 64) (s : TrapState) :
    (m.resume cause tval clobber s).kernel = s.kernel := rfl

/-! ## The handler -/

/-- What the handler does about a trap. -/
inductive Response
  | resume | preempt | kill | panic
  deriving DecidableEq, Repr

/-- The response to an exception with code `n`. -/
def respondException (n : Nat) (mpp : BitVec 64) : Response :=
  match n with
  | 1 | 5 | 7 => if mpp = 0b00 then .kill else .panic
  | 3 | 8 | 9 | 11 => .resume
  | _ => .panic

/-- The response to the cause `mcause` of a trap from privilege `mpp`. -/
def respond (mcause mpp : BitVec 64) : Response :=
  if isInterrupt mcause then if causeCode mcause = 7 then .preempt else .resume
  else respondException (causeCode mcause).toNat mpp

def TrapState.response (s : TrapState) : Response := respond s.csr.mcause (readMpp s.csr)

/-- The registers that the interrupted task gets back: `SYS_GETC` replaces `a0`. -/
def TrapState.replyFrame (s : TrapState) : TrapFrame :=
  if isInterrupt s.csr.mcause = false ∧ (causeCode s.csr.mcause).toNat = 8 ∧ s.frame.a7 = sysGetc then
    { s.frame with a0 := ((Serial.tryGetc s.kernel.uart).1.getD 0xFF).setWidth 64 }
  else s.frame

/-- Where the interrupted task goes on: after an `ecall` or `ebreak`, else at the same instruction. -/
def TrapState.replyPc (s : TrapState) : BitVec 64 :=
  if isInterrupt s.csr.mcause = false ∧ (causeCode s.csr.mcause).toNat ∈ [3, 8, 9, 11] then s.csr.mepc + 4
  else s.csr.mepc

/-- The context in which the interrupted task is to go on. -/
def TrapState.reply (s : TrapState) : TaskContext := .of s.replyFrame s.replyPc s.csr.mstatus

/-- The handler returns to the interrupted task. -/
structure Stays (s r : TrapState) : Prop where
  frame : r.frame = s.replyFrame
  csr : r.csr = { s.csr with mepc := s.replyPc }
  sched : r.kernel.sched = s.kernel.sched
  pmp : r.kernel.pmp = s.kernel.pmp

/-- The handler's result for each response. -/
def Response.Result (s : TrapState) : Response → Outcome TrapState → Prop
  | .resume, o => ∃ r, o = .ok r ∧ Stays s r
  | .preempt, o => ∃ s' r, o = .ok r ∧ s.SameCore s' ∧ Switched s' r
  | .kill, o => ∃ s' r, o = .ok r ∧ s.killed.SameCore s' ∧ Switched s' r
  | .panic, o => ∃ msg, o = .error msg

theorem TrapState.SameCore.trans {s t u : TrapState} (first : s.SameCore t) (second : t.SameCore u) : s.SameCore u :=
  ⟨second.frame.trans first.frame, second.csr.trans first.csr, second.sched.trans first.sched,
    second.pmp.trans first.pmp⟩

theorem log_sameCore (s : TrapState) (msg : String) : s.SameCore (s.log msg) := ⟨rfl, rfl, rfl, rfl⟩

theorem timer_sameCore (s : TrapState) (timer : Timer) :
    s.SameCore { s with kernel := { s.kernel with timer := timer } } := ⟨rfl, rfl, rfl, rfl⟩

theorem handleTimer_ok (s : TrapState) : ∃ s' r, handleTimer s = .ok r ∧ s.SameCore s' ∧ Switched s' r := by
  unfold handleTimer
  simp only
  split
  · obtain ⟨r, run, switched⟩ := schedule_ok _
    refine ⟨_, r, run, ?_, switched⟩
    exact ((timer_sameCore s _).trans (log_sameCore _ _)).trans (timer_sameCore _ _)
  · obtain ⟨r, run, switched⟩ := schedule_ok _
    refine ⟨_, r, run, ?_, switched⟩
    exact (timer_sameCore s _).trans (timer_sameCore _ _)

/-- A user-mode access fault kills. -/
theorem handleAccessFault_user {s : TrapState} (user : readMpp s.csr = 0b00) (name : String) (mepc mtval : BitVec 64) :
    ∃ s' r, handleAccessFault name mepc mtval s = .ok r ∧ s.killed.SameCore s' ∧ Switched s' r := by
  simp only [handleAccessFault, user, if_true]
  generalize "[trap] U-mode access fault: " ++ name ++ " at mepc=" ++ Serial.fmtHex mepc ++ " addr=" ++
    Serial.fmtHex mtval = msg
  obtain ⟨s', r, run, same, switched⟩ := killCurrent_ok (s.log msg)
  exact ⟨s', r, run, ⟨same.frame, same.csr, same.sched, same.pmp⟩, switched⟩

theorem handleAccessFault_machine {s : TrapState} (machine : readMpp s.csr ≠ 0b00) (name : String)
    (mepc mtval : BitVec 64) : handleAccessFault name mepc mtval s = .error name := by
  simp only [handleAccessFault, if_neg machine, panicException]

/-- A system call changes `a0` at most. -/
structure Replies (s r : TrapState) : Prop where
  frame : r.frame = if s.frame.a7 = sysGetc then
      { s.frame with a0 := ((Serial.tryGetc s.kernel.uart).1.getD 0xFF).setWidth 64 }
    else s.frame
  csr : r.csr = s.csr
  sched : r.kernel.sched = s.kernel.sched
  pmp : r.kernel.pmp = s.kernel.pmp

theorem Replies.of_sameCore {s r : TrapState} (same : s.SameCore r) (other : s.frame.a7 ≠ sysGetc) : Replies s r :=
  ⟨by rw [if_neg other]; exact same.frame, same.csr, same.sched, same.pmp⟩

theorem handleSyscall_replies (s : TrapState) : Replies s (handleSyscall s) := by
  by_cases getc : s.frame.a7 = sysGetc
  · simp only [handleSyscall, if_pos getc]
    exact ⟨by rw [if_pos getc], rfl, rfl, rfl⟩
  · simp only [handleSyscall, if_neg getc]
    split
    · exact .of_sameCore ⟨rfl, rfl, rfl, rfl⟩ getc
    · split
      · exact .of_sameCore (log_sameCore s _) getc
      · exact .of_sameCore (log_sameCore s _) getc

section Exceptions

variable {s : TrapState}

theorem replyFrame_of_interrupt (interrupt : isInterrupt s.csr.mcause = true) : s.replyFrame = s.frame := by
  simp [TrapState.replyFrame, interrupt]

theorem replyPc_of_interrupt (interrupt : isInterrupt s.csr.mcause = true) : s.replyPc = s.csr.mepc := by
  simp [TrapState.replyPc, interrupt]

theorem replyFrame_of_code {n : Nat} (code : (causeCode s.csr.mcause).toNat = n) (other : n ≠ 8) :
    s.replyFrame = s.frame := by
  simp [TrapState.replyFrame, code, other]

/-- An exception that is stepped over without a reply. -/
theorem stays_advance {n : Nat} (exception : isInterrupt s.csr.mcause = false)
    (code : (causeCode s.csr.mcause).toNat = n) (member : n ∈ [3, 9, 11]) (msg : String) :
    Stays s (writeMepc (s.log msg) (s.csr.mepc + 4)) := by
  have other : n ≠ 8 := by
    rintro rfl
    simp at member
  have pc : s.replyPc = s.csr.mepc + 4 := by
    simp only [TrapState.replyPc, exception, code, true_and]
    rw [if_pos]
    revert member
    simp only [List.mem_cons, List.not_mem_nil, or_false]
    omega
  exact ⟨(replyFrame_of_code code other).symm, by rw [pc]; rfl, rfl, rfl⟩

theorem stays_syscall (exception : isInterrupt s.csr.mcause = false) (code : (causeCode s.csr.mcause).toNat = 8) :
    Stays s (writeMepc (handleSyscall s) (s.csr.mepc + 4)) := by
  obtain ⟨frame, csr, sched, pmp⟩ := handleSyscall_replies s
  have pc : s.replyPc = s.csr.mepc + 4 := by simp [TrapState.replyPc, exception, code]
  have reply : s.replyFrame = (handleSyscall s).frame := by
    rw [frame]
    simp only [TrapState.replyFrame, exception, code, true_and]
  refine ⟨reply.symm, ?_, sched, pmp⟩
  rw [pc, ← csr]
  rfl

theorem stays_interrupt (interrupt : isInterrupt s.csr.mcause = true) (msg : String) : Stays s (s.log msg) :=
  ⟨(replyFrame_of_interrupt interrupt).symm, by rw [replyPc_of_interrupt interrupt]; rfl, rfl, rfl⟩

theorem respond_exception {mcause mpp : BitVec 64} (exception : isInterrupt mcause = false) {n : Nat}
    (code : (causeCode mcause).toNat = n) : respond mcause mpp = respondException n mpp := by
  rw [respond, if_neg (by rw [exception]; exact Bool.false_ne_true), code]

theorem respondException_kill {n : Nat} {mpp : BitVec 64} :
    respondException n mpp = .kill ↔ n ∈ [1, 5, 7] ∧ mpp = 0b00 := by
  unfold respondException
  split
  case h_8 => simp_all
  all_goals simp

theorem respondException_panic {n : Nat} {mpp : BitVec 64} :
    respondException n mpp = .panic ↔ n ∉ [3, 8, 9, 11] ∧ (n ∈ [1, 5, 7] → mpp ≠ 0b00) := by
  unfold respondException
  split
  case h_8 => simp_all
  all_goals simp

theorem respondException_ne_preempt (n : Nat) (mpp : BitVec 64) : respondException n mpp ≠ .preempt := by
  unfold respondException
  split <;> (try split) <;> decide

theorem respond_interrupt {mcause mpp : BitVec 64} (interrupt : isInterrupt mcause = true) :
    respond mcause mpp = if causeCode mcause = 7 then .preempt else .resume := by
  simp only [respond, interrupt, if_true]

/-- The handler kills exactly on an access fault from user mode. -/
theorem respond_kill {mcause mpp : BitVec 64} :
    respond mcause mpp = .kill ↔ isInterrupt mcause = false ∧ (causeCode mcause).toNat ∈ [1, 5, 7] ∧ mpp = 0b00 := by
  cases kind : isInterrupt mcause with
  | true =>
    rw [respond_interrupt kind]
    split <;> simp
  | false =>
    rw [respond_exception kind rfl, respondException_kill]
    simp

/-- The handler panics on every other exception, and on access faults from machine mode. -/
theorem respond_panic {mcause mpp : BitVec 64} :
    respond mcause mpp = .panic ↔ isInterrupt mcause = false ∧ (causeCode mcause).toNat ∉ [3, 8, 9, 11] ∧
      ((causeCode mcause).toNat ∈ [1, 5, 7] → mpp ≠ 0b00) := by
  cases kind : isInterrupt mcause with
  | true =>
    rw [respond_interrupt kind]
    split <;> simp
  | false =>
    rw [respond_exception kind rfl, respondException_panic]
    simp

/-- The handler preempts exactly on a timer interrupt. -/
theorem respond_preempt {mcause mpp : BitVec 64} :
    respond mcause mpp = .preempt ↔ isInterrupt mcause = true ∧ causeCode mcause = 7 := by
  cases kind : isInterrupt mcause with
  | true =>
    rw [respond_interrupt kind]
    split <;> simp_all
  | false =>
    rw [respond_exception kind rfl]
    simp [respondException_ne_preempt]

theorem handleAccessFault_result (fault : s.response = if readMpp s.csr = 0b00 then .kill else .panic) (name : String)
    (mepc mtval : BitVec 64) : s.response.Result s (handleAccessFault name mepc mtval s) := by
  rw [fault]
  split
  · rename_i user
    exact handleAccessFault_user user name mepc mtval
  · rename_i machine
    exact ⟨name, handleAccessFault_machine machine name mepc mtval⟩

theorem handleException_result (exception : isInterrupt s.csr.mcause = false) :
    s.response.Result s (handleException (causeCode s.csr.mcause) s.csr.mepc s.csr.mtval s) := by
  have response {n : Nat} (code : (causeCode s.csr.mcause).toNat = n) :
      s.response = respondException n (readMpp s.csr) := respond_exception exception code
  unfold handleException
  split
  case h_1 code => rw [response code]; exact ⟨_, rfl⟩
  case h_2 code => exact handleAccessFault_result (response code) _ _ _
  case h_3 code => rw [response code]; exact ⟨_, rfl⟩
  case h_4 code => rw [response code]; exact ⟨_, rfl, stays_advance exception code (by decide) _⟩
  case h_5 code => rw [response code]; exact ⟨_, rfl⟩
  case h_6 code => exact handleAccessFault_result (response code) _ _ _
  case h_7 code => rw [response code]; exact ⟨_, rfl⟩
  case h_8 code => exact handleAccessFault_result (response code) _ _ _
  case h_9 code => rw [response code]; exact ⟨_, rfl, stays_syscall exception code⟩
  case h_10 code => rw [response code]; exact ⟨_, rfl, stays_advance exception code (by decide) _⟩
  case h_11 code => rw [response code]; exact ⟨_, rfl, stays_advance exception code (by decide) _⟩
  case h_12 code => rw [response code]; exact ⟨_, rfl⟩
  case h_13 code => rw [response code]; exact ⟨_, rfl⟩
  case h_14 code => rw [response code]; exact ⟨_, rfl⟩
  case h_15 n0 n1 n2 n3 n4 n5 n6 n7 n8 n9 n11 n12 n13 n15 =>
    have panic : respondException (causeCode s.csr.mcause).toNat (readMpp s.csr) = .panic := by
      unfold respondException
      split <;> first | rfl | contradiction
    rw [response rfl, panic]
    exact ⟨_, rfl⟩

theorem handleInterrupt_result (interrupt : isInterrupt s.csr.mcause = true) :
    s.response.Result s (handleInterrupt (causeCode s.csr.mcause) s) := by
  by_cases timer : causeCode s.csr.mcause = 7
  · have response : s.response = .preempt := by
      simp only [TrapState.response, respond, interrupt, timer, if_true]
    rw [response, handleInterrupt, if_pos timer]
    exact handleTimer_ok s
  · have response : s.response = .resume := by
      simp only [TrapState.response, respond, interrupt, if_true, if_neg timer]
    rw [response, handleInterrupt, if_neg timer]
    split
    · exact ⟨_, rfl, stays_interrupt interrupt _⟩
    · split
      · exact ⟨_, rfl, stays_interrupt interrupt _⟩
      · exact ⟨_, rfl, stays_interrupt interrupt _⟩

/-- **The handler.** Every trap is handled as `respond` says. -/
theorem trapHandler_result (s : TrapState) : s.response.Result s (trapHandler s) := by
  cases kind : isInterrupt s.csr.mcause with
  | true =>
    simp only [trapHandler, kind, if_true]
    exact handleInterrupt_result kind
  | false =>
    simp only [trapHandler, kind]
    exact handleException_result kind

end Exceptions

end Cyptos
