import Cyptos.Kernel.Scheduler

/-!
# Trap handling (`trap.rs`)

The trap vector as machine code around the Rust handler. The handler sees the frame that
the vector saved below the interrupted stack pointer, as memory at the address in `a0`; on
return the caller-saved registers hold whatever the handler left there. Arithmetic on
`mepc` wraps, as in the release profile that the kernel runs under.
-/

namespace Cyptos
set_option autoImplicit false
open Riscv

/-! ## The vector -/

/-- `trap_vector` up to the call of the handler. -/
def trapVectorSave : List Instr :=
  [.csrw .mscratch .sp,
   .addi .sp .sp (-256),
   .sd .ra 0 .sp, .sd .t0 8 .sp, .sd .t1 16 .sp, .sd .t2 24 .sp,
   .sd .t3 32 .sp, .sd .t4 40 .sp, .sd .t5 48 .sp, .sd .t6 56 .sp,
   .sd .a0 64 .sp, .sd .a1 72 .sp, .sd .a2 80 .sp, .sd .a3 88 .sp,
   .sd .a4 96 .sp, .sd .a5 104 .sp, .sd .a6 112 .sp, .sd .a7 120 .sp,
   .sd .s0 128 .sp, .sd .s1 136 .sp, .sd .s2 144 .sp, .sd .s3 152 .sp,
   .sd .s4 160 .sp, .sd .s5 168 .sp, .sd .s6 176 .sp, .sd .s7 184 .sp,
   .sd .s8 192 .sp, .sd .s9 200 .sp, .sd .s10 208 .sp, .sd .s11 216 .sp,
   .sd .gp 224 .sp, .sd .tp 232 .sp,
   .csrr .t0 .mscratch, .sd .t0 240 .sp,
   .mv .a0 .sp]

/-- `trap_vector` from the return of the handler up to `mret`. -/
def trapVectorRestore : List Instr :=
  [.ld .ra 0 .sp, .ld .t0 8 .sp, .ld .t1 16 .sp, .ld .t2 24 .sp,
   .ld .t3 32 .sp, .ld .t4 40 .sp, .ld .t5 48 .sp, .ld .t6 56 .sp,
   .ld .a0 64 .sp, .ld .a1 72 .sp, .ld .a2 80 .sp, .ld .a3 88 .sp,
   .ld .a4 96 .sp, .ld .a5 104 .sp, .ld .a6 112 .sp, .ld .a7 120 .sp,
   .ld .s0 128 .sp, .ld .s1 136 .sp, .ld .s2 144 .sp, .ld .s3 152 .sp,
   .ld .s4 160 .sp, .ld .s5 168 .sp, .ld .s6 176 .sp, .ld .s7 184 .sp,
   .ld .s8 192 .sp, .ld .s9 200 .sp, .ld .s10 208 .sp, .ld .s11 216 .sp,
   .ld .gp 224 .sp, .ld .tp 232 .sp,
   .ld .sp 240 .sp]

/-- `do_context_switch_asm` up to `mret`: save all registers to the old context at `a0`, then load the new one
at `a1`. -/
def doContextSwitchAsm : List Instr :=
  [.sd .ra 0 .a0, .sd .t0 8 .a0, .sd .t1 16 .a0, .sd .t2 24 .a0,
   .sd .t3 32 .a0, .sd .t4 40 .a0, .sd .t5 48 .a0, .sd .t6 56 .a0,
   .sd .a0 64 .a0, .sd .a1 72 .a0, .sd .a2 80 .a0, .sd .a3 88 .a0,
   .sd .a4 96 .a0, .sd .a5 104 .a0, .sd .a6 112 .a0, .sd .a7 120 .a0,
   .sd .s0 128 .a0, .sd .s1 136 .a0, .sd .s2 144 .a0, .sd .s3 152 .a0,
   .sd .s4 160 .a0, .sd .s5 168 .a0, .sd .s6 176 .a0, .sd .s7 184 .a0,
   .sd .s8 192 .a0, .sd .s9 200 .a0, .sd .s10 208 .a0, .sd .s11 216 .a0,
   .sd .gp 224 .a0, .sd .tp 232 .a0, .sd .sp 240 .a0,
   -- the CSRs of the new context, through `t0`
   .ld .t0 248 .a1, .csrw .mepc .t0,
   .ld .t0 256 .a1, .csrw .mstatus .t0,
   -- its registers, the base register last
   .ld .ra 0 .a1, .ld .t0 8 .a1, .ld .t1 16 .a1, .ld .t2 24 .a1,
   .ld .t3 32 .a1, .ld .t4 40 .a1, .ld .t5 48 .a1, .ld .t6 56 .a1,
   .ld .a0 64 .a1, .ld .a2 80 .a1, .ld .a3 88 .a1,
   .ld .a4 96 .a1, .ld .a5 104 .a1, .ld .a6 112 .a1, .ld .a7 120 .a1,
   .ld .s0 128 .a1, .ld .s1 136 .a1, .ld .s2 144 .a1, .ld .s3 152 .a1,
   .ld .s4 160 .a1, .ld .s5 168 .a1, .ld .s6 176 .a1, .ld .s7 184 .a1,
   .ld .s8 192 .a1, .ld .s9 200 .a1, .ld .s10 208 .a1, .ld .s11 216 .a1,
   .ld .gp 224 .a1, .ld .tp 232 .a1, .ld .sp 240 .a1,
   .ld .a1 72 .a1]

/-- `context_switch` from the CSR reads on: `mepc` and `mstatus` go to the old context, and the rest is the
assembly. The registers are those at the call of the assembly. -/
def contextSwitch (h : Hart) : Hart :=
  let mem := storeD h.mem (h.x .a0 + BitVec.ofNat 64 248) h.csr.mepc
  let mem := storeD mem (h.x .a0 + BitVec.ofNat 64 256) h.csr.mstatus
  (runBlock doContextSwitchAsm { h with mem }).mret

/-- Registers that a C function may change. -/
def callerSaved : Reg → Bool
  | .ra | .t0 | .t1 | .t2 | .t3 | .t4 | .t5 | .t6 => true
  | .a0 | .a1 | .a2 | .a3 | .a4 | .a5 | .a6 | .a7 => true
  | _ => false

/-! ## Handlers -/

/-- `mstatus::read_mpp`. -/
def readMpp (csr : Csrs) : BitVec 64 := (csr.mstatus >>> 11) &&& 0b11

def writeMepc (s : TrapState) (v : BitVec 64) : TrapState := { s with csr := { s.csr with mepc := v } }

def TrapState.log (s : TrapState) (msg : String) : TrapState :=
  { s with kernel := { s.kernel with uart := Serial.println s.kernel.uart msg } }

/-- Print exception info and panic. A panic ends the run, and with it what it prints is dropped. -/
def panicException (name : String) : Outcome TrapState := .error name

/-- Access faults kill a user-mode task and are fatal in machine mode. -/
def handleAccessFault (name : String) (mepc mtval : BitVec 64) (s : TrapState) : Outcome TrapState :=
  let mpp := readMpp s.csr
  if mpp = 0b00 then
    killCurrent (s.log ("[trap] U-mode access fault: " ++ name ++ " at mepc=" ++ Serial.fmtHex mepc ++
      " addr=" ++ Serial.fmtHex mtval))
  else panicException name

/-- Dispatch a system call on `a7`. -/
def handleSyscall (s : TrapState) : TrapState :=
  if s.frame.a7 = sysGetc then
    let (byte, uart) := Serial.tryGetc s.kernel.uart
    { s with frame := { s.frame with a0 := (byte.getD 0xFF).setWidth 64 }, kernel := { s.kernel with uart } }
  else if s.frame.a7 = sysPutc then
    { s with kernel := { s.kernel with uart := Serial.putc s.kernel.uart (s.frame.a0.setWidth 8) } }
  else if s.frame.a7 = sysLegacyPoc then s.log "[trap] U-mode POC ecall (legacy)"
  else s.log ("[syscall] unknown: " ++ Serial.fmtDec s.frame.a7)

/-- The timer arm of `handle_interrupt`. -/
def handleTimer (s : TrapState) : Outcome TrapState :=
  let timer := s.kernel.timer.incrementTick
  let ticks := timer.tickCount
  let s := { s with kernel := { s.kernel with timer } }
  let s := if ticks.toNat % 100 = 0 then s.log ("[timer] tick " ++ Serial.fmtDec ticks) else s
  schedule { s with kernel := { s.kernel with timer := s.kernel.timer.scheduleNextTick } }

def handleInterrupt (cause : BitVec 64) (s : TrapState) : Outcome TrapState :=
  if cause = 7 then handleTimer s
  else if cause = 11 then .ok (s.log "[trap] External interrupt")
  else if cause = 3 then .ok (s.log "[trap] Software interrupt")
  else .ok (s.log ("[trap] Unknown interrupt: " ++ Serial.fmtDec cause))

def handleException (cause mepc mtval : BitVec 64) (s : TrapState) : Outcome TrapState :=
  match cause.toNat with
  | 0 => panicException "Instruction address misaligned"
  | 1 => handleAccessFault "Instruction access fault" mepc mtval s
  | 2 => panicException "Illegal instruction"
  | 3 => .ok (writeMepc (s.log ("[trap] Breakpoint at " ++ Serial.fmtHex mepc)) (mepc + 4))
  | 4 => panicException "Load address misaligned"
  | 5 => handleAccessFault "Load access fault" mepc mtval s
  | 6 => panicException "Store address misaligned"
  | 7 => handleAccessFault "Store access fault" mepc mtval s
  | 8 => .ok (writeMepc (handleSyscall s) (mepc + 4))
  | 9 => .ok (writeMepc (s.log "[trap] Ecall from S-mode") (mepc + 4))
  | 11 => .ok (writeMepc (s.log "[trap] Ecall from M-mode") (mepc + 4))
  | 12 => panicException "Instruction page fault"
  | 13 => panicException "Load page fault"
  | 15 => panicException "Store page fault"
  | _ => .error "Unhandled exception"

/-- The interrupt bit of `mcause`. -/
def isInterrupt (mcause : BitVec 64) : Bool := (mcause >>> 63) &&& 1 == 1

/-- The cause code of `mcause`. -/
def causeCode (mcause : BitVec 64) : BitVec 64 := mcause &&& 0x7FFF_FFFF_FFFF_FFFF

/-- Main trap handler called from the vector. -/
def trapHandler (s : TrapState) : Outcome TrapState :=
  let mcause := s.csr.mcause
  let mepc := s.csr.mepc
  let mtval := s.csr.mtval
  if isInterrupt mcause then handleInterrupt (causeCode mcause) s
  else handleException (causeCode mcause) mepc mtval s

/-! ## A trap from entry to return -/

/-- The hart and the kernel. -/
structure Machine where
  hart : Hart
  kernel : Kernel

/-- The hart as the handler is called: the trap is taken and the registers are saved. -/
def Machine.entered (m : Machine) (cause tval : BitVec 64) : Hart :=
  runBlock trapVectorSave (m.hart.trapEntry cause tval)

/-- What the handler receives. -/
def Machine.trapState (m : Machine) (cause tval : BitVec 64) : TrapState :=
  let h := m.entered cause tval
  ⟨TrapFrame.ofMem h.mem (h.x .a0), h.csr, m.kernel⟩

/-- Return from the handler with state `s` and registers `clobber`, restore and `mret`. -/
def Machine.resume (m : Machine) (cause tval : BitVec 64) (clobber : Reg → BitVec 64) (s : TrapState) : Machine :=
  let h := m.entered cause tval
  let h := { h with
    x := fun r => if callerSaved r then clobber r else h.x r
    csr := s.csr
    mem := s.frame.toMem h.mem (h.x .a0) }
  ⟨(runBlock trapVectorRestore h).mret, s.kernel⟩

/-- A whole trap: hardware entry, `trap_vector` around `trap_handler`, and `mret`. -/
def Machine.trap (m : Machine) (cause tval : BitVec 64) (clobber : Reg → BitVec 64) : Outcome Machine := do
  return m.resume cause tval clobber (← trapHandler (m.trapState cause tval))

end Cyptos
