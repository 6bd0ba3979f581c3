import Cyptos.Riscv.Pmp
import Cyptos.Kernel.Serial

/-!
# The PMP driver (`pmp.rs`)

Functions act on the hart's PMP CSRs. Address registers are indexed by `Fin pmpCount`, so
the "Invalid PMP index" panic of `write_pmpaddr` cannot be built; every caller of the
source passes an index below `PMP_COUNT`.
-/

namespace Cyptos
set_option autoImplicit false
open Riscv Riscv.Pmp

/-! ## Flags and regions -/

namespace Flags

def R : BitVec 8 := 0b0000_0001 <<< 0
def W : BitVec 8 := 0b0000_0001 <<< 1
def X : BitVec 8 := 0b0000_0001 <<< 2
def aOff : BitVec 8 := 0b0000_0000 <<< 3
def aTor : BitVec 8 := 0b0000_0001 <<< 3
def aNapot : BitVec 8 := 0b0000_0011 <<< 3
def L : BitVec 8 := 0b0000_0001 <<< 7
def RW : BitVec 8 := R ||| W
def RX : BitVec 8 := R ||| X

end Flags

/-- PMP region descriptor. -/
structure PmpRegion where
  base : BitVec 64
  size : BitVec 64
  flags : BitVec 8
  deriving DecidableEq, Repr

/-- The descriptor of an unused entry. -/
def PmpRegion.none : PmpRegion := ⟨0, 0, 0⟩

/-- `u64::is_power_of_two`. -/
def isPowerOfTwo (n : BitVec 64) : Bool := (List.range 64).any fun k => n.toNat == 2 ^ k

/-- NAPOT address format of a region. -/
def PmpRegion.napotAddr (r : PmpRegion) : BitVec 64 := (r.base + (r.size / 2 - 1)) >>> 2

/-! ## CSR access -/

def writePmpcfg0 (p : Regs) (v : BitVec 64) : Regs := p.write (.cfg 0 v)
def writePmpcfg2 (p : Regs) (v : BitVec 64) : Regs := p.write (.cfg 1 v)
def readPmpcfg0 (p : Regs) : BitVec 64 := p.file.readCfg 0
def readPmpcfg2 (p : Regs) : BitVec 64 := p.file.readCfg 1
def writePmpaddr (p : Regs) (idx : Fin pmpCount) (v : BitVec 64) : Regs := p.write (.addr idx v)
def readPmpaddr (p : Regs) (idx : Fin pmpCount) : BitVec 64 := p.file.addr idx

/-! ## Loading a task's entries -/

/-- Loop state of `load_task_config`: the CSRs and the two configuration words being built. -/
structure LoadState where
  regs : Regs
  taskCfg0High : BitVec 64
  cfg2 : BitVec 64

/-- The region that `load_task_config` programs into entry `idx`. -/
def regionAt (regions : List PmpRegion) (idx : Fin pmpCount) : PmpRegion := regions[idx.val]?.getD .none

/-- One iteration of the entry loop. -/
def loadEntry (regions : List PmpRegion) (s : LoadState) (idx : Fin pmpCount) : LoadState :=
  let region := regionAt regions idx
  if region.size = 0 then { s with regs := writePmpaddr s.regs idx 0 }
  else
    let s := { s with regs := writePmpaddr s.regs idx region.napotAddr }
    let cfgByte := (region.flags ||| Flags.aNapot).setWidth 64
    let shift := (idx.val % 8) * 8
    if idx.val < 8 then { s with taskCfg0High := s.taskCfg0High ||| cfgByte <<< shift }
    else { s with cfg2 := s.cfg2 ||| cfgByte <<< shift }

/-- The entries 4 to 15 that belong to the running task. -/
def taskEntries : List (Fin pmpCount) := (List.finRange pmpCount).drop 4

/-- Program the task-switchable entries, leaving entries 0 to 3 as they are. -/
def loadTaskConfig (p : Regs) (regions : List PmpRegion) : Regs :=
  let kernelCfg0Bits := readPmpcfg0 p &&& 0x0000_0000_FFFF_FFFF
  let p := writePmpcfg0 p kernelCfg0Bits
  let p := writePmpcfg2 p 0
  let s := taskEntries.foldl (loadEntry regions) ⟨p, 0, 0⟩
  let p := writePmpcfg0 s.regs (kernelCfg0Bits ||| s.taskCfg0High)
  writePmpcfg2 p s.cfg2

/-- Read the current entries as region descriptors. The source does not decode the size and puts 8. -/
def saveCurrentConfig (p : Regs) (idx : Fin pmpCount) : PmpRegion :=
  let cfg0 := readPmpcfg0 p
  let cfg2 := readPmpcfg2 p
  let cfgVal :=
    if idx.val < 8 then ((cfg0 >>> ((idx.val % 8) * 8)) &&& 0xFF).setWidth 8
    else ((cfg2 >>> ((idx.val % 8) * 8)) &&& 0xFF).setWidth 8
  let addr := readPmpaddr p idx
  ⟨addr <<< 2, 8, cfgVal⟩

/-! ## Single entries -/

/-- Set the configuration byte of one entry. -/
def setPmpcfg (p : Regs) (idx : Fin pmpCount) (cfg : BitVec 8) : Regs :=
  let shift := (idx.val % 8) * 8
  let mask := ~~~((0xFF : BitVec 64) <<< shift)
  let val := cfg.setWidth 64 <<< shift
  if idx.val < 8 then writePmpcfg0 p ((readPmpcfg0 p &&& mask) ||| val)
  else writePmpcfg2 p ((readPmpcfg2 p &&& mask) ||| val)

/-- Configure one NAPOT entry; `false` when the index or the region is invalid. -/
def configureRegion (p : Regs) (u : Uart) (idx : Nat) (region : PmpRegion) : Bool × Regs × Uart :=
  if h : idx < pmpCount then
    if !isPowerOfTwo region.size || region.size < 8 then
      (false, p, Serial.puts u "[pmp] Invalid region size (must be power of 2 >= 8)\n")
    else if region.base &&& (region.size - 1) ≠ 0 then
      (false, p, Serial.puts u "[pmp] Base not aligned to size\n")
    else
      let p := writePmpaddr p ⟨idx, h⟩ region.napotAddr
      (true, setPmpcfg p ⟨idx, h⟩ (region.flags ||| Flags.aNapot), u)
  else (false, p, u)

def clearAll (p : Regs) : Regs :=
  let p := writePmpcfg0 p 0
  let p := writePmpcfg2 p 0
  (List.finRange pmpCount).foldl (fun p i => writePmpaddr p i 0) p

/-! ## The kernel's locked entries -/

/-- The linker symbols that the kernel map is built from. Besides their order and alignment the image has to end
below `2 ^ 56`, where physical addresses on RV64 and so the ranges of the address registers end. -/
structure Layout where
  stext : BitVec 64
  userTextEnd : BitVec 64
  eheap : BitVec 64
  text_lt : stext.toNat < userTextEnd.toNat
  data_lt : userTextEnd.toNat < eheap.toNat
  stext_aligned : stext.toNat % 4096 = 0
  userTextEnd_aligned : userTextEnd.toNat % 4096 = 0
  eheap_aligned : eheap.toNat % 4096 = 0
  uart_outside : uartBase.toNat + 0x1000 ≤ stext.toNat ∨ eheap.toNat ≤ uartBase.toNat
  physical : eheap.toNat < 2 ^ 56

/-- The symbols alone, wherever the linker put them. -/
structure Symbols where
  stext : BitVec 64
  userTextEnd : BitVec 64
  eheap : BitVec 64

def Layout.symbols (l : Layout) : Symbols := ⟨l.stext, l.userTextEnd, l.eheap⟩

/-- The four regions of `init`: an anchor, execute-only text, read-write data and the UART. -/
def Symbols.kernelEntryRegions (l : Symbols) : List PmpRegion :=
  [⟨l.stext, 0, Flags.aOff⟩,
   ⟨l.userTextEnd, 0, Flags.X ||| Flags.L ||| Flags.aTor⟩,
   ⟨l.eheap, 0, Flags.RW ||| Flags.L ||| Flags.aTor⟩,
   ⟨0x1000_0000, 0x0000_1000, Flags.RW ||| Flags.L⟩]

def kernelEntryRegions (l : Layout) : List PmpRegion := l.symbols.kernelEntryRegions

/-- One iteration of the loop of `init`. -/
def initEntry (s : Regs × Uart) (i : Fin pmpCount) (region : PmpRegion) : Regs × Uart :=
  let (p, u) := s
  let addrMode := region.flags &&& 0b0001_1000
  if addrMode = Flags.aTor then (setPmpcfg (writePmpaddr p i (region.base >>> 2)) i region.flags, u)
  else if region.size > 0 then (configureRegion p u i region).2
  else if addrMode = Flags.aOff ∧ region.base > 0 then (writePmpaddr p i (region.base >>> 2), u)
  else (p, u)

/-- Install and lock the kernel entries. -/
def Symbols.pmpInit (l : Symbols) (p : Regs) (u : Uart) : Regs × Uart :=
  let regions := l.kernelEntryRegions.zip (List.finRange pmpCount)
  let (p, u) := regions.foldl (fun s e => initEntry s e.2 e.1) (clearAll p, u)
  (p, Serial.puts u "[pmp] Kernel entries locked\n")

def pmpInit (l : Layout) (p : Regs) (u : Uart) : Regs × Uart := l.symbols.pmpInit p u

/-- Print the configuration CSRs. -/
def dumpConfig (p : Regs) (u : Uart) : Outcome Uart := do
  let u := Serial.puts u "[pmp] Configuration:\n"
  let u := Serial.puts u "  pmpcfg0: "
  let u ← Serial.putHex u (readPmpcfg0 p)
  let u := Serial.puts u "\n  pmpcfg2: "
  let u ← Serial.putHex u (readPmpcfg2 p)
  return Serial.puts u "\n"

/-! ## The driver's interface -/

/-- A call that changes the CSRs. -/
inductive DriverCall
  | loadTaskConfig (regions : List PmpRegion)
  | configureRegion (idx : Nat) (region : PmpRegion)
  | clearAll

def DriverCall.run (s : Regs × Uart) : DriverCall → Regs × Uart
  | .loadTaskConfig regions => (Cyptos.loadTaskConfig s.1 regions, s.2)
  | .configureRegion idx region => (Cyptos.configureRegion s.1 s.2 idx region).2
  | .clearAll => (Cyptos.clearAll s.1, s.2)

end Cyptos
