import Cyptos.Kernel.Serial
import Cyptos.Sim.Driver

/-!
# The UART at its registers (`serial/uart16550.rs`, `serial.rs`)

The NS16550A as the driver finds it behind its registers, and the driver's functions as the register
accesses they make. Between any two accesses the device may send a byte from its transmitter or take
one from the line. Offsets 0 and 1 are the baud rate divisor while `DLAB` is set.
-/

namespace Cyptos
set_option autoImplicit false
open Sim

/-- The state of the UART. The last four fields are an account of what has become of the bytes. -/
structure Ns16550 where
  ier : BitVec 8
  lcr : BitVec 8
  dll : BitVec 8
  dlm : BitVec 8
  fifos : Bool
  /-- What waits in the transmitter. -/
  tx : List (BitVec 8)
  /-- What waits in the receiver. -/
  rx : List (BitVec 8)
  /-- What has gone out on the line. -/
  line : List (BitVec 8)
  /-- What the receiver has taken from the line. -/
  received : List (BitVec 8)
  /-- What was written to a full transmitter. -/
  dropped : List (BitVec 8)
  /-- What was lost at a full receiver. -/
  overrun : List (BitVec 8)

namespace Ns16550

def dlab (d : Ns16550) : Bool := d.lcr.getLsbD 7

def capacity (d : Ns16550) : Nat := if d.fifos then 16 else 1

/-- The line status, in the two bits that the driver looks at. -/
def status (d : Ns16550) : BitVec 8 := (if d.rx = [] then 0 else 0x01) ||| (if d.tx = [] then 0x20 else 0)

def read (d : Ns16550) : Nat → BitVec 8 × Ns16550
  | 0 =>
    if d.dlab then (d.dll, d)
    else match d.rx with
      | [] => (0, d)
      | c :: rest => (c, { d with rx := rest })
  | 1 => (if d.dlab then d.dlm else d.ier, d)
  | 3 => (d.lcr, d)
  | 5 => (d.status, d)
  | _ => (0, d)

/-- The FIFO control register: bit 0 enables the FIFOs, and a change of it empties them; with it bits 1 and
2 empty the receiver and the transmitter. -/
def writeFcr (d : Ns16550) (b : BitVec 8) : Ns16550 :=
  let fifos := b.getLsbD 0
  { d with
    fifos
    rx := if fifos ≠ d.fifos ∨ (fifos && b.getLsbD 1) = true then [] else d.rx
    tx := if fifos ≠ d.fifos ∨ (fifos && b.getLsbD 2) = true then [] else d.tx }

def write (d : Ns16550) : Nat → BitVec 8 → Ns16550
  | 0, b =>
    if d.dlab then { d with dll := b }
    else if d.tx.length < d.capacity then { d with tx := d.tx ++ [b] }
    else { d with dropped := d.dropped ++ [b] }
  | 1, b => if d.dlab then { d with dlm := b } else { d with ier := b &&& 0x0F }
  | 2, b => d.writeFcr b
  | 3, b => { d with lcr := b }
  | _, _ => d

/-- A byte comes in. A full FIFO keeps what it has; without the FIFOs the new byte replaces the old one. -/
def receive (d : Ns16550) (c : BitVec 8) : Ns16550 :=
  if d.rx.length < d.capacity then { d with rx := d.rx ++ [c], received := d.received ++ [c] }
  else if d.fifos then { d with overrun := d.overrun ++ [c] }
  else { d with rx := [c], received := d.received ++ [c], overrun := d.overrun ++ d.rx }

/-- What the device does on its own. -/
inductive Moves (d : Ns16550) : Ns16550 → Prop
  | send {c : BitVec 8} {rest : List (BitVec 8)} (waiting : d.tx = c :: rest) :
      Moves d { d with tx := rest, line := d.line ++ [c] }
  | receive (c : BitVec 8) : Moves d (d.receive c)

end Ns16550

def ns16550 : Device Ns16550 Nat (BitVec 8) := ⟨Ns16550.read, Ns16550.write, Ns16550.Moves⟩

/-- Code that accesses the UART. -/
abbrev Access := Driver Nat (BitVec 8)

namespace Uart16550

/-! ## Registers -/

def thr : Nat := 0x00
def rbr : Nat := 0x00
def ier : Nat := 0x01
def fcr : Nat := 0x02
def lcr : Nat := 0x03
def lsr : Nat := 0x05

def lsrTxEmpty : BitVec 8 := 0b0000_0001 <<< 5
def lsrRxReady : BitVec 8 := 0b0000_0001 <<< 0
def lcr8bit : BitVec 8 := 0b0000_0011
def lcrDlab : BitVec 8 := 0b0000_0001 <<< 7

def readVolatile (offset : Nat) : Access (BitVec 8) := .read offset .done

def writeVolatile (offset : Nat) (b : BitVec 8) : Access Unit := .write offset b (.done ())

/-- `while (read_volatile(offset) & mask) == 0 {}`. -/
def spin (offset : Nat) (mask : BitVec 8) : Access Unit := .poll offset (fun s => decide (s &&& mask ≠ 0)) (.done ())

/-! ## The driver -/

def init : Access Unit := do
  writeVolatile ier 0x00
  writeVolatile lcr lcrDlab
  writeVolatile 0 0x01
  writeVolatile 1 0x00
  writeVolatile lcr lcr8bit
  writeVolatile fcr 0x07

def putc (c : BitVec 8) : Access Unit := do
  spin lsr lsrTxEmpty
  writeVolatile thr c

/-- The loop of `puts`. -/
def putBytes : List (BitVec 8) → Access Unit
  | [] => pure ()
  | c :: rest => do
    if c = 10 then putc 13
    putc c
    putBytes rest

def puts (s : String) : Access Unit := putBytes (Serial.bytes s)

/-- The second loop of `put_dec` and `put_hex`. -/
def emitDigits (buf : List (BitVec 8)) : Nat → Access (Outcome Unit)
  | 0 => pure (.ok ())
  | idx + 1 =>
    match buf[idx]? with
    | some c => do
      putc c
      emitDigits buf idx
    | none => pure (.error s!"index out of bounds: the len is {buf.length} but the index is {idx}")

/-- A number, digit by digit, through a buffer of `len` bytes. -/
def putDigits (len : Nat) (digit : BitVec 64 → BitVec 8) (rest : BitVec 64 → BitVec 64) (n : BitVec 64) :
    Access (Outcome Unit) :=
  if n = 0 then do
    putc 48
    return .ok ()
  else
    match Serial.fillDigits digit rest len (List.replicate len 0) 0 n with
    | .ok (buf, idx) => emitDigits buf idx
    | .error e => pure (.error e)

def putDec (n : BitVec 64) : Access (Outcome Unit) := putDigits 20 Serial.decDigit (fun n => n / 10) n

def putHex (n : BitVec 64) : Access (Outcome Unit) := do
  puts "0x"
  putDigits 16 Serial.hexDigit (fun n => n >>> 4) n

def getc : Access (BitVec 8) := do
  spin lsr lsrRxReady
  readVolatile rbr

def tryGetc : Access (Option (BitVec 8)) := do
  let s ← readVolatile lsr
  if s &&& lsrRxReady ≠ 0 then
    let c ← readVolatile rbr
    return some c
  else return none

/-- `write_fmt` with the pieces that the formatter hands to `write_str`. -/
def writeFmt : List String → Access Unit
  | [] => pure ()
  | s :: pieces => do
    puts s
    writeFmt pieces

/-! ## Calls -/

/-- A call of the driver. -/
inductive Call
  | putc (c : BitVec 8)
  | puts (s : String)
  | putDec (n : BitVec 64)
  | putHex (n : BitVec 64)
  | writeFmt (pieces : List String)
  | tryGetc
  | getc

/-- Make a call; the result has the bytes that it has read, or the message of a panic. -/
def Call.run : Call → Access (Outcome (List (BitVec 8)))
  | .putc c => do
    Uart16550.putc c
    return .ok []
  | .puts s => do
    Uart16550.puts s
    return .ok []
  | .putDec n => do
    let result ← Uart16550.putDec n
    return result.map fun _ => []
  | .putHex n => do
    let result ← Uart16550.putHex n
    return result.map fun _ => []
  | .writeFmt pieces => do
    Uart16550.writeFmt pieces
    return .ok []
  | .tryGetc => do
    let c ← Uart16550.tryGetc
    return .ok c.toList
  | .getc => do
    let c ← Uart16550.getc
    return .ok [c]

/-- Make calls one after the other, up to a panic. -/
def session : List Call → Access (Outcome (List (BitVec 8)))
  | [] => pure (.ok [])
  | call :: calls => do
    match ← call.run with
    | .error e => return .error e
    | .ok got =>
      let later ← session calls
      return later.map fun bytes => got ++ bytes

end Uart16550

end Cyptos
