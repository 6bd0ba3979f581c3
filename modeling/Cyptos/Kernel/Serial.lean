import Cyptos.Kernel.Config

/-!
# The serial console (`serial/uart16550.rs`, `print.rs`)

The NS16550A as two byte streams: what was written to the transmitter, oldest first, and
what has been received and not yet read. The driver spins until the transmitter is ready;
the device is taken to become ready.
-/

namespace Cyptos
set_option autoImplicit false

structure Uart where
  tx : List (BitVec 8)
  rx : List (BitVec 8)

namespace Serial

def putc (u : Uart) (c : BitVec 8) : Uart := { u with tx := u.tx ++ [c] }

/-- The UTF-8 bytes of a string. -/
def bytes (s : String) : List (BitVec 8) := s.toUTF8.data.toList.map UInt8.toBitVec

/-- Write a string, translating `\n` to `\r\n`. -/
def puts (u : Uart) (s : String) : Uart :=
  (bytes s).foldl (fun u c => putc (if c = 10 then putc u 13 else u) c) u

/-- `println!` with its arguments already formatted. -/
def println (u : Uart) (s : String) : Uart := puts u (s ++ "\n")

/-- The first loop of `put_dec` and `put_hex`: it fills the buffer, starting with the last digit. `room` is what is
left of the buffer from `idx` on; a store behind it panics. -/
def fillDigits (digit : BitVec 64 → BitVec 8) (rest : BitVec 64 → BitVec 64) :
    Nat → List (BitVec 8) → Nat → BitVec 64 → Outcome (List (BitVec 8) × Nat)
  | room, buf, idx, n =>
    if n = 0 then .ok (buf, idx)
    else match room with
      | 0 => .error s!"index out of bounds: the len is {buf.length} but the index is {idx}"
      | room + 1 => fillDigits digit rest room (buf.set idx (digit n)) (idx + 1) (rest n)

/-- The second loop: it writes the buffer out backwards. -/
def emitDigits (u : Uart) (buf : List (BitVec 8)) : Nat → Outcome Uart
  | 0 => .ok u
  | idx + 1 =>
    match buf[idx]? with
    | some c => emitDigits (putc u c) buf idx
    | none => .error s!"index out of bounds: the len is {buf.length} but the index is {idx}"

/-- A number, digit by digit, through a buffer of `len` bytes. -/
def putDigits (len : Nat) (digit : BitVec 64 → BitVec 8) (rest : BitVec 64 → BitVec 64) (u : Uart) (n : BitVec 64) :
    Outcome Uart :=
  if n = 0 then .ok (putc u 48)
  else do
    let (buf, idx) ← fillDigits digit rest len (List.replicate len 0) 0 n
    emitDigits u buf idx

def decDigit (n : BitVec 64) : BitVec 8 := 48 + (n % 10).setWidth 8

def hexDigit (n : BitVec 64) : BitVec 8 :=
  let d := (n &&& 0xF).setWidth 8
  if d < 10 then 48 + d else 97 + d - 10

/-- Write a decimal integer. -/
def putDec (u : Uart) (n : BitVec 64) : Outcome Uart := putDigits 20 decDigit (fun n => n / 10) u n

/-- Write a hex integer, prefixed with `0x`. -/
def putHex (u : Uart) (n : BitVec 64) : Outcome Uart := putDigits 16 hexDigit (fun n => n >>> 4) (puts u "0x") n

/-- Non-blocking byte read. -/
def tryGetc (u : Uart) : Option (BitVec 8) × Uart :=
  match u.rx with
  | [] => (none, u)
  | c :: rest => (some c, { u with rx := rest })

/-- The text of `{:#x}` for a machine word. -/
def fmtHex (n : BitVec 64) : String := "0x" ++ String.ofList (Nat.toDigits 16 n.toNat)

/-- The text of `{}` for a machine word. -/
def fmtDec (n : BitVec 64) : String := toString n.toNat

/-- Task indices print in one digit. -/
theorem putDec_task (u : Uart) (i : Fin maxTasks) :
    putDec u (BitVec.ofNat 64 i) = .ok (putc u (48 + BitVec.ofNat 8 i)) := by
  fin_cases i <;> rfl

end Serial

end Cyptos
