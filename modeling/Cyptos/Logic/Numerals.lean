import Mathlib.Data.Nat.Digits.Lemmas
import Cyptos.Kernel.Serial

/-!
# Printed texts and numbers

`puts` sends a carriage return before every newline. `put_dec` and `put_hex` take a number apart from its last
digit on, into a buffer, and write the buffer out backwards. Both loops are instances of one loop over a base;
its digits are `Nat.digits`, so what is written is the numeral without leading zeros, and 64 bits have at most
20 decimal and 16 hexadecimal digits.
-/

namespace Cyptos
set_option autoImplicit false

/-! ## Texts -/

/-- A text as `puts` sends it. -/
def crlf (text : List (BitVec 8)) : List (BitVec 8) := text.flatMap fun c => if c = 10 then [13, 10] else [c]

theorem crlf_append (first second : List (BitVec 8)) : crlf (first ++ second) = crlf first ++ crlf second :=
  List.flatMap_append

theorem puts_crlf (u : Uart) (s : String) : Serial.puts u s = { u with tx := u.tx ++ crlf (Serial.bytes s) } := by
  unfold Serial.puts
  induction Serial.bytes s generalizing u with
  | nil => simp [crlf]
  | cons c text ih =>
    rw [List.foldl_cons, ih]
    have cons : crlf (c :: text) = (if c = 10 then [13, 10] else [c]) ++ crlf text := List.flatMap_cons
    rw [cons]
    split
    · rename_i newline
      simp [Serial.putc, newline]
    · simp [Serial.putc]

namespace Serial

/-! ## Numerals -/

/-- The character of a digit. -/
def digitByte (d : Nat) : BitVec 8 := if d < 10 then BitVec.ofNat 8 (48 + d) else BitVec.ofNat 8 (97 + (d - 10))

/-- The digit of a character in base `b`; letters are lower case. -/
def byteDigit (b : Nat) (c : BitVec 8) : Option Nat :=
  if 48 ≤ c.toNat ∧ c.toNat < 58 ∧ c.toNat - 48 < b then some (c.toNat - 48)
  else if 97 ≤ c.toNat ∧ c.toNat < 103 ∧ c.toNat - 87 < b then some (c.toNat - 87)
  else none

/-- The number that a text denotes in base `b`, most significant digit first. -/
def readNumeral (b : Nat) (text : List (BitVec 8)) : Option Nat :=
  text.foldlM (fun v c => (byteDigit b c).map fun d => d + b * v) 0

/-- The text of `n` in base `b`. -/
def numeral (b n : Nat) : List (BitVec 8) := if n = 0 then [48] else ((b.digits n).map digitByte).reverse

/-- `text` is the numeral of `n`: it has digits, they denote `n`, and a leading zero is the only digit. -/
structure Canonical (b n : Nat) (text : List (BitVec 8)) : Prop where
  digits : text ≠ []
  leading : text.head? = some 48 → text = [48]
  reads : readNumeral b text = some n

section Numeral

variable {b : Nat} (base : 1 < b) (letters : b ≤ 16)

theorem toNat_digitByte {d : Nat} (small : d < 16) : (digitByte d).toNat = if d < 10 then 48 + d else 87 + d := by
  rw [digitByte]
  split
  · rw [BitVec.toNat_ofNat, Nat.mod_eq_of_lt (by omega)]
  · rw [BitVec.toNat_ofNat, Nat.mod_eq_of_lt (by omega)]
    omega

include letters in
theorem byteDigit_digitByte {d : Nat} (small : d < b) : byteDigit b (digitByte d) = some d := by
  rw [byteDigit, toNat_digitByte (by omega)]
  split
  · rw [if_pos (by omega)]
    congr 1
    omega
  · rw [if_neg (by omega), if_pos (by omega)]
    congr 1
    omega

include letters in
/-- Reading back digits that were written last digit first. -/
theorem readNumeral_digits {ds : List Nat} (small : ∀ d ∈ ds, d < b) :
    readNumeral b (ds.map digitByte).reverse = some (Nat.ofDigits b ds) := by
  induction ds with
  | nil => rfl
  | cons d ds ih =>
    have rest := ih fun e member => small e (List.mem_cons_of_mem d member)
    rw [readNumeral] at rest ⊢
    rw [List.map_cons, List.reverse_cons, List.foldlM_append, rest, Nat.ofDigits_cons]
    have last := byteDigit_digitByte letters (small d List.mem_cons_self)
    simp [last]

include base letters in
theorem numeral_canonical (n : Nat) : Canonical b n (numeral b n) := by
  by_cases zero : n = 0
  · subst zero
    refine ⟨by simp [numeral], fun _ => by simp [numeral], ?_⟩
    have digit : byteDigit b 48#8 = some 0 := byteDigit_digitByte letters (d := 0) (by omega)
    simp [numeral, readNumeral, digit]
  · have nonempty : b.digits n ≠ [] := Nat.digits_ne_nil_iff_ne_zero.mpr zero
    have text : numeral b n = ((b.digits n).map digitByte).reverse := if_neg zero
    refine ⟨by simpa [text] using nonempty, fun head => ?_, ?_⟩
    · -- the first character is the last of the digits, which is not zero
      rw [text, List.head?_reverse, List.getLast?_map, List.getLast?_eq_getLast_of_ne_nil nonempty] at head
      have first := congrArg BitVec.toNat (Option.some.inj head)
      have positive := Nat.getLast_digit_ne_zero b zero
      have small := Nat.digits_lt_base base (List.getLast_mem nonempty)
      rw [toNat_digitByte (by omega)] at first
      change _ = 48 at first
      split at first
      · omega
      · omega
    · rw [text, readNumeral_digits letters fun d member => Nat.digits_lt_base base member, Nat.ofDigits_digits]

include base in
theorem numeral_length {n k : Nat} (pos : 0 < k) (small : n < b ^ k) : (numeral b n).length ≤ k := by
  rw [numeral]
  split
  · exact pos
  · rw [List.length_reverse, List.length_map]
    exact (Nat.digits_length_le_iff base n).mpr small

end Numeral

/-! ## The two loops -/

/-- One step of a digit loop in base `b`: the last digit, and the number without it. -/
structure TakesDigits (b : Nat) (digit : BitVec 64 → BitVec 8) (rest : BitVec 64 → BitVec 64) : Prop where
  base : 1 < b
  digit : ∀ n, digit n = digitByte (n.toNat % b)
  rest : ∀ n, (rest n).toNat = n.toNat / b

theorem decDigit_takes : TakesDigits 10 decDigit fun n => n / 10 := by
  refine ⟨by decide, fun n => ?_, fun n => BitVec.toNat_udiv⟩
  apply BitVec.eq_of_toNat_eq
  have value : (n % 10).toNat = n.toNat % 10 := BitVec.toNat_umod
  rw [toNat_digitByte (by omega), if_pos (by omega), decDigit, BitVec.toNat_add, BitVec.toNat_setWidth, value]
  change (48 + n.toNat % 10 % 256) % 256 = _
  omega

theorem hexDigit_takes : TakesDigits 16 hexDigit fun n => n >>> 4 := by
  refine ⟨by decide, fun n => ?_, fun n => ?_⟩
  · have value : (n &&& 0xF).toNat = n.toNat % 16 := by
      rw [BitVec.toNat_and]
      exact Nat.and_two_pow_sub_one_eq_mod n.toNat 4
    have digit : ((n &&& 0xF).setWidth 8).toNat = n.toNat % 16 := by
      rw [BitVec.toNat_setWidth, value, Nat.mod_eq_of_lt (by omega)]
    apply BitVec.eq_of_toNat_eq
    rw [toNat_digitByte (by omega), hexDigit]
    generalize (n &&& 0xF).setWidth 8 = d at digit
    rw [← digit]
    have small : d.toNat < 16 := by omega
    have ten : BitVec.toNat (10 : BitVec 8) = 10 := rfl
    simp only [BitVec.lt_def, ten]
    split
    · bv_omega
    · bv_omega
  · rw [BitVec.toNat_ushiftRight, Nat.shiftRight_eq_div_pow]

section Loops

variable {b : Nat} {digit : BitVec 64 → BitVec 8} {rest : BitVec 64 → BitVec 64} (takes : TakesDigits b digit rest)

include takes in
/-- The first loop stores the digits from `idx` on, in as many steps as there are digits. -/
theorem fillDigits_ok {room : Nat} (buf : List (BitVec 8)) (idx : Nat) {n : BitVec 64}
    (size : idx + room = buf.length) (enough : (b.digits n.toNat).length ≤ room) :
    ∃ filled, fillDigits digit rest room buf idx n = .ok (filled, idx + (b.digits n.toNat).length) ∧
      filled.length = buf.length ∧
      filled.take (idx + (b.digits n.toNat).length) = buf.take idx ++ (b.digits n.toNat).map digitByte := by
  induction room generalizing buf idx n with
  | zero =>
    have none : b.digits n.toNat = [] := List.eq_nil_of_length_eq_zero (Nat.le_zero.mp enough)
    have zero : n = 0 := BitVec.eq_of_toNat_eq (Nat.digits_eq_nil_iff_eq_zero.mp none)
    rw [fillDigits, if_pos zero, none]
    exact ⟨buf, rfl, rfl, by simp⟩
  | succ room ih =>
    by_cases zero : n = 0
    · subst zero
      rw [fillDigits, if_pos rfl]
      exact ⟨buf, by simp, rfl, by simp⟩
    · have positive : 0 < n.toNat := by bv_omega
      have inside : idx < buf.length := by omega
      have digits := Nat.digits_def' takes.base positive
      rw [← takes.rest] at digits
      rw [digits, List.length_cons] at enough
      obtain ⟨filled, run, length, stored⟩ :=
        ih (buf.set idx (digit n)) (idx + 1) (n := rest n) (by rw [List.length_set]; omega) (by omega)
      rw [List.length_set] at length
      have count : idx + (b.digits n.toNat).length = idx + 1 + (b.digits (rest n).toNat).length := by
        rw [digits, List.length_cons]
        omega
      rw [fillDigits, if_neg zero]
      refine ⟨filled, by rw [count]; exact run, length, ?_⟩
      rw [count, stored, digits, List.map_cons, ← takes.digit]
      simp [List.take_add_one, inside, List.take_set_of_le]

/-- The second loop writes what lies below `idx`, the last byte first. -/
theorem emitDigits_ok {u : Uart} {buf : List (BitVec 8)} {idx : Nat} (inside : idx ≤ buf.length) :
    emitDigits u buf idx = .ok { u with tx := u.tx ++ (buf.take idx).reverse } := by
  induction idx generalizing u with
  | zero => simp [emitDigits]
  | succ idx ih =>
    have here : buf[idx]? = some buf[idx] := List.getElem?_eq_getElem inside
    rw [emitDigits, here]
    dsimp only
    rw [ih (by omega), List.take_succ_eq_append_getElem inside, List.reverse_append]
    simp [putc]

include takes in
theorem putDigits_ok {len : Nat} {u : Uart} {n : BitVec 64} (room : (b.digits n.toNat).length ≤ len) :
    putDigits len digit rest u n = .ok { u with tx := u.tx ++ numeral b n.toNat } := by
  rw [putDigits]
  split
  · rename_i zero
    subst zero
    rfl
  · rename_i nonzero
    have positive : n.toNat ≠ 0 := by bv_omega
    obtain ⟨filled, run, length, stored⟩ :=
      fillDigits_ok takes (List.replicate len 0) 0 (n := n) (by simp) room
    rw [Nat.zero_add] at run stored
    rw [List.length_replicate] at length
    rw [run]
    change emitDigits u filled _ = _
    rw [emitDigits_ok (by omega), stored, numeral, if_neg positive]
    rfl

end Loops

/-! ## `put_dec` and `put_hex` -/

section Print

variable (u : Uart) (n : BitVec 64)

theorem putDec_ok : putDec u n = .ok { u with tx := u.tx ++ numeral 10 n.toNat } := by
  apply putDigits_ok decDigit_takes
  apply (Nat.digits_length_le_iff (by decide) _).mpr
  exact lt_trans n.isLt (by decide)

theorem putHex_ok : putHex u n = .ok { u with tx := u.tx ++ (bytes "0x" ++ numeral 16 n.toNat) } := by
  have room : (Nat.digits 16 n.toNat).length ≤ 16 := (Nat.digits_length_le_iff (by decide) _).mpr n.isLt
  have start : puts u "0x" = { u with tx := u.tx ++ bytes "0x" } := by
    change (⟨u.tx ++ [48] ++ [120], u.rx⟩ : Uart) = ⟨u.tx ++ [48, 120], u.rx⟩
    rw [List.append_assoc]
    rfl
  rw [putHex, putDigits_ok hexDigit_takes room, start, List.append_assoc]

end Print

/-- Different numbers have different numerals. -/
theorem numeral_injective {b : Nat} (base : 1 < b) (letters : b ≤ 16) {m n : BitVec 64}
    (same : numeral b m.toNat = numeral b n.toNat) : m = n := by
  have first := (numeral_canonical base letters m.toNat).reads
  rw [same, (numeral_canonical base letters n.toNat).reads] at first
  exact BitVec.eq_of_toNat_eq (Option.some.inj first).symm

/-- **Printed numbers.** For every 64-bit number `put_dec` and `put_hex` stay inside their buffers and write
its decimal and its hexadecimal numeral; different numbers are written differently. -/
theorem print_numbers_exact (u : Uart) (n : BitVec 64) :
    (∃ text, putDec u n = .ok { u with tx := u.tx ++ text } ∧ text.length ≤ 20 ∧ Canonical 10 n.toNat text) ∧
      (∃ text, putHex u n = .ok { u with tx := u.tx ++ (bytes "0x" ++ text) } ∧ text.length ≤ 16 ∧
        Canonical 16 n.toNat text) ∧
      ∀ m, m ≠ n → putDec u m ≠ putDec u n ∧ putHex u m ≠ putHex u n := by
  have dec : Canonical 10 n.toNat (numeral 10 n.toNat) := numeral_canonical (by decide) (by decide) _
  have hex : Canonical 16 n.toNat (numeral 16 n.toNat) := numeral_canonical (by decide) (by decide) _
  refine ⟨⟨_, putDec_ok u n, ?_, dec⟩, ⟨_, putHex_ok u n, ?_, hex⟩,
    fun m other => ⟨fun same => ?_, fun same => ?_⟩⟩
  · exact numeral_length (by decide) (by decide) (lt_trans n.isLt (by decide))
  · exact numeral_length (by decide) (by decide) n.isLt
  · rw [putDec_ok, putDec_ok, Except.ok.injEq, Uart.mk.injEq, List.append_cancel_left_eq] at same
    exact other (numeral_injective (by decide) (by decide) same.1)
  · rw [putHex_ok, putHex_ok, Except.ok.injEq, Uart.mk.injEq, List.append_cancel_left_eq,
      List.append_cancel_left_eq] at same
    exact other (numeral_injective (by decide) (by decide) same.1)

end Serial

end Cyptos
