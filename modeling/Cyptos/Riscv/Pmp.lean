import Cyptos.Riscv.Word
import Cyptos.Riscv.Napot
import Cyptos.Riscv.Status

/-!
# Physical memory protection of an RV64 hart

Sixteen entries, each a configuration byte and an address register. Software sees the
bytes packed eight to a CSR (`pmpcfg0` is bank 0, `pmpcfg2` bank 1). A write leaves a
locked entry alone, and a locked top-of-range entry also locks the address below it.
An access is decided by the lowest-numbered entry that matches its byte address: that
entry's permission bits bind user mode, and machine mode only when the entry is locked;
with no match machine mode is allowed and user mode is denied.
-/

namespace Riscv
set_option autoImplicit false

/-- Kinds of memory access. -/
inductive Access
  | read | write | exec
  deriving DecidableEq, Repr

namespace Pmp

/-- The address-matching field `A` of a configuration byte. -/
inductive Matching
  | off | tor | na4 | napot
  deriving DecidableEq, Repr

def matching (c : BitVec 8) : Matching :=
  match c.getLsbD 4, c.getLsbD 3 with
  | false, false => .off
  | false, true => .tor
  | true, false => .na4
  | true, true => .napot

def locked (c : BitVec 8) : Bool := c.getLsbD 7

/-- The permission bits of a configuration byte. -/
def grants (c : BitVec 8) : Access → Bool
  | .read => c.getLsbD 0
  | .write => c.getLsbD 1
  | .exec => c.getLsbD 2

/-- The entries of one hart. `addrBits` is the number of implemented bits of an address
register: 54 on RV64, for bits 55 to 2 of a physical address. -/
structure File where
  addrBits : Nat
  cfg : Fin 16 → BitVec 8
  addr : Fin 16 → BitVec 64

/-- One CSR write. -/
inductive Write
  | cfg (bank : Fin 2) (v : BitVec 64)
  | addr (i : Fin 16) (v : BitVec 64)
  deriving DecidableEq, Repr

/-- The entry in byte `j` of configuration bank `bank`. -/
def entryOf (bank : Fin 2) (j : Fin 8) : Fin 16 := ⟨8 * bank + j, by omega⟩

def bankOf (i : Fin 16) : Fin 2 := ⟨i / 8, by omega⟩

def byteOf (i : Fin 16) : Fin 8 := ⟨i % 8, by omega⟩

@[simp] theorem entryOf_bank_byte (i : Fin 16) : entryOf (bankOf i) (byteOf i) = i := by
  apply Fin.ext; simp only [entryOf, bankOf, byteOf]; omega

@[simp] theorem bankOf_entryOf (b : Fin 2) (j : Fin 8) : bankOf (entryOf b j) = b := by
  apply Fin.ext; simp only [entryOf, bankOf]; omega

@[simp] theorem byteOf_entryOf (b : Fin 2) (j : Fin 8) : byteOf (entryOf b j) = j := by
  apply Fin.ext; simp only [entryOf, byteOf]; omega

namespace File

/-- Whether writes to address register `i` are ignored. -/
def addrLocked (f : File) (i : Fin 16) : Bool :=
  locked (f.cfg i) ||
    if h : i.val + 1 < 16 then locked (f.cfg ⟨i + 1, h⟩) && matching (f.cfg ⟨i + 1, h⟩) == .tor else false

/-- The value an address register keeps of `v`. -/
def legal (f : File) (v : BitVec 64) : BitVec 64 := BitVec.ofNat 64 (v.toNat % 2 ^ f.addrBits)

def readCfg (f : File) (bank : Fin 2) : BitVec 64 := ofBytes fun j => f.cfg (entryOf bank j)

def writeCfg (f : File) (bank : Fin 2) (v : BitVec 64) : File :=
  { f with cfg := fun i => if bankOf i = bank ∧ locked (f.cfg i) = false then byteAt v (byteOf i) else f.cfg i }

def writeAddr (f : File) (i : Fin 16) (v : BitVec 64) : File :=
  if f.addrLocked i then f else { f with addr := Function.update f.addr i (f.legal v) }

def apply (f : File) : Write → File
  | .cfg bank v => f.writeCfg bank v
  | .addr i v => f.writeAddr i v

/-- Lower bound, in units of four bytes, of a top-of-range entry. -/
def torBase (f : File) (i : Fin 16) : Nat := if i = 0 then 0 else (f.addr (i - 1)).toNat

/-- Whether entry `i` matches byte address `a`. -/
def entryMatches (f : File) (i : Fin 16) (a : Nat) : Bool :=
  match matching (f.cfg i) with
  | .off => false
  | .tor => decide (f.torBase i ≤ a / 4) && decide (a / 4 < (f.addr i).toNat)
  | .na4 => a / 4 == (f.addr i).toNat
  | .napot => napotMatch (f.addr i).toNat a

def firstMatch (f : File) (a : Nat) : Option (Fin 16) := Fin.find? fun i => f.entryMatches i a

/-- What the deciding entry, if any, says about an access of kind `k` in mode `mode`. -/
def outcome (f : File) (mode : Mode) (k : Access) : Option (Fin 16) → Bool
  | none => mode == .machine
  | some i => (mode == .machine && !locked (f.cfg i)) || grants (f.cfg i) k

/-- Whether an access of kind `k` to byte address `a` is allowed in mode `mode`. -/
def permits (f : File) (mode : Mode) (k : Access) (a : Nat) : Bool := f.outcome mode k (f.firstMatch a)

end File

/-- The entries together with the CSR writes that led to them, oldest first. -/
structure Regs where
  file : File
  writes : List Write

def Regs.write (r : Regs) (w : Write) : Regs := ⟨r.file.apply w, r.writes ++ [w]⟩

/-! ## Reads and writes of one CSR -/

section Csr

variable (f : File)

@[simp] theorem byteAt_readCfg (b : Fin 2) (j : Fin 8) : byteAt (f.readCfg b) j = f.cfg (entryOf b j) :=
  byteAt_ofBytes _ j

@[simp] theorem writeCfg_addr (b : Fin 2) (v : BitVec 64) : (f.writeCfg b v).addr = f.addr := rfl

@[simp] theorem writeCfg_addrBits (b : Fin 2) (v : BitVec 64) : (f.writeCfg b v).addrBits = f.addrBits := rfl

theorem writeCfg_cfg (b : Fin 2) (v : BitVec 64) (i : Fin 16) :
    (f.writeCfg b v).cfg i =
      if bankOf i = b ∧ locked (f.cfg i) = false then byteAt v (byteOf i) else f.cfg i := rfl

/-- Writing back the byte an entry holds changes nothing, locked or not. -/
theorem writeCfg_cfg_same {b : Fin 2} {v : BitVec 64} {i : Fin 16}
    (same : bankOf i = b → byteAt v (byteOf i) = f.cfg i) : (f.writeCfg b v).cfg i = f.cfg i := by
  rw [writeCfg_cfg]
  split
  · rename_i h; exact same h.1
  · rfl

/-- A write to one bank leaves the other. -/
theorem writeCfg_cfg_other {b : Fin 2} {v : BitVec 64} {i : Fin 16} (other : bankOf i ≠ b) :
    (f.writeCfg b v).cfg i = f.cfg i :=
  writeCfg_cfg_same f fun same => absurd same other

@[simp] theorem writeAddr_cfg (i : Fin 16) (v : BitVec 64) : (f.writeAddr i v).cfg = f.cfg := by
  unfold File.writeAddr; split <;> rfl

@[simp] theorem writeAddr_addrBits (i : Fin 16) (v : BitVec 64) : (f.writeAddr i v).addrBits = f.addrBits := by
  unfold File.writeAddr; split <;> rfl

theorem writeAddr_addr_same {i : Fin 16} {v : BitVec 64} (free : f.addrLocked i = false) :
    (f.writeAddr i v).addr i = f.legal v := by
  simp [File.writeAddr, free]

theorem writeAddr_addr_other {i j : Fin 16} {v : BitVec 64} (other : j ≠ i) :
    (f.writeAddr i v).addr j = f.addr j := by
  unfold File.writeAddr
  split
  · rfl
  · simp [Function.update_of_ne other]

/-- An entry is free when neither it nor the entry above it is locked. -/
theorem addrLocked_of_unlocked {i : Fin 16} (own : locked (f.cfg i) = false)
    (above : ∀ h : i.val + 1 < 16, locked (f.cfg ⟨i + 1, h⟩) = false) : f.addrLocked i = false := by
  simp only [File.addrLocked, own, Bool.false_or]
  split
  · rename_i h; simp [above h]
  · rfl

/-- Writes to an address register are ignored for two reasons only. -/
theorem addrLocked_eq_false_iff {i : Fin 16} :
    f.addrLocked i = false ↔
      locked (f.cfg i) = false ∧
        ∀ j : Fin 16, j.val = i.val + 1 → ¬ (locked (f.cfg j) = true ∧ matching (f.cfg j) = .tor) := by
  simp only [File.addrLocked, Bool.or_eq_false_iff, and_congr_right_iff]
  intro _
  constructor
  · rintro free j above ⟨held, tor⟩
    have next : i.val + 1 < 16 := by omega
    have entry : (⟨i.val + 1, next⟩ : Fin 16) = j := Fin.ext above.symm
    rw [dif_pos next, entry] at free
    simp [held, tor] at free
  · intro free
    split
    · rename_i next
      have above := free ⟨i.val + 1, next⟩ rfl
      simpa [Bool.and_eq_false_iff, imp_iff_not_or] using above
    · rfl

@[simp] theorem legal_zero : f.legal 0#64 = 0#64 := by
  simp [File.legal]

theorem toNat_legal (v : BitVec 64) : (f.legal v).toNat = v.toNat % 2 ^ f.addrBits := by
  have small := v.isLt
  have le := Nat.mod_le v.toNat (2 ^ f.addrBits)
  simp only [File.legal, BitVec.toNat_ofNat]
  omega

end Csr

/-! ## Sequences of writes -/

/-- The CSRs after a list of writes. -/
def Regs.writeAll (r : Regs) (ws : List Write) : Regs := ws.foldl Regs.write r

/-- A write takes effect in full: the CSR reads back as it was written. -/
def File.Takes (f : File) : Write → Prop
  | .cfg bank v => ∀ i, bankOf i = bank → (f.writeCfg bank v).cfg i = byteAt v (byteOf i)
  | .addr i v => (f.writeAddr i v).addr i = f.legal v

/-- Every write of the list takes effect, and `P` holds before, between and after them. -/
def File.Along (P : File → Prop) : File → List Write → Prop
  | f, [] => P f
  | f, w :: ws => P f ∧ f.Takes w ∧ Along P (f.apply w) ws

section Sequences

variable {r : Regs} {f : File} {i : Fin 16}

@[simp] theorem Regs.writeAll_file (r : Regs) (ws : List Write) :
    (r.writeAll ws).file = ws.foldl File.apply r.file := by
  induction ws generalizing r with
  | nil => rfl
  | cons w ws ih => exact ih (r.write w)

theorem Regs.writeAll_append (r : Regs) (ws vs : List Write) :
    r.writeAll (ws ++ vs) = (r.writeAll ws).writeAll vs := List.foldl_append

theorem File.Along.append {P : File → Prop} {ws vs : List Write} (first : f.Along P ws)
    (second : (ws.foldl File.apply f).Along P vs) : f.Along P (ws ++ vs) := by
  induction ws generalizing f with
  | nil => exact second
  | cons w ws ih => exact ⟨first.1, first.2.1, ih first.2.2 second⟩

theorem File.Along.last {P : File → Prop} {ws : List Write} (along : f.Along P ws) : P (ws.foldl File.apply f) := by
  induction ws generalizing f with
  | nil => exact along
  | cons w ws ih => exact ih along.2.2

theorem File.Along.of_prefix {P : File → Prop} {ws before : List Write} (along : f.Along P ws)
    (part : before <+: ws) : P (before.foldl File.apply f) := by
  induction before generalizing f ws with
  | nil => cases ws with
    | nil => exact along
    | cons w ws => exact along.1
  | cons w before ih =>
    obtain ⟨rest, rfl⟩ := part
    exact ih along.2.2 (List.prefix_append before rest)

theorem takes_addr {v : BitVec 64} (free : f.addrLocked i = false) : f.Takes (.addr i v) :=
  writeAddr_addr_same f free

theorem takes_cfg {b : Fin 2} {v : BitVec 64}
    (kept : ∀ i, bankOf i = b → locked (f.cfg i) = true → byteAt v (byteOf i) = f.cfg i) : f.Takes (.cfg b v) := by
  intro i bank
  rw [writeCfg_cfg]
  by_cases free : locked (f.cfg i) = false
  · rw [if_pos ⟨bank, free⟩]
  · rw [if_neg fun both => free both.2]
    exact (kept i bank (by simpa using free)).symm

@[simp] theorem apply_addrBits (w : Write) : (f.apply w).addrBits = f.addrBits := by
  cases w with
  | cfg b v => rfl
  | addr j v => exact writeAddr_addrBits f j v

/-- No write changes the configuration of a locked entry. -/
theorem apply_cfg_locked (w : Write) (held : locked (f.cfg i) = true) : (f.apply w).cfg i = f.cfg i := by
  cases w with
  | cfg b v => exact if_neg fun both => by simp [held] at both
  | addr j v => exact congrFun (writeAddr_cfg f j v) i

/-- No write changes a locked address. -/
theorem apply_addr_locked (w : Write) (held : f.addrLocked i = true) : (f.apply w).addr i = f.addr i := by
  cases w with
  | cfg b v => rfl
  | addr j v =>
    by_cases same : i = j
    · subst same
      simp [File.apply, File.writeAddr, held]
    · exact writeAddr_addr_other f same

/-- An address stays locked. -/
theorem apply_addrLocked (w : Write) (held : f.addrLocked i = true) : (f.apply w).addrLocked i = true := by
  simp only [File.addrLocked, Bool.or_eq_true] at held ⊢
  rcases held with own | above
  · exact .inl (by rw [apply_cfg_locked w own]; exact own)
  · split at above
    · rename_i next
      rw [Bool.and_eq_true] at above
      refine .inr ?_
      rw [dif_pos next, apply_cfg_locked w above.1, Bool.and_eq_true]
      exact above
    · cases above

/-- A list of writes leads from one state of the CSRs to another. -/
def Regs.Written (p q : Regs) : Prop := ∃ ws, q = p.writeAll ws

theorem Regs.Written.refl (p : Regs) : p.Written p := ⟨[], rfl⟩

theorem Regs.Written.write {p q : Regs} (before : p.Written q) (w : Write) : p.Written (q.write w) := by
  obtain ⟨ws, rfl⟩ := before
  exact ⟨ws ++ [w], (p.writeAll_append ws [w]).symm⟩

/-- What every write preserves holds after any number of them. -/
theorem Regs.Written.preserve {P : File → Prop} (step : ∀ f w, P f → P (f.apply w)) {p q : Regs} (written : p.Written q)
    (start : P p.file) : P q.file := by
  obtain ⟨ws, rfl⟩ := written
  rw [Regs.writeAll_file]
  induction ws generalizing p with
  | nil => exact start
  | cons w ws ih => exact ih (p := p.write w) (step p.file w start)

theorem Regs.Written.addrBits {p q : Regs} (written : p.Written q) : q.file.addrBits = p.file.addrBits :=
  written.preserve (P := fun f => f.addrBits = p.file.addrBits) (fun _ w same => (apply_addrBits w).trans same) rfl

theorem Regs.Written.cfg_locked {p q : Regs} (written : p.Written q) (held : locked (p.file.cfg i) = true) :
    q.file.cfg i = p.file.cfg i := by
  refine written.preserve (P := fun f => f.cfg i = p.file.cfg i) (fun f w same => ?_) rfl
  rw [apply_cfg_locked w (by rw [same]; exact held), same]

theorem Regs.Written.addr_locked {p q : Regs} (written : p.Written q) (held : p.file.addrLocked i = true) :
    q.file.addr i = p.file.addr i := by
  have kept := written.preserve (P := fun f => f.addrLocked i = true ∧ f.addr i = p.file.addr i)
    (fun f w before => ⟨apply_addrLocked w before.1, (apply_addr_locked w before.1).trans before.2⟩) ⟨held, rfl⟩
  exact kept.2

/-- The writes from `p` to `q` all take effect, and `P` holds in every state on the way. -/
def Regs.Careful (P : File → Prop) (p q : Regs) : Prop := ∃ ws, q = p.writeAll ws ∧ p.file.Along P ws

theorem Regs.Careful.refl {P : File → Prop} {p : Regs} (here : P p.file) : p.Careful P p := ⟨[], rfl, here⟩

theorem Regs.Careful.write {P : File → Prop} {p q : Regs} (before : p.Careful P q) {w : Write}
    (takes : q.file.Takes w) (after : P (q.file.apply w)) : p.Careful P (q.write w) := by
  obtain ⟨ws, rfl, along⟩ := before
  rw [Regs.writeAll_file] at takes after
  exact ⟨ws ++ [w], (p.writeAll_append ws [w]).symm, along.append ⟨along.last, takes, after⟩⟩

end Sequences

/-! ## Decisions -/

section Decide

variable {f : File} {a : Nat} {k : Access}

/-- The lowest-numbered match decides. -/
theorem firstMatch_eq {i : Fin 16} (hit : f.entryMatches i a = true)
    (before : ∀ j < i, f.entryMatches j a = false) : f.firstMatch a = some i :=
  Fin.find?_eq_some_iff.mpr ⟨hit, before⟩

theorem permits_of_first {mode : Mode} {i : Fin 16} (first : f.firstMatch a = some i) :
    f.permits mode k a = ((mode == .machine && !locked (f.cfg i)) || grants (f.cfg i) k) := by
  rw [File.permits, first, File.outcome]

theorem permits_user_of_first {i : Fin 16} (first : f.firstMatch a = some i) :
    f.permits .user k a = grants (f.cfg i) k := by
  rw [permits_of_first first]; rfl

/-- Machine mode is denied an access only by a locked entry. -/
theorem permits_machine (granted : ∀ i, f.entryMatches i a = true → locked (f.cfg i) = true → grants (f.cfg i) k = true) :
    f.permits .machine k a = true := by
  cases first : f.firstMatch a with
  | none => rw [File.permits, first]; rfl
  | some i =>
    rw [permits_of_first first]
    cases held : locked (f.cfg i) with
    | false => rfl
    | true => simpa [held] using granted i (Fin.find?_eq_some_iff.mp first).1 held

/-- User mode is granted an access only by an entry that matches the address. -/
theorem permits_user_iff :
    f.permits .user k a = true ↔ ∃ i, f.firstMatch a = some i ∧ grants (f.cfg i) k = true := by
  cases first : f.firstMatch a with
  | none => rw [File.permits, first]; simp [File.outcome]
  | some i => simp [permits_user_of_first first]

theorem entryMatches_off {i : Fin 16} (off : matching (f.cfg i) = .off) : f.entryMatches i a = false := by
  simp only [File.entryMatches, off]

theorem entryMatches_tor {i : Fin 16} (tor : matching (f.cfg i) = .tor) :
    f.entryMatches i a = true ↔ f.torBase i ≤ a / 4 ∧ a / 4 < (f.addr i).toNat := by
  simp only [File.entryMatches, tor, Bool.and_eq_true, decide_eq_true_eq]

theorem entryMatches_napot {i : Fin 16} (napot : matching (f.cfg i) = .napot) :
    f.entryMatches i a = napotMatch (f.addr i).toNat a := by
  simp only [File.entryMatches, napot]

/-- An entry that does not match may as well be off. -/
theorem permits_off {i : Fin 16} (miss : f.entryMatches i a = false) (mode : Mode) :
    { f with cfg := Function.update f.cfg i 0 }.permits mode k a = f.permits mode k a := by
  let g : File := { f with cfg := Function.update f.cfg i 0 }
  have entry (j : Fin 16) : g.entryMatches j a = f.entryMatches j a := by
    by_cases same : j = i
    · subst same
      rw [miss]
      exact entryMatches_off (by simp only [g, Function.update_self]; rfl)
    · have cfg : g.cfg j = f.cfg j := Function.update_of_ne same _ _
      simp only [File.entryMatches, cfg]
      rfl
  have first : g.firstMatch a = f.firstMatch a := by simp only [File.firstMatch, entry]
  change g.permits mode k a = _
  rw [File.permits, File.permits, first]
  cases hit : f.firstMatch a with
  | none => rfl
  | some j =>
    have other : j ≠ i := by
      rintro rfl
      rw [(Fin.find?_eq_some_iff.mp hit).1] at miss
      cases miss
    have cfg : g.cfg j = f.cfg j := Function.update_of_ne other _ _
    simp only [File.outcome, cfg]

/-- What an entry matches depends on its own registers and on the address before it. -/
theorem entryMatches_of_front {g : File} {n : Nat} (cfg : ∀ i : Fin 16, i.val < n → g.cfg i = f.cfg i)
    (addr : ∀ i : Fin 16, i.val < n → g.addr i = f.addr i) (i : Fin 16) (front : i.val < n) :
    g.entryMatches i a = f.entryMatches i a := by
  have base : g.torBase i = f.torBase i := by
    unfold File.torBase
    split
    · rfl
    · rename_i positive
      rw [addr (i - 1) (by have before := Fin.val_sub_one_of_ne_zero positive; omega)]
  simp only [File.entryMatches, cfg i front, addr i front, base]

end Decide

/-! ## Entries without rights -/

/-- `g` is `f` with the entries from `n` on, which were off, switched on for the first eight bytes but without rights. -/
structure BareTail (f g : File) (n : Nat) : Prop where
  cfg : ∀ i : Fin 16, i.val < n → g.cfg i = f.cfg i
  addr : ∀ i : Fin 16, i.val < n → g.addr i = f.addr i
  off : ∀ i : Fin 16, n ≤ i.val → matching (f.cfg i) = .off
  on : ∀ i : Fin 16, n ≤ i.val → matching (g.cfg i) = .napot ∧ g.addr i = 0
  bare : ∀ i : Fin 16, n ≤ i.val → locked (g.cfg i) = false ∧ ∀ k, grants (g.cfg i) k = false

namespace BareTail

variable {f g : File} {n a : Nat} {i : Fin 16}

theorem matches_front (tail : BareTail f g n) (front : i.val < n) : g.entryMatches i a = f.entryMatches i a :=
  entryMatches_of_front tail.cfg tail.addr i front

theorem matches_tail (tail : BareTail f g n) (behind : n ≤ i.val) : g.entryMatches i a = true ↔ a < 8 := by
  obtain ⟨napot, addr⟩ := tail.on i behind
  have decoded : napotDecode (0 : BitVec 64).toNat = (0, 8) := by decide
  rw [entryMatches_napot napot, addr, napotMatch_iff_decode, decoded]
  omega

/-- What decides in `f` is in front. -/
theorem first_front (tail : BareTail f g n) (first : f.firstMatch a = some i) : i.val < n := by
  obtain ⟨hit, -⟩ := Fin.find?_eq_some_iff.mp first
  by_contra behind
  rw [entryMatches_off (tail.off i (by omega))] at hit
  cases hit

theorem firstMatch_some (tail : BareTail f g n) (first : f.firstMatch a = some i) : g.firstMatch a = some i := by
  have front := tail.first_front first
  obtain ⟨hit, before⟩ := Fin.find?_eq_some_iff.mp first
  refine firstMatch_eq (by rw [tail.matches_front front]; exact hit) fun j early => ?_
  have earlier : j.val < i.val := early
  rw [tail.matches_front (by omega)]
  exact before j early

/-- An address that `f` has no entry for is decided by the first of the new ones, if it is one of the first eight. -/
theorem firstMatch_none (tail : BareTail f g n) (first : f.firstMatch a = none) :
    g.firstMatch a = if a < 8 then Fin.find? fun i : Fin 16 => decide (n ≤ i.val) else none := by
  have misses := Fin.find?_eq_none_iff.mp first
  have entry (i : Fin 16) : g.entryMatches i a = (decide (a < 8) && decide (n ≤ i.val)) := by
    by_cases behind : n ≤ i.val
    · rw [Bool.eq_iff_iff, tail.matches_tail behind]
      simp [behind]
    · rw [tail.matches_front (by omega), misses i]
      simp [behind]
  simp only [File.firstMatch, entry]
  split
  · simp [*]
  · simp [*]

/-- Every byte is decided as before. -/
theorem permits (tail : BareTail f g n) (mode : Mode) (k : Access) : g.permits mode k a = f.permits mode k a := by
  cases first : f.firstMatch a with
  | some i =>
    rw [permits_of_first first, permits_of_first (tail.firstMatch_some first), tail.cfg i (tail.first_front first)]
  | none =>
    have before : f.permits mode k a = (mode == .machine) := by
      rw [File.permits, first]
      rfl
    cases now : g.firstMatch a with
    | none =>
      rw [before, File.permits, now]
      rfl
    | some i =>
      have behind : n ≤ i.val := by
        rw [tail.firstMatch_none first] at now
        split at now
        · simpa using (Fin.find?_eq_some_iff.mp now).1
        · cases now
      obtain ⟨free, denied⟩ := tail.bare i behind
      rw [permits_of_first now, before, free, denied]
      cases mode <;> rfl

/-- Two addresses that are both among the first eight or both not are decided by one entry if they were before. -/
theorem firstMatch_eq_iff (tail : BareTail f g n) {b : Nat} (side : a < 8 ↔ b < 8) :
    g.firstMatch a = g.firstMatch b ↔ f.firstMatch a = f.firstMatch b := by
  -- an entry in front is none of the new ones
  have apart {i : Fin 16} {c : Nat} (front : i.val < n) :
      some i ≠ if c < 8 then Fin.find? fun i : Fin 16 => decide (n ≤ i.val) else none := by
    intro same
    split at same
    · have hit := (Fin.find?_eq_some_iff.mp same.symm).1
      have behind : n ≤ i.val := by simpa using hit
      omega
    · cases same
  cases first : f.firstMatch a with
  | some i =>
    rw [tail.firstMatch_some first]
    cases second : f.firstMatch b with
    | some j => rw [tail.firstMatch_some second]
    | none =>
      rw [tail.firstMatch_none second]
      simp [apart (tail.first_front first)]
  | none =>
    rw [tail.firstMatch_none first]
    cases second : f.firstMatch b with
    | some j =>
      rw [tail.firstMatch_some second]
      simp [(apart (tail.first_front second)).symm]
    | none =>
      rw [tail.firstMatch_none second]
      simp [side]

end BareTail

end Pmp

end Riscv
