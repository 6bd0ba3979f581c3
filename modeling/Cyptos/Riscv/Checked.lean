import Cyptos.Riscv.Hart
import Cyptos.Riscv.Pmp

/-!
# Straight-line code with checked stores

A block whose stores are checked runs as before while they are allowed. The first store that is not
allowed ends it, before it takes effect, with the hart that the instructions before it have left.
-/

namespace Riscv
set_option autoImplicit false

/-! ## Blocks -/

/-- The address that an instruction stores a doubleword to. -/
def Instr.target (h : Hart) : Instr → Option (BitVec 64)
  | .sd _ off base => some (h.x base + BitVec.ofNat 64 off)
  | _ => none

/-- The addresses that a block stores doublewords to, in order. -/
def targets : List Instr → Hart → List (BitVec 64)
  | [], _ => []
  | i :: is, h => (i.target h).toList ++ targets is (i.exec h)

/-- A store that was not allowed: where in its block, to which address, and the hart before it. -/
structure StoreFault where
  index : Nat
  addr : BitVec 64
  hart : Hart

/-- Straight-line execution from instruction `k` on, with checked stores. -/
def runChecked (allowed : BitVec 64 → Bool) : Nat → List Instr → Hart → Except StoreFault Hart
  | _, [], h => .ok h
  | k, i :: is, h =>
    match i.target h with
    | none => runChecked allowed (k + 1) is (i.exec h)
    | some a => if allowed a then runChecked allowed (k + 1) is (i.exec h) else .error ⟨k, a, h⟩

/-- The register that an instruction writes. -/
def Instr.dest : Instr → Option Reg
  | .csrr rd _ | .addi rd _ _ | .mv rd _ | .ld rd _ _ => some rd
  | .csrw _ _ | .sd _ _ _ => none

section Blocks

variable {allowed : BitVec 64 → Bool}

theorem targets_append (is js : List Instr) (h : Hart) :
    targets (is ++ js) h = targets is h ++ targets js (runBlock is h) := by
  induction is generalizing h with
  | nil => rfl
  | cons i is ih => simp only [List.cons_append, targets, ih, runBlock_cons, List.append_assoc]

theorem targets_sds (base : Reg) (table : List (Reg × Nat)) (h : Hart) :
    targets (sds base table) h = table.map fun e => h.x base + BitVec.ofNat 64 e.2 := by
  induction table generalizing h with
  | nil => rfl
  | cons e table ih =>
    have rest := ih (Instr.exec h (.sd e.1 e.2 base))
    simp only [sds, List.map_cons, targets] at rest ⊢
    rw [rest]
    rfl

theorem runChecked_ok {is : List Instr} {h : Hart} (fine : ∀ a ∈ targets is h, allowed a = true) (k : Nat) :
    runChecked allowed k is h = .ok (runBlock is h) := by
  induction is generalizing h k with
  | nil => rfl
  | cons i is ih =>
    have rest := ih (fun a member => fine a (List.mem_append_right _ member)) (k + 1)
    rw [runChecked, runBlock_cons]
    cases target : i.target h with
    | none => exact rest
    | some a =>
      have here : a ∈ targets (i :: is) h := List.mem_append_left _ (by rw [target]; exact List.mem_singleton_self a)
      simp only [fine a here, if_true]
      exact rest

/-- A block with a store that is not allowed ends there. -/
theorem runChecked_fault {is : List Instr} {h : Hart} {a : BitVec 64} (stores : a ∈ targets is h)
    (denied : allowed a = false) (k : Nat) :
    ∃ fault done, runChecked allowed k is h = .error fault ∧ done <+: is ∧ fault.hart = runBlock done h := by
  induction is generalizing h k with
  | nil => cases stores
  | cons i is ih =>
    have onward (later : a ∈ targets is (i.exec h)) : ∃ fault done,
        runChecked allowed (k + 1) is (i.exec h) = .error fault ∧ done <+: i :: is ∧ fault.hart = runBlock done h := by
      obtain ⟨fault, done, ends, before, hart⟩ := ih later (k + 1)
      exact ⟨fault, i :: done, ends, (List.prefix_cons_inj i).mpr before, hart⟩
    rw [targets, List.mem_append] at stores
    rw [runChecked]
    cases target : i.target h with
    | none =>
      rw [target] at stores
      exact onward (stores.resolve_left List.not_mem_nil)
    | some b =>
      rw [target] at stores
      cases fine : allowed b with
      | false => exact ⟨⟨k, b, h⟩, [], by simp only [fine, Bool.false_eq_true, if_false], List.nil_prefix, rfl⟩
      | true =>
        have other : a ∉ [b] := by
          rw [List.mem_singleton]
          rintro rfl
          rw [denied] at fine
          cases fine
        simp only [fine, if_true]
        exact onward (stores.resolve_left other)

theorem exec_mode (i : Instr) (h : Hart) : (i.exec h).mode = h.mode := by
  cases i <;> rfl

theorem runBlock_mode (is : List Instr) (h : Hart) : (runBlock is h).mode = h.mode := by
  induction is generalizing h with
  | nil => rfl
  | cons i is ih => rw [runBlock_cons, ih, exec_mode]

theorem exec_x_other {i : Instr} {h : Hart} {r : Reg} (other : i.dest ≠ some r) : (i.exec h).x r = h.x r := by
  have away {rd : Reg} (apart : (some rd : Option Reg) ≠ some r) (v : BitVec 64) : (h.setReg rd v).x r = h.x r :=
    Function.update_of_ne (fun same => apart (by rw [same])) _ _
  cases i with
  | csrw c rs => rfl
  | sd rs off base => rfl
  | csrr rd c => exact away other _
  | addi rd rs imm => exact away other _
  | mv rd rs => exact away other _
  | ld rd off base => exact away other _

/-- A register that no instruction of a block writes keeps its value. -/
theorem runBlock_x_other {is : List Instr} {h : Hart} {r : Reg} (others : ∀ i ∈ is, i.dest ≠ some r) :
    (runBlock is h).x r = h.x r := by
  induction is generalizing h with
  | nil => rfl
  | cons i is ih =>
    rw [runBlock_cons, ih fun j member => others j (List.mem_cons_of_mem i member),
      exec_x_other (others i List.mem_cons_self)]

end Blocks

/-- Doubleword stores change the bytes of their slots only. -/
theorem storeAll_other {m : Mem} {p b : BitVec 64} {slots : List (Nat × BitVec 64)}
    (other : ∀ s ∈ slots, 8 ≤ (b - (p + BitVec.ofNat 64 s.1)).toNat) : storeAll m p slots b = m b := by
  induction slots generalizing m with
  | nil => rfl
  | cons s slots ih =>
    have rest := ih (m := storeD m (p + BitVec.ofNat 64 s.1) s.2) fun t member =>
      other t (List.mem_cons_of_mem s member)
    have here := other s List.mem_cons_self
    exact rest.trans (if_neg (by omega))

/-! ## Accesses of several bytes under protection -/

namespace Pmp

/-- Whether an access of kind `k` to the `n` bytes at `a` is allowed. The lowest-numbered entry that matches any of
them has to match them all. -/
def File.permitsN (f : File) (n : Nat) (mode : Mode) (k : Access) (a : BitVec 64) : Bool :=
  ((List.range n).all fun j => f.firstMatch (a + BitVec.ofNat 64 j).toNat == f.firstMatch a.toNat) &&
    f.permits mode k a.toNat

/-- It is then allowed to every byte. -/
theorem permits_of_permitsN {f : File} {n : Nat} {mode : Mode} {k : Access} {a : BitVec 64}
    (fine : f.permitsN n mode k a = true) {j : Nat} (small : j < n) :
    f.permits mode k (a + BitVec.ofNat 64 j).toNat = true := by
  rw [File.permitsN, Bool.and_eq_true, List.all_eq_true] at fine
  have same := eq_of_beq (fine.1 j (List.mem_range.mpr small))
  rw [File.permits, same]
  exact fine.2

/-- Entries without rights for the first eight bytes change nothing about an access that stays on one side of
their bound. -/
theorem BareTail.permitsN {f g : File} {n : Nat} (tail : BareTail f g n) {width : Nat} {a : BitVec 64}
    (side : a.toNat + width ≤ 8 ∨ 8 ≤ a.toNat ∧ a.toNat + width ≤ 2 ^ 64) (mode : Mode) (k : Access) :
    g.permitsN width mode k a = f.permitsN width mode k a := by
  have same (j : Nat) (small : j < width) : g.firstMatch (a + BitVec.ofNat 64 j).toNat = g.firstMatch a.toNat ↔
      f.firstMatch (a + BitVec.ofNat 64 j).toNat = f.firstMatch a.toNat := by
    have place : (a + BitVec.ofNat 64 j).toNat = a.toNat + j := by
      rw [BitVec.toNat_add, BitVec.toNat_ofNat]
      omega
    exact tail.firstMatch_eq_iff (by omega)
  have bytes : ((List.range width).all fun j => g.firstMatch (a + BitVec.ofNat 64 j).toNat == g.firstMatch a.toNat) =
      (List.range width).all fun j => f.firstMatch (a + BitVec.ofNat 64 j).toNat == f.firstMatch a.toNat := by
    rw [Bool.eq_iff_iff, List.all_eq_true, List.all_eq_true]
    refine forall₂_congr fun j member => ?_
    rw [beq_iff_eq, beq_iff_eq, same j (List.mem_range.mp member)]
  rw [File.permitsN, File.permitsN, bytes, tail.permits]

end Pmp

end Riscv
