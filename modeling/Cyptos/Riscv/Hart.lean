import Cyptos.Riscv.Word
import Cyptos.Riscv.Status

/-!
# A hart and straight-line machine code

Registers, the trap CSRs and byte memory, with the few instructions that a trap vector
is written in. A block of `sd` through one base register saves a register bank; a block
of `ld` restores it. `runBlock_sds`, `loadD_storeAll` and `runBlock_lds_x` say so for every
table of registers and offsets whose slots do not overlap, so a concrete vector only has to
be compared with its table.
-/

namespace Riscv
set_option autoImplicit false

/-- General-purpose registers, by ABI name; `x0` is not a register here. -/
inductive Reg
  | ra | sp | gp | tp
  | t0 | t1 | t2 | t3 | t4 | t5 | t6
  | s0 | s1 | s2 | s3 | s4 | s5 | s6 | s7 | s8 | s9 | s10 | s11
  | a0 | a1 | a2 | a3 | a4 | a5 | a6 | a7
  deriving DecidableEq, Repr

abbrev Mem := BitVec 64 → BitVec 8

/-- The doubleword at address `p`. -/
def loadD (m : Mem) (p : BitVec 64) : BitVec 64 := ofBytes fun i => m (p + BitVec.ofNat 64 i)

/-- Memory after a doubleword store at `p`; the address may be misaligned and may wrap. -/
def storeD (m : Mem) (p v : BitVec 64) : Mem := fun b =>
  if (b - p).toNat < 8 then byteAt v (b - p).toNat else m b

/-- The CSRs that a trap reads and writes. -/
structure Csrs where
  mstatus : BitVec 64
  mepc : BitVec 64
  mcause : BitVec 64
  mtval : BitVec 64
  mscratch : BitVec 64
  deriving DecidableEq, Repr

structure Hart where
  x : Reg → BitVec 64
  pc : BitVec 64
  mode : Mode
  csr : Csrs
  mem : Mem

/-- Hardware trap entry with cause `cause` and trap value `tval`. -/
def Hart.trapEntry (h : Hart) (cause tval : BitVec 64) : Hart :=
  { h with
    mode := .machine
    csr := { h.csr with mstatus := Status.trap h.mode h.csr.mstatus, mepc := h.pc, mcause := cause, mtval := tval } }

/-- `mret`. -/
def Hart.mret (h : Hart) : Hart :=
  { h with
    pc := h.csr.mepc
    mode := Status.mretMode h.csr.mstatus
    csr := { h.csr with mstatus := Status.mret h.csr.mstatus } }

/-! ## Instruction encodings -/

/-- The halfword at address `p`. -/
def loadH (m : Mem) (p : BitVec 64) : BitVec 16 := m (p + 1) ++ m p

/-- The word at address `p`. -/
def loadW (m : Mem) (p : BitVec 64) : BitVec 32 := loadH m (p + 2) ++ loadH m p

/-- The length of the instruction at `p`, compressed or not. -/
def instrLength (m : Mem) (p : BitVec 64) : BitVec 64 := if loadH m p &&& 0b11 = 0b11 then 4 else 2

def ecallWord : BitVec 32 := 0x0000_0073
def ebreakWord : BitVec 32 := 0x0010_0073
def cEbreakHalf : BitVec 16 := 0x9002

/-- The low half of a word decides about its length. -/
theorem loadH_of_loadW {m : Mem} {p : BitVec 64} {w : BitVec 32} (word : loadW m p = w) :
    loadH m p = w.setWidth 16 := by
  rw [← word, loadW, BitVec.setWidth_append]
  simp

inductive Csr
  | mscratch | mepc | mstatus
  deriving DecidableEq, Repr

def Csrs.get (c : Csrs) : Csr → BitVec 64
  | .mscratch => c.mscratch
  | .mepc => c.mepc
  | .mstatus => c.mstatus

def Csrs.set (c : Csrs) (r : Csr) (v : BitVec 64) : Csrs :=
  match r with
  | .mscratch => { c with mscratch := v }
  | .mepc => { c with mepc := v }
  | .mstatus => { c with mstatus := v }

inductive Instr
  | csrw (c : Csr) (rs : Reg)
  | csrr (rd : Reg) (c : Csr)
  | addi (rd rs : Reg) (imm : Int)
  | mv (rd rs : Reg)
  | sd (rs : Reg) (off : Nat) (base : Reg)
  | ld (rd : Reg) (off : Nat) (base : Reg)
  deriving DecidableEq, Repr

def Hart.setReg (h : Hart) (rd : Reg) (v : BitVec 64) : Hart := { h with x := Function.update h.x rd v }

def Instr.exec (h : Hart) : Instr → Hart
  | .csrw c rs => { h with csr := h.csr.set c (h.x rs) }
  | .csrr rd c => h.setReg rd (h.csr.get c)
  | .addi rd rs imm => h.setReg rd (h.x rs + BitVec.ofInt 64 imm)
  | .mv rd rs => h.setReg rd (h.x rs)
  | .sd rs off base => { h with mem := storeD h.mem (h.x base + BitVec.ofNat 64 off) (h.x rs) }
  | .ld rd off base => h.setReg rd (loadD h.mem (h.x base + BitVec.ofNat 64 off))

/-- Straight-line execution. -/
def runBlock (is : List Instr) (h : Hart) : Hart := is.foldl Instr.exec h

/-- The byte addresses that one instruction stores to. -/
def Instr.stored (h : Hart) : Instr → List (BitVec 64)
  | .sd _ off base => (List.range 8).map fun i => h.x base + BitVec.ofNat 64 off + BitVec.ofNat 64 i
  | _ => []

/-- The byte addresses that a block stores to, in order. -/
def storedBytes : List Instr → Hart → List (BitVec 64)
  | [], _ => []
  | i :: is, h => i.stored h ++ storedBytes is (i.exec h)

/-! ## Memory -/

@[simp] theorem loadD_storeD_same (m : Mem) (p v : BitVec 64) : loadD (storeD m p v) p = v := by
  apply eq_of_byteAt
  intro i
  have offset : (p + BitVec.ofNat 64 i.val - p).toNat = i.val := by
    have := i.isLt
    bv_omega
  simp only [loadD, byteAt_ofBytes, storeD, offset, i.isLt, if_true]

/-- A load that no byte of a store falls into. -/
theorem loadD_storeD_other {m : Mem} {p q v : BitVec 64}
    (apart : ∀ i : Fin 8, 8 ≤ (q + BitVec.ofNat 64 i - p).toNat) : loadD (storeD m p v) q = loadD m q := by
  simp only [loadD]
  congr 1
  funext i
  simp only [storeD]
  rw [if_neg (by have := apart i; omega)]

/-- Two slots of a frame do not overlap. -/
def Apart (a b : Nat) : Prop := a + 8 ≤ b ∨ b + 8 ≤ a

instance (a b : Nat) : Decidable (Apart a b) := inferInstanceAs (Decidable (a + 8 ≤ b ∨ b + 8 ≤ a))

theorem loadD_storeD_apart {m : Mem} {p v : BitVec 64} {a b : Nat} (apart : Apart a b)
    (small : a < 2 ^ 63) (small' : b < 2 ^ 63) :
    loadD (storeD m (p + BitVec.ofNat 64 a) v) (p + BitVec.ofNat 64 b) = loadD m (p + BitVec.ofNat 64 b) := by
  apply loadD_storeD_other
  intro i
  have := i.isLt
  rcases apart with h | h <;> bv_omega

/-- Memory after a list of doubleword stores at offsets from `p`, in order. -/
def storeAll (m : Mem) (p : BitVec 64) (slots : List (Nat × BitVec 64)) : Mem :=
  slots.foldl (fun m s => storeD m (p + BitVec.ofNat 64 s.1) s.2) m

theorem storeAll_append (m : Mem) (p : BitVec 64) (first second : List (Nat × BitVec 64)) :
    storeAll m p (first ++ second) = storeAll (storeAll m p first) p second := List.foldl_append

/-- The slots of a bank do not overlap and lie close to its base. -/
structure Separate (slots : List Nat) : Prop where
  apart : slots.Pairwise Apart
  small : ∀ s ∈ slots, s < 2 ^ 63

theorem Separate.tail {s : Nat} {slots : List Nat} (h : Separate (s :: slots)) : Separate slots :=
  ⟨(List.pairwise_cons.mp h.apart).2, fun t ht => h.small t (List.mem_cons_of_mem s ht)⟩

/-- A slot outside a bank keeps its contents. -/
theorem loadD_storeAll_other {m : Mem} {p : BitVec 64} {slots : List (Nat × BitVec 64)} {b : Nat}
    (apart : ∀ s ∈ slots, Apart s.1 b) (small : ∀ s ∈ slots, s.1 < 2 ^ 63) (small' : b < 2 ^ 63) :
    loadD (storeAll m p slots) (p + BitVec.ofNat 64 b) = loadD m (p + BitVec.ofNat 64 b) := by
  induction slots generalizing m with
  | nil => rfl
  | cons s slots ih =>
    have step := ih (m := storeD m (p + BitVec.ofNat 64 s.1) s.2) (fun t ht => apart t (by simp [ht]))
      (fun t ht => small t (by simp [ht]))
    exact step.trans (loadD_storeD_apart (apart s (by simp)) (small s (by simp)) small')

/-- The `len` bytes at `p` and the `len'` bytes at `q` have none in common; addresses wrap. -/
def RangesApart (p : BitVec 64) (len : Nat) (q : BitVec 64) (len' : Nat) : Prop :=
  ∀ i < len, ∀ j < len', p + BitVec.ofNat 64 i ≠ q + BitVec.ofNat 64 j

/-- What lies apart from a bank keeps its contents. -/
theorem loadD_storeAll_apart {m : Mem} {p q : BitVec 64} {len len' : Nat} (apart : RangesApart p len q len')
    {slots : List (Nat × BitVec 64)} (inside : ∀ s ∈ slots, s.1 + 8 ≤ len) {off : Nat} (within : off + 8 ≤ len') :
    loadD (storeAll m p slots) (q + BitVec.ofNat 64 off) = loadD m (q + BitVec.ofNat 64 off) := by
  induction slots generalizing m with
  | nil => rfl
  | cons s slots ih =>
    have step := ih (m := storeD m (p + BitVec.ofNat 64 s.1) s.2) fun t member =>
      inside t (List.mem_cons_of_mem s member)
    refine step.trans (loadD_storeD_other fun i => ?_)
    have room := inside s List.mem_cons_self
    by_contra hit
    -- a byte of the load that falls into the slot lies in both ranges
    generalize distance : (q + BitVec.ofNat 64 off + BitVec.ofNat 64 i.val - (p + BitVec.ofNat 64 s.1)).toNat = k at hit
    have bound := i.isLt
    apply apart (s.1 + k) (by omega) (off + i.val) (by omega)
    rw [BitVec.ofNat_add, BitVec.ofNat_add, ← distance, BitVec.ofNat_toNat, BitVec.setWidth_eq]
    bv_omega

/-- Every stored slot reads back. -/
theorem loadD_storeAll {m : Mem} {p : BitVec 64} {slots : List (Nat × BitVec 64)}
    (separate : Separate (slots.map Prod.fst)) {s : Nat × BitVec 64} (member : s ∈ slots) :
    loadD (storeAll m p slots) (p + BitVec.ofNat 64 s.1) = s.2 := by
  induction slots generalizing m with
  | nil => simp at member
  | cons t slots ih =>
    rcases List.mem_cons.mp member with same | member
    · subst same
      -- nothing later in the bank reaches the slot just written
      have head := (List.pairwise_cons.mp separate.apart).1
      have keep : loadD (storeAll (storeD m (p + BitVec.ofNat 64 s.1) s.2) p slots) _ = _ :=
        loadD_storeAll_other (b := s.1) (fun t ht => (head t.1 (List.mem_map_of_mem ht)).symm)
          (fun t ht => separate.tail.small t.1 (List.mem_map_of_mem ht)) (separate.small s.1 (by simp))
      exact keep.trans (loadD_storeD_same _ _ _)
    · exact ih separate.tail member

theorem loadD_storeAll_slot {m : Mem} {p : BitVec 64} {slots : List (Nat × BitVec 64)}
    (separate : Separate (slots.map Prod.fst)) {off : Nat} {v : BitVec 64} (member : (off, v) ∈ slots) :
    loadD (storeAll m p slots) (p + BitVec.ofNat 64 off) = v := by
  have read := loadD_storeAll (m := m) (p := p) separate member
  simpa only using read

/-! ## Saving a register bank -/

/-- The block that stores each listed register at its offset from `base`. -/
def sds (base : Reg) (table : List (Reg × Nat)) : List Instr := table.map fun e => .sd e.1 e.2 base

/-- The block that loads each listed register from its offset from `base`. -/
def lds (base : Reg) (table : List (Reg × Nat)) : List Instr := table.map fun e => .ld e.1 e.2 base

@[simp] theorem runBlock_nil (h : Hart) : runBlock [] h = h := rfl

@[simp] theorem runBlock_cons (i : Instr) (is : List Instr) (h : Hart) :
    runBlock (i :: is) h = runBlock is (i.exec h) := rfl

theorem runBlock_append (is js : List Instr) (h : Hart) :
    runBlock (is ++ js) h = runBlock js (runBlock is h) := by
  simp [runBlock, List.foldl_append]

/-- A save block stores the bank and changes nothing else. -/
theorem runBlock_sds (base : Reg) (table : List (Reg × Nat)) (h : Hart) :
    runBlock (sds base table) h =
      { h with mem := storeAll h.mem (h.x base) (table.map fun e => (e.2, h.x e.1)) } := by
  induction table generalizing h with
  | nil => rfl
  | cons e table ih =>
    simp only [sds, List.map_cons, runBlock_cons] at ih ⊢
    rw [ih]
    rfl

/-! ## Restoring a register bank -/

/-- A restore block changes registers only. -/
theorem runBlock_lds (base : Reg) (table : List (Reg × Nat)) (h : Hart) :
    runBlock (lds base table) h = { h with x := (runBlock (lds base table) h).x } := by
  induction table generalizing h with
  | nil => rfl
  | cons e table ih =>
    simp only [lds, List.map_cons, runBlock_cons] at ih ⊢
    rw [ih]
    rfl

/-- A register that a restore block does not load keeps its value. -/
theorem runBlock_lds_x_other {base : Reg} {table : List (Reg × Nat)} {h : Hart} {r : Reg}
    (absent : ∀ e ∈ table, e.1 ≠ r) : (runBlock (lds base table) h).x r = h.x r := by
  induction table generalizing h with
  | nil => rfl
  | cons e table ih =>
    have step := ih (h := Instr.exec h (.ld e.1 e.2 base)) (fun d hd => absent d (by simp [hd]))
    simp only [lds, List.map_cons, runBlock_cons] at step ⊢
    rw [step]
    exact Function.update_of_ne (absent e (by simp)).symm _ _

/-- Every loaded register holds its slot, as long as the base register is loaded last. -/
theorem runBlock_lds_x {base : Reg} {table : List (Reg × Nat)} {h : Hart}
    (separate : table.Pairwise fun d e => d.1 ≠ e.1 ∧ d.1 ≠ base) {e : Reg × Nat} (member : e ∈ table) :
    (runBlock (lds base table) h).x e.1 = loadD h.mem (h.x base + BitVec.ofNat 64 e.2) := by
  induction table generalizing h with
  | nil => simp at member
  | cons d table ih =>
    obtain ⟨head, tail⟩ := List.pairwise_cons.mp separate
    simp only [lds, List.map_cons, runBlock_cons]
    rcases List.mem_cons.mp member with same | member
    · subst same
      have keep : (runBlock (lds base table) (Instr.exec h (.ld e.1 e.2 base))).x e.1 = _ :=
        runBlock_lds_x_other fun c hc => (head c hc).1.symm
      exact keep.trans (Function.update_self _ _ _)
    · have rest := ih (h := Instr.exec h (.ld d.1 d.2 base)) tail member
      simp only [lds] at rest
      rw [rest]
      have unchanged : (Instr.exec h (.ld d.1 d.2 base)).x base = h.x base :=
        Function.update_of_ne (head e member).2.symm _ _
      rw [unchanged]
      rfl

/-! ## Stored bytes -/

theorem storedBytes_append (is js : List Instr) (h : Hart) :
    storedBytes (is ++ js) h = storedBytes is h ++ storedBytes js (runBlock is h) := by
  induction is generalizing h with
  | nil => rfl
  | cons i is ih => simp only [List.cons_append, storedBytes, ih, runBlock_cons, List.append_assoc]

/-- A save block stores to the eight bytes of each of its slots. -/
theorem mem_storedBytes_sds {base : Reg} {table : List (Reg × Nat)} {h : Hart} {b : BitVec 64} :
    b ∈ storedBytes (sds base table) h ↔
      ∃ e ∈ table, ∃ i < 8, b = h.x base + BitVec.ofNat 64 e.2 + BitVec.ofNat 64 i := by
  induction table generalizing h with
  | nil => simp [sds, storedBytes]
  | cons e table ih =>
    have step := ih (h := Instr.exec h (.sd e.1 e.2 base))
    simp only [sds] at step
    simp only [sds, List.map_cons, storedBytes, List.mem_append, step, List.exists_mem_cons_iff]
    apply or_congr
    · simp [Instr.stored, eq_comm]
    · rfl

end Riscv
