import Cyptos.Kernel.Pmp
import Cyptos.Logic.Numerals

/-!
# What the PMP driver programs

`load_task_config` packs the configuration bytes of entries 4 to 15 into two words while it
writes the address registers. Byte by byte, the result is the new task's table and nothing of
what the entries held before; entries 0 to 3 are written back as they were. `init` leaves the
kernel's four entries, the last three locked, and every other entry clear. `dump_config` shows the
configuration bytes.
-/

namespace Cyptos
set_option autoImplicit false
open Riscv Riscv.Pmp

/-! ## Loading a task -/

/-- The configuration byte that a task region is programmed with. -/
def PmpRegion.cfg (r : PmpRegion) : BitVec 8 := if r.size = 0 then 0 else r.flags ||| Flags.aNapot

/-- The address that a task region is programmed with. -/
def PmpRegion.addr (r : PmpRegion) : BitVec 64 := if r.size = 0 then 0 else r.napotAddr

/-- Entries 4 to 15 hold a table of regions. -/
structure TaskMap (regions : Fin pmpCount → PmpRegion) (f : File) : Prop where
  cfg : ∀ i : Fin pmpCount, 4 ≤ i.val → f.cfg i = (regions i).cfg
  addr : ∀ i : Fin pmpCount, 4 ≤ i.val → f.addr i = f.legal (regions i).addr

/-- No task entry is locked. -/
def TaskUnlocked (f : File) : Prop := ∀ i : Fin pmpCount, 4 ≤ i.val → locked (f.cfg i) = false

/-- The configuration word of one bank. -/
def LoadState.word (s : LoadState) (b : Fin 2) : BitVec 64 := if b.val = 0 then s.taskCfg0High else s.cfg2

/-- One iteration writes one address register and adds one byte to its word. -/
theorem loadEntry_eq (regions : List PmpRegion) (s : LoadState) (idx : Fin pmpCount) :
    loadEntry regions s idx =
      { regs := writePmpaddr s.regs idx (regionAt regions idx).addr
        taskCfg0High := if idx.val < 8 then s.taskCfg0High ||| placeByte (regionAt regions idx).cfg (byteOf idx)
          else s.taskCfg0High
        cfg2 := if idx.val < 8 then s.cfg2 else s.cfg2 ||| placeByte (regionAt regions idx).cfg (byteOf idx) } := by
  have shift : idx.val % 8 * 8 = 8 * (byteOf idx).val := Nat.mul_comm _ _
  by_cases empty : (regionAt regions idx).size = 0
  · simp [loadEntry, PmpRegion.addr, PmpRegion.cfg, empty, placeByte]
  · by_cases low : idx.val < 8
    · simp only [loadEntry, PmpRegion.addr, PmpRegion.cfg, if_neg empty, if_pos low, placeByte, shift]
    · simp only [loadEntry, PmpRegion.addr, PmpRegion.cfg, if_neg empty, if_neg low, placeByte, shift]

theorem byteAt_loadEntry (regions : List PmpRegion) (s : LoadState) (idx : Fin pmpCount) (b : Fin 2) (j : Fin 8) :
    byteAt ((loadEntry regions s idx).word b) j =
      byteAt (s.word b) j ||| if entryOf b j = idx then (regionAt regions idx).cfg else 0 := by
  have entry : entryOf b j = idx ↔ b = bankOf idx ∧ j = byteOf idx := by
    constructor
    · rintro rfl
      exact ⟨(bankOf_entryOf b j).symm, (byteOf_entryOf b j).symm⟩
    · rintro ⟨rfl, rfl⟩
      exact entryOf_bank_byte idx
  have bank : idx.val < 8 ↔ bankOf idx = 0 := by
    simp only [Fin.ext_iff, bankOf, Fin.val_zero]
    omega
  rw [loadEntry_eq]
  simp only [LoadState.word, entry, bank]
  obtain rfl | rfl : b = 0 ∨ b = 1 := by omega
  · by_cases first : bankOf idx = 0
    · simp [first, byteAt_placeByte]
    · simp [first, Ne.symm first]
  · by_cases first : bankOf idx = 0
    · simp [first]
    · have second : bankOf idx = 1 := by omega
      simp [second, byteAt_placeByte]

section Loop

variable (regions : List PmpRegion)

theorem loadLoop_cfg (es : List (Fin pmpCount)) (s : LoadState) :
    (es.foldl (loadEntry regions) s).regs.file.cfg = s.regs.file.cfg := by
  induction es generalizing s with
  | nil => rfl
  | cons e es ih =>
    rw [List.foldl_cons, ih, loadEntry_eq]
    exact writeAddr_cfg _ _ _

theorem loadLoop_addrBits (es : List (Fin pmpCount)) (s : LoadState) :
    (es.foldl (loadEntry regions) s).regs.file.addrBits = s.regs.file.addrBits := by
  induction es generalizing s with
  | nil => rfl
  | cons e es ih =>
    rw [List.foldl_cons, ih, loadEntry_eq]
    exact writeAddr_addrBits _ _ _

/-- The loop leaves the address registers it does not visit. -/
theorem loadLoop_addr_other {es : List (Fin pmpCount)} {s : LoadState} {j : Fin pmpCount} (out : j ∉ es) :
    (es.foldl (loadEntry regions) s).regs.file.addr j = s.regs.file.addr j := by
  induction es generalizing s with
  | nil => rfl
  | cons e es ih =>
    obtain ⟨here, rest⟩ := not_or.mp (fun h => out (List.mem_cons.mpr h))
    rw [List.foldl_cons, ih rest, loadEntry_eq]
    exact writeAddr_addr_other _ here

/-- The loop programs every address register it visits. -/
theorem loadLoop_addr {es : List (Fin pmpCount)} {s : LoadState} {j : Fin pmpCount} (visited : j ∈ es)
    (free : ∀ e ∈ es, s.regs.file.addrLocked e = false) :
    (es.foldl (loadEntry regions) s).regs.file.addr j = s.regs.file.legal (regionAt regions j).addr := by
  induction es generalizing s with
  | nil => simp at visited
  | cons e es ih =>
    have cfg : (loadEntry regions s e).regs.file.cfg = s.regs.file.cfg := by
      rw [loadEntry_eq]; exact writeAddr_cfg _ _ _
    have bits : (loadEntry regions s e).regs.file.addrBits = s.regs.file.addrBits := by
      rw [loadEntry_eq]; exact writeAddr_addrBits _ _ _
    rw [List.foldl_cons]
    by_cases later : j ∈ es
    · rw [ih later fun d hd => ?_]
      · simp only [File.legal, bits]
      · have := free d (by simp [hd])
        simpa only [File.addrLocked, cfg] using this
    · obtain rfl : j = e := (List.mem_cons.mp visited).resolve_right later
      rw [loadLoop_addr_other regions later, loadEntry_eq]
      exact writeAddr_addr_same _ (free j (by simp))

/-- The words collect the byte of every visited entry. -/
theorem byteAt_loadLoop (es : List (Fin pmpCount)) (s : LoadState) (b : Fin 2) (j : Fin 8) :
    byteAt ((es.foldl (loadEntry regions) s).word b) j =
      byteAt (s.word b) j ||| if entryOf b j ∈ es then (regionAt regions (entryOf b j)).cfg else 0 := by
  induction es generalizing s with
  | nil => simp
  | cons e es ih =>
    rw [List.foldl_cons, ih, byteAt_loadEntry]
    by_cases here : entryOf b j = e
    · subst here
      by_cases again : entryOf b j ∈ es <;> simp [again, BitVec.or_assoc]
    · simp [here]

end Loop

theorem mem_taskEntries (i : Fin pmpCount) : i ∈ taskEntries ↔ 4 ≤ i.val := by
  revert i
  decide

/-- The kernel half of `pmpcfg0`. -/
theorem byteAt_kernelBits (w : BitVec 64) (j : Fin 8) :
    byteAt (w &&& 0x0000_0000_FFFF_FFFF) j = if j.val < 4 then byteAt w j else 0 := by
  have mask : ∀ j : Fin 8, byteAt 0x0000_0000_FFFF_FFFF j = if j.val < 4 then 0xFF#8 else 0 := by decide
  rw [byteAt_and, mask]
  split
  · exact BitVec.and_allOnes
  · simp

section Bank

variable {i : Fin pmpCount}

theorem bankOf_kernel (kernel : i.val < 4) : bankOf i = 0 := by
  simp only [Fin.ext_iff, bankOf, Fin.val_zero]
  omega

/-- The kernel half of `pmpcfg0` holds the bytes of entries 0 to 3. -/
theorem byteAt_kernelBits_kernel (p : Regs) (kernel : i.val < 4) :
    byteAt (readPmpcfg0 p &&& 0x0000_0000_FFFF_FFFF) (byteOf i) = p.file.cfg i := by
  have byte : (byteOf i).val < 4 := by
    simp only [byteOf]
    omega
  rw [byteAt_kernelBits, if_pos byte, readPmpcfg0, byteAt_readCfg, ← bankOf_kernel kernel, entryOf_bank_byte]

theorem byteAt_kernelBits_task (w : BitVec 64) (task : 4 ≤ i.val) (bank : bankOf i = 0) :
    byteAt (w &&& 0x0000_0000_FFFF_FFFF) (byteOf i) = 0 := by
  have byte : ¬ (byteOf i).val < 4 := by
    simp only [Fin.ext_iff, bankOf, Fin.val_zero] at bank
    simp only [byteOf]
    omega
  rw [byteAt_kernelBits, if_neg byte]

end Bank

/-- The CSRs after `load_task_config` switched the task entries off. -/
def cleared (p : Regs) : Regs := writePmpcfg2 (writePmpcfg0 p (readPmpcfg0 p &&& 0x0000_0000_FFFF_FFFF)) 0

theorem cleared_kernel (p : Regs) {i : Fin pmpCount} (kernel : i.val < 4) : (cleared p).file.cfg i = p.file.cfg i := by
  have second : (cleared p).file.cfg i = (p.file.writeCfg 0 (readPmpcfg0 p &&& 0x0000_0000_FFFF_FFFF)).cfg i :=
    writeCfg_cfg_other _ (by rw [bankOf_kernel kernel]; decide)
  rw [second]
  exact writeCfg_cfg_same _ fun _ => byteAt_kernelBits_kernel p kernel

theorem cleared_task {p : Regs} (free : TaskUnlocked p.file) {i : Fin pmpCount} (task : 4 ≤ i.val) :
    (cleared p).file.cfg i = 0 := by
  have unlocked := free i task
  by_cases bank : bankOf i = 0
  · have second : (cleared p).file.cfg i = (p.file.writeCfg 0 (readPmpcfg0 p &&& 0x0000_0000_FFFF_FFFF)).cfg i :=
      writeCfg_cfg_other _ (by rw [bank]; decide)
    rw [second, writeCfg_cfg, if_pos ⟨bank, unlocked⟩, byteAt_kernelBits_task _ task bank]
  · have second : bankOf i = 1 := by omega
    have first : (p.file.writeCfg 0 (readPmpcfg0 p &&& 0x0000_0000_FFFF_FFFF)).cfg i = p.file.cfg i :=
      writeCfg_cfg_other _ bank
    have here : (cleared p).file.cfg i = _ := writeCfg_cfg (p.file.writeCfg 0 _) 1 0 i
    rw [here, first, if_pos ⟨second, unlocked⟩]
    exact byteAt_zero _

/-- The state of the entry loop when it ends. -/
def loaded (p : Regs) (regions : List PmpRegion) : LoadState :=
  taskEntries.foldl (loadEntry regions) ⟨cleared p, 0, 0⟩

theorem loadTaskConfig_eq (p : Regs) (regions : List PmpRegion) :
    loadTaskConfig p regions =
      writePmpcfg2 (writePmpcfg0 (loaded p regions).regs
        ((readPmpcfg0 p &&& 0x0000_0000_FFFF_FFFF) ||| (loaded p regions).word 0)) ((loaded p regions).word 1) := rfl

section Loaded

variable (p : Regs) (regions : List PmpRegion)

theorem loaded_cfg : (loaded p regions).regs.file.cfg = (cleared p).file.cfg := loadLoop_cfg _ _ _

theorem loaded_addrBits : (loaded p regions).regs.file.addrBits = p.file.addrBits := loadLoop_addrBits _ _ _

theorem byteAt_loaded (b : Fin 2) (j : Fin 8) :
    byteAt ((loaded p regions).word b) j =
      if 4 ≤ (entryOf b j).val then (regionAt regions (entryOf b j)).cfg else 0 := by
  simp only [loaded, byteAt_loadLoop, mem_taskEntries]
  simp [LoadState.word]

@[simp] theorem loadTaskConfig_addrBits : (loadTaskConfig p regions).file.addrBits = p.file.addrBits :=
  loaded_addrBits p regions

theorem loadTaskConfig_addr : (loadTaskConfig p regions).file.addr = (loaded p regions).regs.file.addr := rfl

/-- The two final configuration writes, seen from one entry that is clear before them. -/
theorem loadTaskConfig_cfg (i : Fin pmpCount) :
    (loadTaskConfig p regions).file.cfg i =
      if locked ((cleared p).file.cfg i) = false then
        byteAt ((if bankOf i = 0 then readPmpcfg0 p &&& 0x0000_0000_FFFF_FFFF else 0) |||
          (loaded p regions).word (bankOf i)) (byteOf i)
      else (cleared p).file.cfg i := by
  rw [loadTaskConfig_eq]
  simp only [writePmpcfg0, writePmpcfg2, Regs.write, File.apply, writeCfg_cfg, loaded_cfg]
  obtain bank | bank : bankOf i = 0 ∨ bankOf i = 1 := by omega
  · simp [bank]
  · simp [bank]

/-- Entries 0 to 3 are written back as they were, locked or not. -/
theorem loadTaskConfig_kernel_cfg {i : Fin pmpCount} (kernel : i.val < 4) :
    (loadTaskConfig p regions).file.cfg i = p.file.cfg i := by
  rw [loadTaskConfig_cfg, cleared_kernel p kernel, if_pos (bankOf_kernel kernel)]
  have task : ¬ 4 ≤ i.val := by omega
  split
  · rw [byteAt_or, byteAt_kernelBits_kernel p kernel, byteAt_loaded, entryOf_bank_byte, if_neg task]
    simp
  · rfl

theorem loadTaskConfig_kernel_addr {i : Fin pmpCount} (kernel : i.val < 4) :
    (loadTaskConfig p regions).file.addr i = p.file.addr i := by
  have out : i ∉ taskEntries := by rw [mem_taskEntries]; omega
  rw [loadTaskConfig_addr]
  exact loadLoop_addr_other regions out

/-- **Loading a task.** Entries 4 to 15 become the given table, whatever they held before. -/
theorem loadTaskConfig_task (free : TaskUnlocked p.file) :
    TaskMap (regionAt regions) (loadTaskConfig p regions).file := by
  constructor
  · intro i task
    have clear := cleared_task free task
    have unlocked : locked (0 : BitVec 8) = false := rfl
    rw [loadTaskConfig_cfg, clear, if_pos unlocked, byteAt_or, byteAt_loaded, entryOf_bank_byte, if_pos task]
    split
    · rename_i bank
      rw [byteAt_kernelBits_task _ task bank]
      simp
    · simp
  · intro i task
    have unlocked : ∀ e ∈ taskEntries, (cleared p).file.addrLocked e = false := by
      intro e member
      rw [mem_taskEntries] at member
      apply addrLocked_of_unlocked
      · rw [cleared_task free member]; rfl
      · intro h
        rw [cleared_task free (i := ⟨e + 1, h⟩) (by simp only; omega)]; rfl
    have visited : i ∈ taskEntries := (mem_taskEntries i).mpr task
    have program : (loaded p regions).regs.file.addr i = (cleared p).file.legal (regionAt regions i).addr :=
      loadLoop_addr regions visited unlocked
    rw [loadTaskConfig_addr, program]
    simp only [File.legal, loadTaskConfig_addrBits]
    rfl

theorem regionAt_ofFn (table : Fin pmpCount → PmpRegion) : regionAt (List.ofFn table) = table := by
  funext i
  rw [regionAt, List.getElem?_ofFn, dif_pos i.isLt, Option.getD_some]

theorem loadTaskConfig_ofFn (table : Fin pmpCount → PmpRegion) (free : TaskUnlocked p.file) :
    TaskMap table (loadTaskConfig p (List.ofFn table)).file := by
  have task := loadTaskConfig_task p (List.ofFn table) free
  rw [regionAt_ofFn] at task
  exact task

end Loaded

/-! ## Loading over another task -/

/-- None of the regions for entries 4 to 15 carries the lock flag. -/
def Unlocking (regions : List PmpRegion) : Prop :=
  ∀ (i : Fin pmpCount) r, 4 ≤ i.val → regions[i.val]? = some r → locked r.flags = false

theorem regionAt_cases (regions : List PmpRegion) (i : Fin pmpCount) :
    regionAt regions i = .none ∨ regions[i.val]? = some (regionAt regions i) := by
  rw [regionAt]
  cases regions[i.val]? with
  | none => exact .inl rfl
  | some r => exact .inr rfl

theorem TaskMap.unlocked {regions : List PmpRegion} {f : File} (map : TaskMap (regionAt regions) f)
    (unlocking : Unlocking regions) : TaskUnlocked f := by
  intro i task
  rw [map.cfg i task, PmpRegion.cfg]
  split
  · rfl
  · rename_i used
    rcases regionAt_cases regions i with empty | here
    · rw [empty] at used
      exact absurd rfl used
    · have flags := unlocking i _ task here
      simpa [locked, Flags.aNapot] using flags

/-- Two register files with the same kernel entries that hold the same task are equal. -/
theorem TaskMap.file_eq {table : Fin pmpCount → PmpRegion} {f g : File} (first : TaskMap table f) (second : TaskMap table g)
    (bits : f.addrBits = g.addrBits) (cfg : ∀ i : Fin pmpCount, i.val < 4 → f.cfg i = g.cfg i)
    (addr : ∀ i : Fin pmpCount, i.val < 4 → f.addr i = g.addr i) : f = g := by
  obtain ⟨fBits, fCfg, fAddr⟩ := f
  obtain ⟨gBits, gCfg, gAddr⟩ := g
  obtain rfl : fBits = gBits := bits
  rw [File.mk.injEq]
  refine ⟨rfl, funext fun i => ?_, funext fun i => ?_⟩
  · rcases Nat.lt_or_ge i.val 4 with kernel | task
    · exact cfg i kernel
    · exact (first.cfg i task).trans (second.cfg i task).symm
  · rcases Nat.lt_or_ge i.val 4 with kernel | task
    · exact addr i kernel
    · exact (first.addr i task).trans (second.addr i task).symm

/-- Loading one task and then another leaves nothing of the first. -/
theorem loadTaskConfig_twice {p : Regs} (free : TaskUnlocked p.file) {earlier : List PmpRegion}
    (unlocking : Unlocking earlier) (regions : List PmpRegion) :
    (loadTaskConfig (loadTaskConfig p earlier) regions).file = (loadTaskConfig p regions).file := by
  have between := (loadTaskConfig_task p earlier free).unlocked unlocking
  apply (loadTaskConfig_task _ regions between).file_eq (loadTaskConfig_task p regions free)
  · simp only [loadTaskConfig_addrBits]
  · intro i kernel
    simp only [loadTaskConfig_kernel_cfg _ _ kernel]
  · intro i kernel
    simp only [loadTaskConfig_kernel_addr _ _ kernel]

/-- A register of 64 bits keeps what is written. -/
theorem legal_full {f : File} (bits : f.addrBits = 64) (v : BitVec 64) : f.legal v = v := by
  apply BitVec.eq_of_toNat_eq
  rw [toNat_legal, bits]
  exact Nat.mod_eq_of_lt v.isLt

/-- **What `load_task_config` computes**, on CSRs that hold all 64 bits written to them. An entry from
4 on holds the region of the slice at its index, or nothing; entries 0 to 3 are unchanged, locked or
not; what the entries held before, another task's table say, leaves no trace. -/
theorem load_task_config_exact {p : Regs} (bits : p.file.addrBits = 64) (free : TaskUnlocked p.file)
    (regions : List PmpRegion) :
    let f := (loadTaskConfig p regions).file
    (∀ (i : Fin pmpCount) r, 4 ≤ i.val → regions[i.val]? = some r → r.size ≠ 0 →
        f.cfg i = r.flags ||| Flags.aNapot ∧ f.addr i = r.napotAddr) ∧
      (∀ i : Fin pmpCount, 4 ≤ i.val → (∀ r, regions[i.val]? = some r → r.size = 0) → f.cfg i = 0 ∧ f.addr i = 0) ∧
      (∀ i : Fin pmpCount, i.val < 4 → f.cfg i = p.file.cfg i ∧ f.addr i = p.file.addr i) ∧
      (∀ q : Regs, q.file.addrBits = 64 → TaskUnlocked q.file → ∀ i : Fin pmpCount, 4 ≤ i.val →
        (loadTaskConfig q regions).file.cfg i = f.cfg i ∧ (loadTaskConfig q regions).file.addr i = f.addr i) ∧
      ∀ earlier, Unlocking earlier → (loadTaskConfig (loadTaskConfig p earlier) regions).file = f := by
  intro f
  have map := loadTaskConfig_task p regions free
  have keeps : f.addrBits = 64 := (loadTaskConfig_addrBits p regions).trans bits
  have addr (i : Fin pmpCount) (task : 4 ≤ i.val) : f.addr i = (regionAt regions i).addr := by
    rw [map.addr i task]
    exact legal_full keeps _
  refine ⟨?_, ?_, ?_, ?_, fun earlier unlocking => loadTaskConfig_twice free unlocking regions⟩
  · intro i r task here used
    have region : regionAt regions i = r := by rw [regionAt, here, Option.getD_some]
    rw [addr i task, map.cfg i task, region, PmpRegion.cfg, PmpRegion.addr, if_neg used, if_neg used]
    exact ⟨rfl, rfl⟩
  · intro i task empty
    have size : (regionAt regions i).size = 0 := by
      rcases regionAt_cases regions i with none | here
      · rw [none]
        rfl
      · exact empty _ here
    rw [addr i task, map.cfg i task, PmpRegion.cfg, PmpRegion.addr, if_pos size, if_pos size]
    exact ⟨rfl, rfl⟩
  · exact fun i kernel => ⟨loadTaskConfig_kernel_cfg p regions kernel, loadTaskConfig_kernel_addr p regions kernel⟩
  · intro q full unlocked i task
    have other := loadTaskConfig_task q regions unlocked
    rw [addr i task, map.cfg i task, other.cfg i task, other.addr i task,
      legal_full ((loadTaskConfig_addrBits q regions).trans full)]
    exact ⟨rfl, rfl⟩

/-- Registers as a task with a region in every entry left them, the kernel's entries locked. -/
def usedRegs : Regs := ⟨⟨64, fun i => if i.val < 4 then 0x9F else 0x1B, fun _ => 0x2000_01FF⟩, []⟩

theorem usedRegs_unlocked : TaskUnlocked usedRegs.file := by
  intro i task
  simp only [usedRegs, if_neg (Nat.not_lt.mpr task)]
  rfl

theorem load_task_config_over_used :
    let f := (loadTaskConfig usedRegs [.none, .none, .none, .none, ⟨0x8000_8000, 0x1000, Flags.RX⟩]).file
    f.cfg (4 : Fin pmpCount) = Flags.RX ||| Flags.aNapot ∧ f.addr (4 : Fin pmpCount) = 0x2000_21FF ∧
      f.cfg (9 : Fin pmpCount) = 0 ∧ f.cfg (2 : Fin pmpCount) = 0x9F := by
  obtain ⟨used, empty, kernel, -, -⟩ := load_task_config_exact (p := usedRegs) rfl usedRegs_unlocked
    [.none, .none, .none, .none, ⟨0x8000_8000, 0x1000, Flags.RX⟩]
  have here := used 4 ⟨0x8000_8000, 0x1000, Flags.RX⟩ (by decide) rfl (by decide)
  have none := empty 9 (by decide) (by intro r at_; cases at_)
  have addr : PmpRegion.napotAddr ⟨0x8000_8000, 0x1000, Flags.RX⟩ = 0x2000_21FF := by decide
  refine ⟨here.1, ?_, none.1, (kernel 2 (by decide)).1⟩
  rw [here.2, addr]

/-! ## The kernel map -/

/-- The four entries that `init` installs, on a register file with physical addresses of 56 bits. -/
structure KernelMap (l : Layout) (f : File) : Prop where
  addrBits : f.addrBits = 54
  anchor : f.cfg 0 = Flags.aOff
  text : f.cfg 1 = Flags.X ||| Flags.L ||| Flags.aTor
  data : f.cfg 2 = Flags.RW ||| Flags.L ||| Flags.aTor
  uart : f.cfg 3 = Flags.RW ||| Flags.L ||| Flags.aNapot
  anchorAddr : (f.addr 0).toNat = l.stext.toNat / 4
  textAddr : (f.addr 1).toNat = l.userTextEnd.toNat / 4
  dataAddr : (f.addr 2).toNat = l.eheap.toNat / 4
  uartAddr : (f.addr 3).toNat = napotEncode 0x1000_0000 0x1000

/-- Switching tasks keeps the kernel map. -/
theorem KernelMap.loadTaskConfig {l : Layout} {p : Regs} (map : KernelMap l p.file) (regions : List PmpRegion) :
    KernelMap l (loadTaskConfig p regions).file := by
  have cfg (i : Fin pmpCount) := loadTaskConfig_kernel_cfg p regions (i := i)
  have addr (i : Fin pmpCount) := loadTaskConfig_kernel_addr p regions (i := i)
  exact
    { addrBits := (loadTaskConfig_addrBits p regions).trans map.addrBits
      anchor := (cfg 0 (by decide)).trans map.anchor
      text := (cfg 1 (by decide)).trans map.text
      data := (cfg 2 (by decide)).trans map.data
      uart := (cfg 3 (by decide)).trans map.uart
      anchorAddr := by rw [addr 0 (by decide)]; exact map.anchorAddr
      textAddr := by rw [addr 1 (by decide)]; exact map.textAddr
      dataAddr := by rw [addr 2 (by decide)]; exact map.dataAddr
      uartAddr := by rw [addr 3 (by decide)]; exact map.uartAddr }

/-- Installing one entry over a register file in which it and the entry above are free. -/
def File.install (f : File) (i : Fin pmpCount) (addr : BitVec 64) (cfg : BitVec 8) : File :=
  { f with cfg := Function.update f.cfg i cfg, addr := Function.update f.addr i (f.legal addr) }

theorem writePmpaddr_file {p : Regs} {i : Fin pmpCount} (addr : BitVec 64) (free : p.file.addrLocked i = false) :
    (writePmpaddr p i addr).file = { p.file with addr := Function.update p.file.addr i (p.file.legal addr) } := by
  simp [writePmpaddr, Regs.write, File.apply, File.writeAddr, free]

/-- The word that `set_pmpcfg` writes: the bank as it reads, with one byte replaced. -/
def cfgWord (f : File) (i : Fin pmpCount) (cfg : BitVec 8) : BitVec 64 :=
  (f.readCfg (bankOf i) &&& ~~~placeByte 0xFF (byteOf i)) ||| placeByte cfg (byteOf i)

theorem setPmpcfg_write (p : Regs) (i : Fin pmpCount) (cfg : BitVec 8) :
    setPmpcfg p i cfg = p.write (.cfg (bankOf i) (cfgWord p.file i cfg)) := by
  have shift : i.val % 8 * 8 = 8 * (byteOf i).val := Nat.mul_comm _ _
  have bank : i.val < 8 ↔ bankOf i = 0 := by
    simp only [Fin.ext_iff, bankOf, Fin.val_zero]
    omega
  obtain low | high : bankOf i = 0 ∨ bankOf i = 1 := by omega
  · simp only [setPmpcfg, cfgWord, shift, bank, low, if_true]
    rfl
  · simp only [setPmpcfg, cfgWord, shift, bank, high]
    rfl

theorem byteAt_cfgWord {f : File} {i j : Fin pmpCount} {cfg : BitVec 8} (bank : bankOf j = bankOf i) :
    byteAt (cfgWord f i cfg) (byteOf j) = if j = i then cfg else f.cfg j := by
  rw [cfgWord, byteAt_or, byteAt_and_clear, byteAt_placeByte]
  by_cases same : j = i
  · subst same
    simp
  · have other : byteOf j ≠ byteOf i := by
      intro bytes
      apply same
      rw [← entryOf_bank_byte j, bank, bytes, entryOf_bank_byte]
    rw [if_neg other, if_neg other, if_neg same, byteAt_readCfg, ← bank, entryOf_bank_byte]
    simp

/-- `set_pmpcfg` changes one byte, unless its entry is locked. -/
theorem setPmpcfg_eq (p : Regs) (i : Fin pmpCount) (cfg : BitVec 8) :
    (setPmpcfg p i cfg).file = { p.file with
      cfg := Function.update p.file.cfg i (if locked (p.file.cfg i) then p.file.cfg i else cfg) } := by
  rw [setPmpcfg_write]
  simp only [Regs.write, File.apply, File.writeCfg, File.mk.injEq, true_and, and_true]
  funext j
  by_cases same : j = i
  · subst same
    rw [Function.update_self, byteAt_cfgWord rfl, if_pos rfl]
    cases locked (p.file.cfg j) <;> simp
  · rw [Function.update_of_ne same]
    split
    · rename_i here
      rw [byteAt_cfgWord here.1, if_neg same]
    · rfl

/-- The write takes effect on a free entry, and writes back the bytes of the others. -/
theorem setPmpcfg_takes {f : File} {i : Fin pmpCount} {cfg : BitVec 8} (free : locked (f.cfg i) = false) :
    f.Takes (.cfg (bankOf i) (cfgWord f i cfg)) := by
  apply takes_cfg
  intro j bank held
  have other : j ≠ i := by
    rintro rfl
    rw [free] at held
    cases held
  rw [byteAt_cfgWord bank, if_neg other]

theorem setPmpcfg_file {p : Regs} {i : Fin pmpCount} {cfg : BitVec 8} (free : locked (p.file.cfg i) = false) :
    (setPmpcfg p i cfg).file = { p.file with cfg := Function.update p.file.cfg i cfg } := by
  rw [setPmpcfg_eq, free]
  rfl

/-- The register file with every entry clear. -/
def File.blank (addrBits : Nat) : File := ⟨addrBits, fun _ => 0, fun _ => 0⟩

theorem clearLoop_file (es : List (Fin pmpCount)) {p : Regs} (free : ∀ i, p.file.cfg i = 0) :
    (es.foldl (fun p i => writePmpaddr p i 0) p).file =
      { p.file with addr := fun j => if j ∈ es then 0 else p.file.addr j } := by
  induction es generalizing p with
  | nil => simp
  | cons e es ih =>
    have writable : p.file.addrLocked e = false := by
      apply addrLocked_of_unlocked
      · rw [free]; rfl
      · intro h; rw [free]; rfl
    have step := writePmpaddr_file 0 writable
    rw [List.foldl_cons, ih fun i => by rw [step]; exact free i, step]
    simp only [File.mk.injEq, true_and]
    funext j
    by_cases here : j = e
    · subst here
      simp
    · simp [here]

/-- `clear_all` on a register file that nothing locks. -/
theorem clearAll_file {p : Regs} (free : ∀ i, locked (p.file.cfg i) = false) :
    (clearAll p).file = File.blank p.file.addrBits := by
  have zero : ∀ i, (writePmpcfg2 (writePmpcfg0 p 0) 0).file.cfg i = 0 := by
    intro i
    simp only [writePmpcfg0, writePmpcfg2, Regs.write, File.apply, writeCfg_cfg]
    obtain bank | bank : bankOf i = 0 ∨ bankOf i = 1 := by omega
    · simp [bank, free i]
    · simp [bank, free i]
  have bits : (writePmpcfg2 (writePmpcfg0 p 0) 0).file.addrBits = p.file.addrBits := rfl
  rw [clearAll, clearLoop_file (List.finRange pmpCount) zero]
  simp only [List.mem_finRange, if_true, File.blank, bits, File.mk.injEq, true_and, and_true]
  exact funext zero

section Install

variable {p : Regs} {u : Uart} {i : Fin pmpCount}

/-- Every entry from `n` on is clear. -/
def ClearFrom (n : Nat) (f : File) : Prop := ∀ j : Fin pmpCount, n ≤ j.val → f.cfg j = 0

theorem ClearFrom.install {f : File} {addr : BitVec 64} {cfg : BitVec 8} (clear : ClearFrom i.val f) :
    ClearFrom (i.val + 1) (File.install f i addr cfg) := by
  intro j above
  have other : j ≠ i := by
    rintro rfl
    omega
  exact (Function.update_of_ne other cfg f.cfg).trans (clear j (by omega))

theorem ClearFrom.unlocked {f : File} (clear : ClearFrom i.val f) : locked (f.cfg i) = false := by
  rw [clear i le_rfl]
  rfl

theorem ClearFrom.writable {f : File} (clear : ClearFrom i.val f) : f.addrLocked i = false := by
  apply addrLocked_of_unlocked f clear.unlocked
  intro h
  rw [clear ⟨i + 1, h⟩ (Nat.le_succ _)]
  rfl

theorem install_file {addr : BitVec 64} {cfg : BitVec 8} (clear : ClearFrom i.val p.file) :
    (setPmpcfg (writePmpaddr p i addr) i cfg).file = File.install p.file i addr cfg := by
  have step := writePmpaddr_file addr clear.writable
  rw [setPmpcfg_file (by rw [step]; exact clear.unlocked), step]
  rfl

theorem initEntry_tor {base : BitVec 64} {flags : BitVec 8} (tor : flags &&& 0b0001_1000 = Flags.aTor) :
    initEntry (p, u) i ⟨base, 0, flags⟩ = (setPmpcfg (writePmpaddr p i (base >>> 2)) i flags, u) := by
  simp only [initEntry, tor, if_true]

theorem initEntry_tor_file {base : BitVec 64} {flags : BitVec 8} (tor : flags &&& 0b0001_1000 = Flags.aTor)
    (clear : ClearFrom i.val p.file) :
    (initEntry (p, u) i ⟨base, 0, flags⟩).1.file = File.install p.file i (base >>> 2) flags := by
  rw [initEntry_tor tor]
  exact install_file clear

theorem configureRegion_ok {region : PmpRegion} (size : isPowerOfTwo region.size = true) (large : ¬ region.size < 8)
    (aligned : region.base &&& (region.size - 1) = 0) :
    configureRegion p u i region =
      (true, setPmpcfg (writePmpaddr p i region.napotAddr) i (region.flags ||| Flags.aNapot), u) := by
  have valid : (!isPowerOfTwo region.size || decide (region.size < 8)) = false := by simp only [size, large]; rfl
  simp only [configureRegion, i.isLt, dif_pos, valid, aligned, ne_eq, not_true_eq_false, if_false]
  rfl

end Install

theorem initEntry_off {p : Regs} {u : Uart} {base : BitVec 64} (pos : base > 0) :
    initEntry (p, u) 0 ⟨base, 0, Flags.aOff⟩ = (writePmpaddr p 0 (base >>> 2), u) := by
  have off : Flags.aOff &&& 0b0001_1000 = Flags.aOff := by decide
  have mode : Flags.aOff ≠ Flags.aTor := by decide
  have empty : ¬ (0 : BitVec 64) > 0 := by decide
  simp only [initEntry, off, if_neg mode, if_neg empty, pos, and_self, if_true]

/-- The anchor's address register is written unless the image starts at address zero. -/
theorem initEntry_anchor {p : Regs} {u : Uart} {base : BitVec 64} (clear : ClearFrom 0 p.file)
    (zero : p.file.addr 0 = 0) :
    (initEntry (p, u) 0 ⟨base, 0, Flags.aOff⟩).1.file =
      { p.file with addr := Function.update p.file.addr 0 (p.file.legal (base >>> 2)) } := by
  by_cases pos : base > 0
  · rw [initEntry_off pos]
    exact writePmpaddr_file _ (ClearFrom.writable (i := 0) clear)
  · obtain rfl : base = 0 := by bv_omega
    have step : initEntry (p, u) 0 ⟨0, 0, Flags.aOff⟩ = (p, u) := by
      simp [initEntry, Flags.aOff, Flags.aTor]
    have same : Function.update p.file.addr 0 (p.file.legal ((0 : BitVec 64) >>> 2)) = p.file.addr := by
      rw [show (0 : BitVec 64) >>> 2 = 0#64 from rfl, legal_zero, ← BitVec.ofNat_eq_ofNat, ← zero,
        Function.update_eq_self]
    simp only [step, same]

/-- The address registers of an installed kernel map hold the linker symbols. -/
theorem toNat_legal_symbol {f : File} (bits : f.addrBits = 54) {symbol : BitVec 64} (physical : symbol.toNat < 2 ^ 56) :
    (f.legal (symbol >>> 2)).toNat = symbol.toNat / 4 := by
  rw [toNat_legal, bits, BitVec.toNat_ushiftRight, Nat.shiftRight_eq_div_pow]
  omega

theorem toNat_legal_uart {f : File} (bits : f.addrBits = 54) :
    (f.legal (PmpRegion.napotAddr ⟨0x1000_0000, 0x1000, Flags.RW ||| Flags.L⟩)).toNat =
      napotEncode 0x1000_0000 0x1000 := by
  rw [toNat_legal, bits]
  decide

/-- The four iterations of the loop of `init`, for any symbols. -/
theorem Symbols.pmpInit_file (l : Symbols) {p : Regs} (u : Uart) (free : ∀ i, locked (p.file.cfg i) = false) :
    (l.pmpInit p u).1.file =
      File.install (File.install (File.install
        { File.blank p.file.addrBits with
          addr := Function.update (fun _ => 0) 0 ((File.blank p.file.addrBits).legal (l.stext >>> 2)) }
        1 (l.userTextEnd >>> 2) (Flags.X ||| Flags.L ||| Flags.aTor))
        2 (l.eheap >>> 2) (Flags.RW ||| Flags.L ||| Flags.aTor))
        3 (PmpRegion.napotAddr ⟨0x1000_0000, 0x1000, Flags.RW ||| Flags.L⟩) (Flags.RW ||| Flags.L ||| Flags.aNapot) := by
  have blank := clearAll_file free
  let s0 := initEntry (clearAll p, u) 0 ⟨l.stext, 0, Flags.aOff⟩
  let s1 := initEntry s0 1 ⟨l.userTextEnd, 0, Flags.X ||| Flags.L ||| Flags.aTor⟩
  let s2 := initEntry s1 2 ⟨l.eheap, 0, Flags.RW ||| Flags.L ||| Flags.aTor⟩
  let s3 := initEntry s2 3 ⟨0x1000_0000, 0x1000, Flags.RW ||| Flags.L⟩
  have loop : (l.pmpInit p u).1 = s3.1 := rfl
  have clear0 : ClearFrom 0 (clearAll p).file := by rw [blank]; exact fun _ _ => rfl
  have f0 : s0.1.file = _ := initEntry_anchor clear0 (by rw [blank]; rfl)
  have clear1 : ClearFrom 1 s0.1.file := by rw [f0]; exact fun j _ => clear0 j (Nat.zero_le _)
  have f1 : s1.1.file = _ := initEntry_tor_file (p := s0.1) (u := s0.2) (by decide) clear1
  have clear2 : ClearFrom 2 s1.1.file := by rw [f1]; exact ClearFrom.install (i := 1) clear1
  have f2 : s2.1.file = _ := initEntry_tor_file (p := s1.1) (u := s1.2) (by decide) clear2
  have clear3 : ClearFrom 3 s2.1.file := by rw [f2]; exact ClearFrom.install (i := 2) clear2
  have uart : s3 = (configureRegion s2.1 s2.2 (3 : Fin pmpCount) ⟨0x1000_0000, 0x1000, Flags.RW ||| Flags.L⟩).2 := rfl
  have f3 : s3.1.file = File.install s2.1.file 3 (PmpRegion.napotAddr ⟨0x1000_0000, 0x1000, Flags.RW ||| Flags.L⟩)
      (Flags.RW ||| Flags.L ||| Flags.aNapot) := by
    rw [uart, configureRegion_ok (by decide) (by decide) (by decide)]
    exact install_file clear3
  rw [loop, f3, f2, f1, f0, blank]
  rfl

section Init

variable (l : Layout) {p : Regs} (u : Uart)

/-- **Init.** `init` installs the kernel map. -/
theorem pmpInit_kernel (free : ∀ i, locked (p.file.cfg i) = false) (bits : p.file.addrBits = 54) :
    KernelMap l (pmpInit l p u).1.file := by
  have text : l.userTextEnd.toNat < 2 ^ 56 := lt_trans l.data_lt l.physical
  have start : l.stext.toNat < 2 ^ 56 := lt_trans l.text_lt text
  rw [pmpInit, l.symbols.pmpInit_file u free]
  constructor
  case addrBits => exact bits
  case anchorAddr => exact toNat_legal_symbol (f := File.blank p.file.addrBits) bits start
  case textAddr => exact toNat_legal_symbol (f := File.blank p.file.addrBits) bits text
  case dataAddr => exact toNat_legal_symbol (f := File.blank p.file.addrBits) bits l.physical
  case uartAddr => exact toNat_legal_uart (f := File.blank p.file.addrBits) bits
  all_goals rfl

/-- `init` leaves the task entries clear. -/
theorem pmpInit_task (free : ∀ i, locked (p.file.cfg i) = false) {i : Fin pmpCount} (task : 4 ≤ i.val) :
    (pmpInit l p u).1.file.cfg i = 0 ∧ (pmpInit l p u).1.file.addr i = 0 := by
  have other (j : Fin pmpCount) (kernel : j.val < 4) : i ≠ j := by
    rintro rfl
    omega
  have n0 := other 0 (by decide)
  have n1 := other 1 (by decide)
  have n2 := other 2 (by decide)
  have n3 := other 3 (by decide)
  rw [pmpInit, l.symbols.pmpInit_file u free]
  simp only [File.install, File.blank, Function.update_of_ne n3, Function.update_of_ne n2, Function.update_of_ne n1,
    Function.update_of_ne n0, and_self]

end Init

/-! ## The dump -/

/-- A hexadecimal numeral has no carriage return. -/
theorem numeral_plain (n : Nat) : (13 : BitVec 8) ∉ Serial.numeral 16 n := by
  intro member
  rw [Serial.numeral] at member
  split at member
  · revert member
    decide
  · obtain ⟨d, digit, eq⟩ := List.mem_map.mp (List.mem_reverse.mp member)
    have small : d < 16 := Nat.digits_lt_base (by decide) digit
    have value := congrArg BitVec.toNat eq
    rw [Serial.toNat_digitByte small] at value
    change _ = 13 at value
    split at value <;> omega

/-- Two texts that are equal up to their first carriage return and from there on. -/
theorem split_at_return {s t u v : List (BitVec 8)} (plain_s : (13 : BitVec 8) ∉ s) (plain_t : (13 : BitVec 8) ∉ t)
    (same : s ++ 13 :: u = t ++ 13 :: v) : s = t ∧ u = v := by
  induction s generalizing t with
  | nil =>
    cases t with
    | nil => exact ⟨rfl, (List.cons.inj same).2⟩
    | cons c t => exact absurd ((List.cons.inj same).1 ▸ List.mem_cons_self) plain_t
  | cons d s ih =>
    cases t with
    | nil => exact absurd ((List.cons.inj same).1 ▸ List.mem_cons_self) plain_s
    | cons c t =>
      obtain ⟨rfl, rest⟩ := List.cons.inj same
      obtain ⟨rfl, rfl⟩ := ih (List.not_mem_of_not_mem_cons plain_s) (List.not_mem_of_not_mem_cons plain_t) rest
      exact ⟨rfl, rfl⟩

/-- What `dump_config` writes. -/
def dumpText (p : Regs) : List (BitVec 8) :=
  crlf (Serial.bytes "[pmp] Configuration:\n") ++ (Serial.bytes "  pmpcfg0: 0x" ++
    (Serial.numeral 16 (readPmpcfg0 p).toNat ++ 13 :: 10 :: (Serial.bytes "  pmpcfg2: 0x" ++
      (Serial.numeral 16 (readPmpcfg2 p).toNat ++ [13, 10]))))

theorem dumpConfig_ok (p : Regs) (u : Uart) : dumpConfig p u = .ok { u with tx := u.tx ++ dumpText p } := by
  have first : crlf (Serial.bytes "  pmpcfg0: ") ++ Serial.bytes "0x" = Serial.bytes "  pmpcfg0: 0x" := by decide
  have second : crlf (Serial.bytes "\n  pmpcfg2: ") ++ Serial.bytes "0x" =
      [13, 10] ++ Serial.bytes "  pmpcfg2: 0x" := by decide
  have last : crlf (Serial.bytes "\n") = [13, 10] := by decide
  have text : dumpText p = crlf (Serial.bytes "[pmp] Configuration:\n") ++ Serial.bytes "  pmpcfg0: 0x" ++
      Serial.numeral 16 (readPmpcfg0 p).toNat ++ ([13, 10] ++ Serial.bytes "  pmpcfg2: 0x") ++
      Serial.numeral 16 (readPmpcfg2 p).toNat ++ [13, 10] := by
    simp [dumpText]
  simp only [dumpConfig, Serial.putHex_ok, puts_crlf, bind, Except.bind, pure, Except.pure]
  rw [text, ← first, ← second, ← last]
  simp only [List.append_assoc]

/-- The two words hold one byte for each entry. -/
theorem readCfg_inj {f g : File} : (∀ b, f.readCfg b = g.readCfg b) ↔ ∀ i, f.cfg i = g.cfg i := by
  constructor
  · intro words i
    rw [← entryOf_bank_byte i, ← byteAt_readCfg, words, byteAt_readCfg]
  · intro bytes b
    simp only [File.readCfg, bytes]

/-- The dump shows every configuration byte: two files with the same dump have the same entries switched on, with the
same modes, rights and locks. -/
theorem dumpConfig_eq_iff (p q : Regs) (u : Uart) :
    dumpConfig p u = dumpConfig q u ↔ ∀ i, p.file.cfg i = q.file.cfg i := by
  rw [dumpConfig_ok, dumpConfig_ok, Except.ok.injEq, Uart.mk.injEq, List.append_cancel_left_eq, ← readCfg_inj]
  constructor
  · rintro ⟨same, -⟩
    obtain ⟨low, rest⟩ := split_at_return (numeral_plain _) (numeral_plain _)
      (List.append_cancel_left (List.append_cancel_left same))
    obtain ⟨high, -⟩ := split_at_return (numeral_plain _) (numeral_plain _)
      (List.append_cancel_left (List.cons.inj rest).2)
    exact Fin.forall_fin_two.mpr
      ⟨Serial.numeral_injective (by decide) (by decide) low, Serial.numeral_injective (by decide) (by decide) high⟩
  · intro words
    simp only [dumpText, readPmpcfg0, readPmpcfg2, words, and_self]

end Cyptos
