import Cyptos.Kernel.Board
import Cyptos.Logic.Regions

/-!
# Who may access what

The effective permissions under the kernel map. Inside the image and the UART page one of the
locked entries decides, for both privilege modes. Everywhere else the first declared region of
the loaded task that reaches the address decides for user mode.
-/

namespace Cyptos
set_option autoImplicit false
open Riscv Riscv.Pmp

/-! ## The kernel's ranges -/

/-- Kernel and user text. -/
def Layout.Text (l : Layout) (a : Nat) : Prop := l.stext.toNat ≤ a ∧ a < l.userTextEnd.toNat

/-- Kernel data, stacks and heap. -/
def Layout.Data (l : Layout) (a : Nat) : Prop := l.userTextEnd.toNat ≤ a ∧ a < l.eheap.toNat

/-- The UART's registers. -/
def UartPage (a : Nat) : Prop := uartBase.toNat ≤ a ∧ a < uartBase.toNat + 0x1000

theorem UartPage.physical {a : Nat} (uart : UartPage a) : a < 2 ^ 56 := by
  have base : uartBase.toNat = 268435456 := rfl
  have high := uart.2
  rw [base] at high
  omega

/-- An address that no kernel entry matches. -/
structure Layout.Outside (l : Layout) (a : Nat) : Prop where
  text : ¬ l.Text a
  data : ¬ l.Data a
  uart : ¬ UartPage a

theorem Layout.cases (l : Layout) (a : Nat) : l.Text a ∨ l.Data a ∨ UartPage a ∨ l.Outside a := by
  by_cases text : l.Text a
  · exact .inl text
  · by_cases data : l.Data a
    · exact .inr (.inl data)
    · by_cases uart : UartPage a
      · exact .inr (.inr (.inl uart))
      · exact .inr (.inr (.inr ⟨text, data, uart⟩))

section KernelEntries

variable {l : Layout} {f : File} {a : Nat}

/-- Entry 1 covers the text. -/
theorem textEntry (cfg : f.cfg 1 = Flags.X ||| Flags.L ||| Flags.aTor) (bottom : (f.addr 0).toNat = l.stext.toNat / 4)
    (top : (f.addr 1).toNat = l.userTextEnd.toNat / 4) : f.entryMatches 1 a = true ↔ l.Text a := by
  rw [entryMatches_tor (by rw [cfg]; rfl), top]
  have base : f.torBase 1 = l.stext.toNat / 4 := bottom
  have low := l.stext_aligned
  have high := l.userTextEnd_aligned
  rw [base, Layout.Text]
  omega

/-- Entry 2 covers the data. -/
theorem dataEntry (cfg : f.cfg 2 = Flags.RW ||| Flags.L ||| Flags.aTor)
    (bottom : (f.addr 1).toNat = l.userTextEnd.toNat / 4) (top : (f.addr 2).toNat = l.eheap.toNat / 4) :
    f.entryMatches 2 a = true ↔ l.Data a := by
  rw [entryMatches_tor (by rw [cfg]; rfl), top]
  have base : f.torBase 2 = l.userTextEnd.toNat / 4 := bottom
  have low := l.userTextEnd_aligned
  have high := l.eheap_aligned
  rw [base, Layout.Data]
  omega

/-- Entry 3 covers the UART page. -/
theorem uartEntry (cfg : f.cfg 3 = Flags.RW ||| Flags.L ||| Flags.aNapot)
    (addr : (f.addr 3).toNat = napotEncode 0x1000_0000 0x1000) : f.entryMatches 3 a = true ↔ UartPage a := by
  rw [entryMatches_napot (by rw [cfg]; rfl), addr, napotMatch_iff_decode]
  have range : napotDecode (napotEncode 0x1000_0000 0x1000) = (0x1000_0000, 0x1000) := by decide
  rw [range]
  rfl

theorem KernelMap.entry0 (map : KernelMap l f) : f.entryMatches 0 a = false :=
  entryMatches_off (by rw [map.anchor]; rfl)

theorem KernelMap.entry1 (map : KernelMap l f) : f.entryMatches 1 a = true ↔ l.Text a :=
  textEntry map.text map.anchorAddr map.textAddr

theorem KernelMap.entry2 (map : KernelMap l f) : f.entryMatches 2 a = true ↔ l.Data a :=
  dataEntry map.data map.textAddr map.dataAddr

theorem KernelMap.entry3 (map : KernelMap l f) : f.entryMatches 3 a = true ↔ UartPage a :=
  uartEntry map.uart map.uartAddr

theorem KernelMap.first_text (map : KernelMap l f) (text : l.Text a) : f.firstMatch a = some 1 := by
  apply firstMatch_eq (map.entry1.mpr text)
  intro j before
  obtain rfl : j = 0 := by omega
  exact map.entry0

theorem KernelMap.first_data (map : KernelMap l f) (data : l.Data a) : f.firstMatch a = some 2 := by
  apply firstMatch_eq (map.entry2.mpr data)
  intro j before
  obtain rfl | rfl : j = 0 ∨ j = 1 := by omega
  · exact map.entry0
  · rw [Bool.eq_false_iff, Ne, map.entry1]
    rintro ⟨-, text⟩
    have := data.1
    omega

theorem KernelMap.first_uart (map : KernelMap l f) (uart : UartPage a) : f.firstMatch a = some 3 := by
  have apart := l.uart_outside
  have textSize := l.text_lt
  have dataSize := l.data_lt
  obtain ⟨low, high⟩ := uart
  apply firstMatch_eq (map.entry3.mpr ⟨low, high⟩)
  intro j before
  obtain rfl | rfl | rfl : j = 0 ∨ j = 1 ∨ j = 2 := by omega
  · exact map.entry0
  · rw [Bool.eq_false_iff, Ne, map.entry1]
    rintro ⟨start, stop⟩
    omega
  · rw [Bool.eq_false_iff, Ne, map.entry2]
    rintro ⟨start, stop⟩
    omega

theorem KernelMap.outside (map : KernelMap l f) (out : l.Outside a) {i : Fin 16} (kernel : i.val < 4) :
    f.entryMatches i a = false := by
  obtain rfl | rfl | rfl | rfl : i = 0 ∨ i = 1 ∨ i = 2 ∨ i = 3 := by omega
  · exact map.entry0
  · rw [Bool.eq_false_iff, Ne, map.entry1]
    exact out.text
  · rw [Bool.eq_false_iff, Ne, map.entry2]
    exact out.data
  · rw [Bool.eq_false_iff, Ne, map.entry3]
    exact out.uart

/-- Text is execute-only, in both modes. -/
theorem KernelMap.permits_text (map : KernelMap l f) (text : l.Text a) (mode : Mode) (k : Access) :
    f.permits mode k a = true ↔ k = .exec := by
  rw [permits_of_first (map.first_text text), map.text]
  cases mode <;> cases k <;> decide

/-- Data is read-write, in both modes. -/
theorem KernelMap.permits_data (map : KernelMap l f) (data : l.Data a) (mode : Mode) (k : Access) :
    f.permits mode k a = true ↔ k ≠ .exec := by
  rw [permits_of_first (map.first_data data), map.data]
  cases mode <;> cases k <;> decide

/-- The UART is read-write, in both modes. -/
theorem KernelMap.permits_uart (map : KernelMap l f) (uart : UartPage a) (mode : Mode) (k : Access) :
    f.permits mode k a = true ↔ k ≠ .exec := by
  rw [permits_of_first (map.first_uart uart), map.uart]
  cases mode <;> cases k <;> decide

end KernelEntries

/-! ## The loaded task's ranges -/

theorem matching_napot (flags : BitVec 8) : matching (flags ||| Flags.aNapot) = .napot := by
  simp [matching, Flags.aNapot]

theorem grants_napot (flags : BitVec 8) (k : Access) : grants (flags ||| Flags.aNapot) k = grants flags k := by
  cases k <;> simp [grants, Flags.aNapot]

/-- The address register of a valid region matches exactly the addresses that the region reaches. -/
theorem PmpRegion.Valid.match_iff {r : PmpRegion} (valid : r.Valid) {f : File} (bits : f.addrBits = 54) {a : Nat}
    (physical : a < 2 ^ 56) : napotMatch (f.legal r.napotAddr).toNat a = true ↔ r.Reaches a := by
  have addr := valid.napotAddr
  obtain ⟨m, k, -, base, size⟩ := valid
  rw [toNat_legal, bits, addr, base, size, napotMatch_encode (by decide) physical]
  constructor
  · rintro ⟨x, low, high, same⟩
    exact ⟨x, ⟨by rw [base]; exact low, by rw [base, size]; exact high⟩, same⟩
  · rintro ⟨x, ⟨low, high⟩, same⟩
    rw [base] at low
    rw [base, size] at high
    exact ⟨x, low, high, same⟩

/-- A region inside the physical address space reaches its own addresses. -/
theorem PmpRegion.reaches_iff {r : PmpRegion} (inside : r.base.toNat + r.size.toNat ≤ 2 ^ 56) {a : Nat} :
    r.Reaches a ↔ r.Contains a := by
  constructor
  · rintro ⟨x, ⟨low, high⟩, rfl⟩
    rw [Nat.mod_eq_of_lt (lt_of_lt_of_le high inside)]
    exact ⟨low, high⟩
  · rintro ⟨low, high⟩
    exact ⟨a, ⟨low, high⟩, Nat.mod_eq_of_lt (lt_of_lt_of_le high inside)⟩

section TaskEntries

variable {regions : List PmpRegion} {f : File} {a : Nat} {i : Fin pmpCount}

/-- A task entry is off or holds a declared region. -/
theorem TaskMap.entry (map : TaskMap (tableOf regions) f) (bits : f.addrBits = 54) (loadable : Loadable regions)
    (physical : a < 2 ^ 56) (task : 4 ≤ i.val) :
    f.entryMatches i a = true ↔ ∃ r, regions[i.val - 4]? = some r ∧ r.Reaches a := by
  have cfg := map.cfg i task
  have addr := map.addr i task
  simp only [tableOf, if_pos task] at cfg addr
  cases slot : regions[i.val - 4]? with
  | none =>
    rw [slot] at cfg
    have off : f.entryMatches i a = false := entryMatches_off (by rw [cfg]; rfl)
    simp [off]
  | some r =>
    have valid := loadable.valid r (List.mem_of_getElem? slot)
    rw [slot, Option.getD_some] at cfg addr
    rw [PmpRegion.cfg, if_neg valid.size_ne] at cfg
    rw [PmpRegion.addr, if_neg valid.size_ne] at addr
    rw [entryMatches_napot (by rw [cfg]; exact matching_napot r.flags), addr, valid.match_iff bits physical]
    simp

theorem TaskMap.grants (map : TaskMap (tableOf regions) f) (loadable : Loadable regions) (task : 4 ≤ i.val)
    {r : PmpRegion} (slot : regions[i.val - 4]? = some r) (k : Access) :
    Pmp.grants (f.cfg i) k = Pmp.grants r.flags k := by
  have cfg := map.cfg i task
  have valid := loadable.valid r (List.mem_of_getElem? slot)
  rw [tableOf, if_pos task, slot, Option.getD_some, PmpRegion.cfg, if_neg valid.size_ne] at cfg
  rw [cfg, grants_napot]

end TaskEntries

/-- The first region that reaches `a` decides about an access of kind `k`. -/
def Granted (k : Access) (a : Nat) : List PmpRegion → Prop
  | [] => False
  | r :: regions => (r.Reaches a ∧ grants r.flags k = true) ∨ (¬ r.Reaches a ∧ Granted k a regions)

theorem granted_iff_index {k : Access} {a : Nat} (regions : List PmpRegion) :
    Granted k a regions ↔ ∃ (j : Nat) (r : PmpRegion), regions[j]? = some r ∧ r.Reaches a ∧
      (∀ i < j, ∀ s, regions[i]? = some s → ¬ s.Reaches a) ∧ grants r.flags k = true := by
  induction regions with
  | nil => simp [Granted]
  | cons d regions ih =>
    rw [Granted, ih]
    constructor
    · rintro (⟨hit, right⟩ | ⟨miss, j, r, slot, hit, before, right⟩)
      · exact ⟨0, d, rfl, hit, by simp, right⟩
      · refine ⟨j + 1, r, by simpa using slot, hit, ?_, right⟩
        intro i early s here
        cases i with
        | zero =>
          obtain rfl : d = s := by simpa using here
          exact miss
        | succ i => exact before i (by omega) s (by simpa using here)
    · rintro ⟨j, r, slot, hit, before, right⟩
      cases j with
      | zero =>
        obtain rfl : d = r := by simpa using slot
        exact .inl ⟨hit, right⟩
      | succ j =>
        refine .inr ⟨before 0 (by omega) d rfl, j, r, by simpa using slot, hit, ?_, right⟩
        exact fun i early s here => before (i + 1) (by omega) s (by simpa using here)

/-- Regions with the same flags decide as their union. -/
theorem granted_uniform {k : Access} {a : Nat} {flags : BitVec 8} {regions : List PmpRegion}
    (uniform : ∀ r ∈ regions, r.flags = flags) :
    Granted k a regions ↔ (∃ r ∈ regions, r.Reaches a) ∧ grants flags k = true := by
  induction regions with
  | nil => simp [Granted]
  | cons d regions ih =>
    rw [Granted, ih fun r member => uniform r (by simp [member]), uniform d (by simp)]
    by_cases hit : d.Reaches a
    · simp [hit]
    · simp [hit]

/-- **Rights outside the kernel's ranges.** User mode has the right that the first declared region
reaching the address grants. -/
theorem permits_task {l : Layout} {regions : List PmpRegion} {f : File} {a : Nat} {k : Access}
    (kernel : KernelMap l f) (task : TaskMap (tableOf regions) f) (loadable : Loadable regions)
    (out : l.Outside a) (physical : a < 2 ^ 56) :
    f.permits .user k a = true ↔ Granted k a regions := by
  have entry {i : Fin 16} (high : 4 ≤ i.val) :=
    task.entry (i := i) kernel.addrBits loadable physical high
  rw [permits_user_iff, granted_iff_index]
  constructor
  · rintro ⟨i, first, right⟩
    obtain ⟨hit, before⟩ := Fin.find?_eq_some_iff.mp first
    have high : 4 ≤ i.val := by
      by_contra low
      rw [kernel.outside out (by omega)] at hit
      cases hit
    obtain ⟨r, slot, reaches⟩ := (entry high).mp hit
    rw [task.grants loadable high slot] at right
    refine ⟨i.val - 4, r, slot, reaches, ?_, right⟩
    intro j early s here reached
    have match_ : f.entryMatches ⟨j + 4, by omega⟩ a = true :=
      (entry (i := ⟨j + 4, by omega⟩) (Nat.le_add_left 4 j)).mpr ⟨s, by simpa using here, reached⟩
    have miss := before ⟨j + 4, by omega⟩ (Fin.lt_def.mpr (by simp only; omega))
    simp only [match_] at miss
    cases miss
  · rintro ⟨j, r, slot, reaches, before, right⟩
    have fits := loadable.fits
    have bound : j < regions.length := (List.getElem?_eq_some_iff.mp slot).1
    have slot' : regions[(⟨j + 4, by omega⟩ : Fin 16).val - 4]? = some r := by simpa using slot
    have high : 4 ≤ (⟨j + 4, by omega⟩ : Fin 16).val := Nat.le_add_left 4 j
    refine ⟨⟨j + 4, by omega⟩, firstMatch_eq ((entry high).mpr ⟨r, slot', reaches⟩) ?_, ?_⟩
    · intro i early
      rw [Fin.lt_def] at early
      simp only at early
      by_cases low : i.val < 4
      · exact kernel.outside out low
      · rw [Bool.eq_false_iff, Ne, entry (by omega)]
        rintro ⟨s, here, reached⟩
        exact before (i.val - 4) (by omega) s here reached
    · rw [task.grants loadable high slot']
      exact right

theorem grants_RX (k : Access) : grants Flags.RX k = true ↔ k ≠ .write := by
  cases k <;> decide

theorem grants_RW (k : Access) : grants Flags.RW k = true ↔ k ≠ .exec := by
  cases k <;> decide

/-- The rights of a user task's declaration: its code wins over the other regions. -/
theorem granted_userRegions {codeBase codeSize stackBottom : BitVec 64} {mmio : List (BitVec 64 × BitVec 64)}
    {k : Access} {a : Nat} :
    Granted k a (userRegions codeBase codeSize stackBottom mmio) ↔
      (PmpRegion.Reaches ⟨codeBase, codeSize, Flags.RX⟩ a ∧ k ≠ .write) ∨
      (¬ PmpRegion.Reaches ⟨codeBase, codeSize, Flags.RX⟩ a ∧
        (∃ r ∈ (userRegions codeBase codeSize stackBottom mmio).tail, r.Reaches a) ∧ k ≠ .exec) := by
  have uniform : ∀ r ∈ (userRegions codeBase codeSize stackBottom mmio).tail, r.flags = Flags.RW := by
    intro r member
    rcases List.mem_cons.mp member with rfl | member
    · rfl
    · obtain ⟨d, -, rfl⟩ := List.mem_map.mp member
      rfl
  have tail := granted_uniform (k := k) (a := a) uniform
  rw [← grants_RX, ← grants_RW, ← tail]
  rfl

/-! ## Writable or executable -/

/-- A task entry is off, read-execute or read-write. -/
def TaskRights (f : File) : Prop := ∀ i : Fin 16, 4 ≤ i.val →
  f.cfg i = 0 ∨ f.cfg i = Flags.RX ||| Flags.aNapot ∨ f.cfg i = Flags.RW ||| Flags.aNapot

theorem TaskRights.unlocked {f : File} (rights : TaskRights f) : TaskUnlocked f := by
  intro i task
  rcases rights i task with cfg | cfg | cfg <;> rw [cfg] <;> rfl

/-- A table of regions that only declares the two kinds of rights of the builder. -/
def BuilderFlags (regions : List PmpRegion) : Prop := ∀ r ∈ regions, r.flags = Flags.RX ∨ r.flags = Flags.RW

theorem builderFlags_user (codeBase codeSize stackBottom : BitVec 64) (mmio : List (BitVec 64 × BitVec 64)) :
    BuilderFlags (userRegions codeBase codeSize stackBottom mmio) := by
  intro r member
  rcases List.mem_cons.mp member with rfl | member
  · exact .inl rfl
  · rcases List.mem_cons.mp member with rfl | member
    · exact .inr rfl
    · obtain ⟨d, -, rfl⟩ := List.mem_map.mp member
      exact .inr rfl

theorem TaskMap.rights {regions : List PmpRegion} {f : File} (map : TaskMap (tableOf regions) f)
    (flags : BuilderFlags regions) : TaskRights f := by
  intro i task
  have cfg := map.cfg i task
  rw [tableOf, if_pos task] at cfg
  cases slot : regions[i.val - 4]? with
  | none =>
    rw [slot] at cfg
    exact .inl cfg
  | some r =>
    rw [slot, Option.getD_some, PmpRegion.cfg] at cfg
    split at cfg
    · exact .inl cfg
    · rcases flags r (List.mem_of_getElem? slot) with same | same
      · rw [same] at cfg
        exact .inr (.inl cfg)
      · rw [same] at cfg
        exact .inr (.inr cfg)

/-- A configuration that a spawned task can have. -/
def Spawnable (c : PmpConfig) : Prop :=
  c = .empty ∨ ∃ codeBase codeSize stackBottom mmio, buildPmp codeBase codeSize stackBottom mmio = .ok c

/-- Load configurations one after the other. -/
def loadAll (p : Regs) (configs : List PmpConfig) : Regs :=
  configs.foldl (fun p c => loadTaskConfig p (List.ofFn c.regions)) p

theorem Spawnable.table {c : PmpConfig} (spawnable : Spawnable c) :
    ∃ regions, c.regions = tableOf regions ∧ Loadable regions ∧ BuilderFlags regions := by
  rcases spawnable with rfl | ⟨codeBase, codeSize, stackBottom, mmio, built⟩
  · exact ⟨[], tableOf_nil.symm, loadable_nil, by simp [BuilderFlags]⟩
  · obtain ⟨table, loadable⟩ := buildPmp_ok built
    exact ⟨_, table, loadable, builderFlags_user codeBase codeSize stackBottom mmio⟩

/-- Loading a spawned task's configuration keeps the kernel map and the kinds of rights. -/
theorem loadAll_rights {l : Layout} {p : Regs} {configs : List PmpConfig} (spawned : ∀ c ∈ configs, Spawnable c)
    (kernel : KernelMap l p.file) (rights : TaskRights p.file) :
    KernelMap l (loadAll p configs).file ∧ TaskRights (loadAll p configs).file := by
  induction configs generalizing p with
  | nil => exact ⟨kernel, rights⟩
  | cons c configs ih =>
    obtain ⟨regions, table, -, flags⟩ := (spawned c (by simp)).table
    have task := loadTaskConfig_ofFn p c.regions rights.unlocked
    have declared : TaskMap (tableOf regions) (loadTaskConfig p (List.ofFn c.regions)).file := table ▸ task
    exact ih (fun d member => spawned d (by simp [member])) (kernel.loadTaskConfig _) (declared.rights flags)

/-- No single entry grants both writing and execution. -/
theorem KernelMap.exclusive {l : Layout} {f : File} (kernel : KernelMap l f) (rights : TaskRights f) (i : Fin 16) :
    ¬ (grants (f.cfg i) .write = true ∧ grants (f.cfg i) .exec = true) := by
  by_cases task : 4 ≤ i.val
  · rcases rights i task with cfg | cfg | cfg <;> rw [cfg] <;> decide
  · obtain rfl | rfl | rfl | rfl : i = 0 ∨ i = 1 ∨ i = 2 ∨ i = 3 := by omega
    · rw [kernel.anchor]; decide
    · rw [kernel.text]; decide
    · rw [kernel.data]; decide
    · rw [kernel.uart]; decide

/-- **Writable or executable, never both.** On a layout that ends below `2 ^ 56`, after `init` and any sequence
of task switches no address is both for user mode; in the image no address is both for machine mode, text is
never writable and data never executable. -/
theorem write_xor_execute (l : Layout) {p : Regs} (u : Uart) (free : ∀ i, locked (p.file.cfg i) = false)
    (bits : p.file.addrBits = 54) {configs : List PmpConfig} (spawned : ∀ c ∈ configs, Spawnable c) (a : Nat) :
    let f := (loadAll (pmpInit l p u).1 configs).file
    ¬ (f.permits .user .write a = true ∧ f.permits .user .exec a = true) ∧
      (l.stext.toNat ≤ a ∧ a < l.eheap.toNat →
        ¬ (f.permits .machine .write a = true ∧ f.permits .machine .exec a = true)) ∧
      (l.stext.toNat ≤ a ∧ a < l.userTextEnd.toNat → f.permits .machine .write a = false) ∧
      (l.userTextEnd.toNat ≤ a ∧ a < l.eheap.toNat → f.permits .machine .exec a = false) := by
  intro f
  have clear : TaskRights (pmpInit l p u).1.file := fun i task => .inl (pmpInit_task l u free task).1
  obtain ⟨kernel, rights⟩ := loadAll_rights spawned (pmpInit_kernel l u free bits) clear
  have text (inside : l.Text a) : f.permits .machine .write a = false := by
    rw [Bool.eq_false_iff, Ne, kernel.permits_text inside]
    decide
  have data (inside : l.Data a) : f.permits .machine .exec a = false := by
    rw [Bool.eq_false_iff, Ne, kernel.permits_data inside]
    decide
  refine ⟨?_, ?_, text, data⟩
  · rintro ⟨write, exec⟩
    obtain ⟨i, first, canWrite⟩ := permits_user_iff.mp write
    obtain ⟨j, first', canExec⟩ := permits_user_iff.mp exec
    obtain rfl : i = j := Option.some.inj (first.symm.trans first')
    exact kernel.exclusive rights i ⟨canWrite, canExec⟩
  · rintro ⟨low, high⟩ ⟨write, exec⟩
    rcases Nat.lt_or_ge a l.userTextEnd.toNat with below | above
    · rw [text ⟨low, below⟩] at write
      cases write
    · rw [data ⟨above, high⟩] at exec
      cases exec

/-- The echo task's configuration. -/
def echoConfig : PmpConfig := (buildPmp 0x8000_8000 0x1000 0x8002_2000 [(uartBase, 0x1000)]).toOption.getD .empty

theorem echo_spawnable : Spawnable echoConfig := .inr ⟨0x8000_8000, 0x1000, 0x8002_2000, [(uartBase, 0x1000)], rfl⟩

theorem write_xor_execute_echo :
    let f := (loadAll (pmpInit qemuVirt powerOn.kernel.pmp ⟨[], []⟩).1 [echoConfig, .empty]).file
    ¬ (f.permits .user .write 0x8002_2000 = true ∧ f.permits .user .exec 0x8002_2000 = true) ∧
      f.permits .machine .exec 0x8002_2000 = false := by
  have spawned : ∀ c ∈ [echoConfig, .empty], Spawnable c := by
    intro c member
    rcases List.mem_cons.mp member with rfl | member
    · exact echo_spawnable
    · exact .inl (List.mem_singleton.mp member)
  obtain ⟨user, -, -, data⟩ :=
    write_xor_execute qemuVirt ⟨[], []⟩ powerOn_reset.unlocked powerOn_reset.addrBits spawned 0x8002_2000
  exact ⟨user, data (by decide)⟩

/-- An image that ends at `2 ^ 56` has the shape of every other, but the end of its data does not fit `pmpaddr2`:
machine mode may both write and execute the data. -/
theorem top_of_memory_not_exclusive :
    let s := topOfMemory
    let f := (loadAll (s.pmpInit powerOn.kernel.pmp ⟨[], []⟩).1 [echoConfig]).file
    (s.stext.toNat < s.userTextEnd.toNat ∧ s.userTextEnd.toNat < s.eheap.toNat ∧ s.stext.toNat % 4096 = 0 ∧
        s.userTextEnd.toNat % 4096 = 0 ∧ s.eheap.toNat % 4096 = 0 ∧ uartBase.toNat + 0x1000 ≤ s.stext.toNat) ∧
      Spawnable echoConfig ∧ s.userTextEnd.toNat ≤ 0x8000_9000 ∧ 0x8000_9000 < s.eheap.toNat ∧
      f.permits .machine .write 0x8000_9000 = true ∧ f.permits .machine .exec 0x8000_9000 = true := by
  refine ⟨by decide, echo_spawnable, by decide, by decide, ?_, ?_⟩
  · rw [loadAll]
    decide +kernel
  · rw [loadAll]
    decide +kernel

end Cyptos
