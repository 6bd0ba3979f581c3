import Cyptos.Logic.Lock

/-!
# `init`, write by write

`init` locks entries 1 to 3 one after the other while the kernel runs. After its n-th iteration
the entries below n hold their final contents and the others are clear. In each of these states,
and between the two writes of an iteration, the locks that are already set leave machine mode
what the kernel needs, and no write runs into one of them.
-/

namespace Cyptos
set_option autoImplicit false
open Riscv Riscv.Pmp

/-- Machine mode can execute the text and read and write the data and the UART. -/
structure Usable (l : Layout) (f : File) : Prop where
  text : ∀ a, l.Text a → f.permits .machine .exec a = true
  data : ∀ a k, l.Data a → k ≠ .exec → f.permits .machine k a = true
  uart : ∀ a k, UartPage a → k ≠ .exec → f.permits .machine k a = true

/-- The configuration bytes that `init` installs. -/
def kernelCfg (i : Fin pmpCount) : BitVec 8 :=
  match i.val with
  | 1 => Flags.X ||| Flags.L ||| Flags.aTor
  | 2 => Flags.RW ||| Flags.L ||| Flags.aTor
  | 3 => Flags.RW ||| Flags.L ||| Flags.aNapot
  | _ => Flags.aOff

theorem kernelCfg_off {i : Fin 16} (other : ¬ (i.val = 1 ∨ i.val = 2 ∨ i.val = 3)) : kernelCfg i = Flags.aOff := by
  unfold kernelCfg
  split
  · omega
  · omega
  · omega
  · rfl

/-- The registers after `n` iterations of the loop of `init`. -/
structure Stage (l : Layout) (n : Nat) (f : File) : Prop where
  addrBits : f.addrBits = 54
  cfg : ∀ i : Fin pmpCount, f.cfg i = if i.val < n then kernelCfg i else 0
  anchorAddr : 0 < n → (f.addr 0).toNat = l.stext.toNat / 4
  textAddr : 1 < n → (f.addr 1).toNat = l.userTextEnd.toNat / 4
  dataAddr : 2 < n → (f.addr 2).toNat = l.eheap.toNat / 4
  uartAddr : 3 < n → (f.addr 3).toNat = napotEncode 0x1000_0000 0x1000

section Usable

variable {l : Layout} {f : File} {n : Nat}

theorem Layout.text_not_data {a : Nat} (text : l.Text a) : ¬ l.Data a := by
  rintro ⟨low, -⟩
  have high := text.2
  omega

theorem Layout.uart_apart {a : Nat} (uart : UartPage a) : ¬ l.Text a ∧ ¬ l.Data a := by
  have apart := l.uart_outside
  have textSize := l.text_lt
  have dataSize := l.data_lt
  obtain ⟨low, high⟩ := uart
  constructor
  · rintro ⟨start, stop⟩
    omega
  · rintro ⟨start, stop⟩
    omega

theorem usable_of_unlocked (free : ∀ i, locked (f.cfg i) = false) : Usable l f := by
  have all (k : Access) (a : Nat) : f.permits .machine k a = true := by
    apply permits_machine
    intro i _ held
    rw [free i] at held
    cases held
  exact ⟨fun a _ => all .exec a, fun a k _ _ => all k a, fun a k _ _ => all k a⟩

/-- A locked entry of a stage is one of the three, with its final contents. -/
theorem Stage.locked_entry (stage : Stage l n f) {i : Fin 16} {a : Nat} (hit : f.entryMatches i a = true)
    (held : locked (f.cfg i) = true) :
    (l.Text a ∧ f.cfg i = kernelCfg 1) ∨ (l.Data a ∧ f.cfg i = kernelCfg 2) ∨ (UartPage a ∧ f.cfg i = kernelCfg 3) := by
  have installed : i.val < n := by
    by_contra beyond
    rw [stage.cfg i, if_neg beyond] at held
    cases held
  have cfg := stage.cfg i
  rw [if_pos installed] at cfg
  by_cases three : i.val = 1 ∨ i.val = 2 ∨ i.val = 3
  · obtain one | two | three := three
    · obtain rfl : i = 1 := Fin.ext one
      have text := textEntry (a := a) cfg (stage.anchorAddr (lt_trans (by decide) installed)) (stage.textAddr installed)
      exact .inl ⟨text.mp hit, cfg⟩
    · obtain rfl : i = 2 := Fin.ext two
      have data := dataEntry (a := a) cfg (stage.textAddr (lt_trans (by decide) installed)) (stage.dataAddr installed)
      exact .inr (.inl ⟨data.mp hit, cfg⟩)
    · obtain rfl : i = 3 := Fin.ext three
      exact .inr (.inr ⟨(uartEntry cfg (stage.uartAddr installed)).mp hit, cfg⟩)
  · rw [cfg, kernelCfg_off three] at held
    cases held

theorem Stage.usable (stage : Stage l n f) : Usable l f := by
  constructor
  · intro a text
    apply permits_machine
    intro i hit held
    rcases stage.locked_entry hit held with ⟨-, cfg⟩ | ⟨data, -⟩ | ⟨uart, -⟩
    · rw [cfg]; rfl
    · exact absurd data (Layout.text_not_data text)
    · exact absurd text (Layout.uart_apart uart).1
  · intro a k data read
    apply permits_machine
    intro i hit held
    rcases stage.locked_entry hit held with ⟨text, -⟩ | ⟨-, cfg⟩ | ⟨uart, -⟩
    · exact absurd data (Layout.text_not_data text)
    · rw [cfg]; cases k <;> first | rfl | exact absurd rfl read
    · exact absurd data (Layout.uart_apart uart).2
  · intro a k uart read
    apply permits_machine
    intro i hit held
    rcases stage.locked_entry hit held with ⟨text, -⟩ | ⟨data, -⟩ | ⟨-, cfg⟩
    · exact absurd text (Layout.uart_apart uart).1
    · exact absurd data (Layout.uart_apart uart).2
    · rw [cfg]; cases k <;> first | rfl | exact absurd rfl read

end Usable

/-! ## The writes -/

section Clear

variable {l : Layout} {p q : Regs}

theorem unlocked_cfg_zero {f : File} (free : ∀ i, locked (f.cfg i) = false) (b : Fin 2) (i : Fin 16) :
    locked ((f.writeCfg b 0).cfg i) = false := by
  rw [writeCfg_cfg]
  split
  · have zero : byteAt 0 (byteOf i) = 0 := byteAt_zero _
    rw [zero]
    rfl
  · exact free i

theorem careful_cfg_zero (before : p.Careful (Usable l) q) (free : ∀ i, locked (q.file.cfg i) = false) (b : Fin 2) :
    p.Careful (Usable l) (q.write (.cfg b 0)) := by
  apply before.write
  · apply takes_cfg
    intro i _ held
    rw [free i] at held
    cases held
  · exact usable_of_unlocked (unlocked_cfg_zero free b)

theorem careful_clearLoop (es : List (Fin pmpCount)) (before : p.Careful (Usable l) q)
    (free : ∀ i, locked (q.file.cfg i) = false) :
    p.Careful (Usable l) (es.foldl (fun p i => writePmpaddr p i 0) q) := by
  induction es generalizing q with
  | nil => exact before
  | cons e es ih =>
    have same : (q.file.writeAddr e 0).cfg = q.file.cfg := writeAddr_cfg _ _ _
    have free' : ∀ i, locked ((q.file.writeAddr e 0).cfg i) = false := by
      rw [same]
      exact free
    have writable := addrLocked_of_unlocked q.file (free e) fun above => free ⟨e + 1, above⟩
    exact ih (before.write (takes_addr writable) (usable_of_unlocked free')) free'

theorem careful_clearAll (free : ∀ i, locked (p.file.cfg i) = false) : p.Careful (Usable l) (clearAll p) := by
  have start : p.Careful (Usable l) p := .refl (usable_of_unlocked free)
  have first := careful_cfg_zero start free 0
  have second := careful_cfg_zero first (unlocked_cfg_zero free 0) 1
  rw [clearAll]
  exact careful_clearLoop _ second (unlocked_cfg_zero (unlocked_cfg_zero free 0) 1)

end Clear

section Install

variable {l : Layout} {p q : Regs} {f : File} {i : Fin 16}

theorem Stage.clear (stage : Stage l i.val f) : ClearFrom i.val f := by
  intro j above
  rw [stage.cfg j, if_neg (Nat.not_lt.mpr above)]

/-- Programming the next address register leaves the entries that are already installed. -/
theorem Stage.writeAddr (stage : Stage l i.val f) (v : BitVec 64) : Stage l i.val (f.writeAddr i v) := by
  have other (j : Fin 16) (before : j.val < i.val) : (f.writeAddr i v).addr j = f.addr j :=
    writeAddr_addr_other f fun same => absurd (congrArg Fin.val same) (Nat.ne_of_lt before)
  constructor
  · exact (writeAddr_addrBits f i v).trans stage.addrBits
  · intro j
    rw [writeAddr_cfg]
    exact stage.cfg j
  · intro before
    rw [other 0 before]
    exact stage.anchorAddr before
  · intro before
    rw [other 1 before]
    exact stage.textAddr before
  · intro before
    rw [other 2 before]
    exact stage.dataAddr before
  · intro before
    rw [other 3 before]
    exact stage.uartAddr before

/-- One iteration: the address first, then the configuration with its lock. -/
theorem Stage.install (stage : Stage l i.val q.file) {addr : BitVec 64} {cfg : BitVec 8}
    (next : Stage l (i.val + 1) (File.install q.file i addr cfg)) (before : p.Careful (Usable l) q) :
    p.Careful (Usable l) (setPmpcfg (writePmpaddr q i addr) i cfg) := by
  have clear := stage.clear
  have between := stage.writeAddr addr
  have first : p.Careful (Usable l) (writePmpaddr q i addr) := before.write (takes_addr clear.writable) between.usable
  have file : (setPmpcfg (writePmpaddr q i addr) i cfg).file = File.install q.file i addr cfg := install_file clear
  rw [setPmpcfg_write] at file ⊢
  apply first.write (setPmpcfg_takes between.clear.unlocked)
  have after := next.usable
  rw [← file] at after
  exact after

theorem Stage.install_cfg (stage : Stage l i.val f) (addr : BitVec 64) (j : Fin pmpCount) :
    (File.install f i addr (kernelCfg i)).cfg j = if j.val < i.val + 1 then kernelCfg j else 0 := by
  by_cases same : j = i
  · subst same
    rw [if_pos (Nat.lt_succ_self _)]
    exact Function.update_self _ _ _
  · have cfg : (File.install f i addr (kernelCfg i)).cfg j = f.cfg j := Function.update_of_ne same _ _
    have other : j.val ≠ i.val := fun val => same (Fin.ext val)
    have iff : j.val < i.val ↔ j.val < i.val + 1 := by omega
    rw [cfg, stage.cfg j]
    simp only [iff]

end Install

/-! ## The iterations -/

section Iterations

variable {l : Layout} {p : Regs} {f : File}

theorem stage_clear (free : ∀ i, locked (p.file.cfg i) = false) (bits : p.file.addrBits = 54) :
    Stage l 0 (clearAll p).file := by
  rw [clearAll_file free]
  exact ⟨bits, fun _ => rfl, nofun, nofun, nofun, nofun⟩

/-- The anchor's configuration is the one that it has when it is clear. -/
theorem Stage.anchor (stage : Stage l 0 f) : Stage l 1 (f.writeAddr 0 (l.stext >>> 2)) := by
  have start : l.stext.toNat < 2 ^ 56 := lt_trans l.text_lt (lt_trans l.data_lt l.physical)
  have writable := ClearFrom.writable (i := 0) stage.clear
  refine ⟨(writeAddr_addrBits f _ _).trans stage.addrBits, ?_, ?_, ?_, ?_, ?_⟩
  · intro j
    rw [writeAddr_cfg, stage.cfg j, if_neg (Nat.not_lt_zero _)]
    split
    · rename_i first
      obtain rfl : j = 0 := Fin.ext (Nat.lt_one_iff.mp first)
      rfl
    · rfl
  · intro _
    rw [writeAddr_addr_same f writable]
    exact toNat_legal_symbol stage.addrBits start
  · exact fun below => absurd below (by decide)
  · exact fun below => absurd below (by decide)
  · exact fun below => absurd below (by decide)

theorem Stage.text (stage : Stage l 1 f) : Stage l 2 (File.install f 1 (l.userTextEnd >>> 2) (kernelCfg 1)) := by
  have stop : l.userTextEnd.toNat < 2 ^ 56 := lt_trans l.data_lt l.physical
  refine ⟨stage.addrBits, Stage.install_cfg (i := 1) stage _, ?_, ?_, ?_, ?_⟩
  · exact fun _ => stage.anchorAddr (by decide)
  · exact fun _ => toNat_legal_symbol stage.addrBits stop
  · exact fun below => absurd below (by decide)
  · exact fun below => absurd below (by decide)

theorem Stage.data (stage : Stage l 2 f) : Stage l 3 (File.install f 2 (l.eheap >>> 2) (kernelCfg 2)) := by
  refine ⟨stage.addrBits, Stage.install_cfg (i := 2) stage _, ?_, ?_, ?_, ?_⟩
  · exact fun _ => stage.anchorAddr (by decide)
  · exact fun _ => stage.textAddr (by decide)
  · exact fun _ => toNat_legal_symbol stage.addrBits l.physical
  · exact fun below => absurd below (by decide)

theorem Stage.uart (stage : Stage l 3 f) :
    Stage l 4 (File.install f 3 (PmpRegion.napotAddr ⟨0x1000_0000, 0x1000, Flags.RW ||| Flags.L⟩) (kernelCfg 3)) := by
  refine ⟨stage.addrBits, Stage.install_cfg (i := 3) stage _, ?_, ?_, ?_, ?_⟩
  · exact fun _ => stage.anchorAddr (by decide)
  · exact fun _ => stage.textAddr (by decide)
  · exact fun _ => stage.dataAddr (by decide)
  · exact fun _ => toNat_legal_uart stage.addrBits

/-- Every write of `init` takes effect and leaves the kernel usable. -/
theorem init_careful (u : Uart) (start : l.stext > 0) (free : ∀ i, locked (p.file.cfg i) = false)
    (bits : p.file.addrBits = 54) : p.Careful (Usable l) (pmpInit l p u).1 := by
  let s0 := initEntry (clearAll p, u) 0 ⟨l.stext, 0, Flags.aOff⟩
  let s1 := initEntry s0 1 ⟨l.userTextEnd, 0, kernelCfg 1⟩
  let s2 := initEntry s1 2 ⟨l.eheap, 0, kernelCfg 2⟩
  let s3 := initEntry s2 3 ⟨0x1000_0000, 0x1000, Flags.RW ||| Flags.L⟩
  have loop : (pmpInit l p u).1 = s3.1 := rfl
  have stage0 := stage_clear (l := l) free bits
  have stage1 := stage0.anchor
  have first : s0.1 = writePmpaddr (clearAll p) 0 (l.stext >>> 2) := congrArg Prod.fst (initEntry_off start)
  have second : s1.1 = setPmpcfg (writePmpaddr s0.1 1 (l.userTextEnd >>> 2)) 1 (kernelCfg 1) :=
    congrArg Prod.fst (initEntry_tor (p := s0.1) (u := s0.2) (by decide))
  have third : s2.1 = setPmpcfg (writePmpaddr s1.1 2 (l.eheap >>> 2)) 2 (kernelCfg 2) :=
    congrArg Prod.fst (initEntry_tor (p := s1.1) (u := s1.2) (by decide))
  have fourth : s3.1 = setPmpcfg (writePmpaddr s2.1 3 (PmpRegion.napotAddr ⟨0x1000_0000, 0x1000, Flags.RW ||| Flags.L⟩)) 3
      (kernelCfg 3) := configureRegion_accepted (u := s2.2) (i := 3) (by decide)
  -- the anchor
  have careful0 : p.Careful (Usable l) s0.1 := by
    rw [first]
    exact (careful_clearAll free).write (takes_addr (ClearFrom.writable (i := 0) stage0.clear)) stage1.usable
  have file0 : Stage l 1 s0.1.file := by rw [first]; exact stage1
  -- the three locked entries
  have careful1 : p.Careful (Usable l) s1.1 := by rw [second]; exact Stage.install (i := 1) file0 file0.text careful0
  have file1 : Stage l 2 s1.1.file := by
    rw [second, install_file (Stage.clear (i := 1) file0)]
    exact file0.text
  have careful2 : p.Careful (Usable l) s2.1 := by rw [third]; exact Stage.install (i := 2) file1 file1.data careful1
  have file2 : Stage l 3 s2.1.file := by
    rw [third, install_file (Stage.clear (i := 2) file1)]
    exact file1.data
  rw [loop, fourth]
  exact Stage.install (i := 3) file2 file2.uart careful2

end Iterations

/-- **The kernel map.** After `init` machine mode may execute the text, read and write the data and the
UART page, and do anything elsewhere; the task entries are off. Every CSR write on the way takes effect,
and before, between and after the writes the kernel can execute its text and access its data and the
UART. -/
theorem kernel_map_installed (l : Layout) {p : Regs} (u : Uart) (start : 0 < l.stext.toNat)
    (free : ∀ i, locked (p.file.cfg i) = false) (bits : p.file.addrBits = 54) :
    let q := (pmpInit l p u).1
    (∀ a k, (l.Text a → (q.file.permits .machine k a = true ↔ k = .exec)) ∧
      (l.Data a → (q.file.permits .machine k a = true ↔ k ≠ .exec)) ∧
      (UartPage a → (q.file.permits .machine k a = true ↔ k ≠ .exec)) ∧
      (l.Outside a → q.file.permits .machine k a = true)) ∧
      (∀ i : Fin 16, 4 ≤ i.val → matching (q.file.cfg i) = .off) ∧
      ∃ ws, q = p.writeAll ws ∧ p.file.Along (Usable l) ws := by
  intro q
  have map := pmpInit_kernel l u free bits
  have off (i : Fin 16) (task : 4 ≤ i.val) : matching (q.file.cfg i) = .off := by
    rw [(pmpInit_task l u free task).1]
    rfl
  refine ⟨?_, off, init_careful u (BitVec.lt_def.mpr start) free bits⟩
  intro a k
  refine ⟨fun text => map.permits_text text .machine k, fun data => map.permits_data data .machine k,
    fun uart => map.permits_uart uart .machine k, fun out => ?_⟩
  apply permits_machine
  intro i hit _
  have miss : q.file.entryMatches i a = false := by
    rcases Nat.lt_or_ge i.val 4 with kernel | task
    · exact map.outside out kernel
    · exact entryMatches_off (off i task)
  rw [miss] at hit
  cases hit

theorem kernel_map_installed_qemu :
    let q := (pmpInit qemuVirt powerOn.kernel.pmp ⟨[], []⟩).1
    q.file.permits .machine .write 0x8000_0000 = false ∧
      ∃ ws, q = powerOn.kernel.pmp.writeAll ws ∧ powerOn.kernel.pmp.file.Along (Usable qemuVirt) ws := by
  obtain ⟨rights, -, careful⟩ :=
    kernel_map_installed qemuVirt ⟨[], []⟩ (by decide) powerOn_reset.unlocked powerOn_reset.addrBits
  refine ⟨?_, careful⟩
  have text := (rights 0x8000_0000 .write).1 ⟨by decide, by decide⟩
  rw [Bool.eq_false_iff, Ne, text]
  decide

/-- The end of that heap does not fit the 54 bits of `pmpaddr2`: the entry for the data covers nothing
and machine mode may execute it. -/
theorem top_of_memory_unprotected :
    topOfMemory.eheap.toNat = 2 ^ 56 ∧
      (topOfMemory.pmpInit powerOn.kernel.pmp ⟨[], []⟩).1.file.permits .machine .exec 0x8000_9000 = true := by
  refine ⟨by decide, ?_⟩
  rw [topOfMemory.pmpInit_file ⟨[], []⟩ powerOn_reset.unlocked]
  decide +kernel

end Cyptos
