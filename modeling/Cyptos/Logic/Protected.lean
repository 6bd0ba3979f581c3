import Cyptos.Kernel.Protected
import Cyptos.Logic.Entry
import Cyptos.Logic.Privilege

/-!
# What protection guarantees

The vector stores its frame before anything looks at where `sp` points, and the handler has its stack
below the frame. If either cannot be stored, no task is ever resumed: the kernel faults its way down, the
vector alone in steps of 256 bytes, and if a frame and the stack below it fit in the end, the handler
finds a fault from machine mode and panics. A machine that goes on has stored its frames, none of them
in the text; so the text stays as it was booted, whatever tasks do to their registers and memory.
-/

namespace Cyptos
set_option autoImplicit false
open Riscv Riscv.Pmp Sim

/-! ## The frame -/

/-- The frame below `sp` can be stored. -/
def FrameFits (allowed : BitVec 64 → Bool) (sp : BitVec 64) : Prop :=
  ∀ e ∈ frameTable, allowed (sp + BitVec.ofInt 64 (-256) + BitVec.ofNat 64 e.2) = true

instance (allowed : BitVec 64 → Bool) (sp : BitVec 64) : Decidable (FrameFits allowed sp) :=
  inferInstanceAs (Decidable (∀ e ∈ frameTable, _))

/-- What the vector runs once it has moved `sp`. -/
def vectorStores : List Instr := trapVectorSave.drop 2

theorem vectorStores_sp : ∀ i ∈ vectorStores, i.dest ≠ some .sp := by decide

section Entry

variable {allowed : BitVec 64 → Bool} {h : Hart}

/-- The hart when it has. -/
def movedSp (h : Hart) : Hart := runBlock [.csrw .mscratch .sp, .addi .sp .sp (-256)] h

theorem trapVectorSave_stores : trapVectorSave = [.csrw .mscratch .sp, .addi .sp .sp (-256)] ++ vectorStores := rfl

theorem targets_vectorStores : targets vectorStores (movedSp h) =
    frameTable.map fun e => h.x .sp + BitVec.ofInt 64 (-256) + BitVec.ofNat 64 e.2 := by
  have blocks : vectorStores = sds .sp frameBank ++ [.csrr .t0 .mscratch, .sd .t0 240 .sp, .mv .a0 .sp] := rfl
  rw [blocks, targets_append, targets_sds, runBlock_sds, frameTable_bank, List.map_append]
  rfl

theorem runChecked_vector : runChecked allowed 0 trapVectorSave h = runChecked allowed 2 vectorStores (movedSp h) := rfl

/-- A frame that fits is stored. -/
theorem vector_stores (fits : FrameFits allowed (h.x .sp)) :
    runChecked allowed 0 trapVectorSave h = .ok (runBlock trapVectorSave h) := by
  rw [runChecked_vector, trapVectorSave_stores, runBlock_append]
  apply runChecked_ok
  rw [targets_vectorStores]
  intro a member
  obtain ⟨e, slot, rfl⟩ := List.mem_map.mp member
  exact fits e slot

/-- A frame that does not fit leaves the vector with `sp` moved. -/
theorem vector_faults (refused : ¬ FrameFits allowed (h.x .sp)) : ∃ fault,
    runChecked allowed 0 trapVectorSave h = .error fault ∧ fault.hart.mode = h.mode ∧
      fault.hart.x .sp = h.x .sp + BitVec.ofInt 64 (-256) := by
  simp only [FrameFits, not_forall] at refused
  obtain ⟨e, slot, denied⟩ := refused
  have stores := List.mem_map_of_mem (f := fun e => h.x .sp + BitVec.ofInt 64 (-256) + BitVec.ofNat 64 e.2) slot
  rw [← targets_vectorStores] at stores
  obtain ⟨fault, done, ends, before, hart⟩ := runChecked_fault stores (Bool.eq_false_iff.mpr denied) 2
  refine ⟨fault, ends, ?_, ?_⟩
  · rw [hart, runBlock_mode]
    rfl
  · rw [hart, runBlock_x_other fun i member => vectorStores_sp i (before.subset member)]
    rfl

end Entry

/-! ## Entering the handler -/

/-- The machine that calls the handler. -/
def Machine.caller (m : Machine) (cause tval : BitVec 64) : Machine := ⟨m.entered cause tval, m.kernel⟩

/-- The stack of the handler can be stored when `m` calls it. -/
def StackFits (bus : BitVec 64 → Bool) (code : HandlerCode) (m : Machine) : Prop :=
  ∀ s ∈ code.stores m, s.machine.storable bus s.width s.addr = true

section Enter

variable {bus : BitVec 64 → Bool} {code : HandlerCode} {m : Machine}

/-- Once the frame is stored, the stack decides. -/
theorem enter_stored (frame : FrameFits (m.storable bus 8) (m.hart.x .sp)) (vector : Nat → BitVec 64) (code : HandlerCode)
    (cause tval : BitVec 64) : m.enter bus vector code cause tval =
      match code.refused bus (m.caller cause tval) with
      | some s => .error (s.machine, s.addr)
      | none => .ok (m.entered cause tval) := by
  have stored := vector_stores (h := m.hart.trapEntry cause tval) frame
  rw [Machine.enter, stored]
  rfl

theorem refused_none (stack : StackFits bus code m) : code.refused bus m = none := by
  rw [HandlerCode.refused, List.find?_eq_none]
  intro s member
  rw [stack s member]
  decide

theorem refused_some (refused : ¬ StackFits bus code m) : ∃ s, code.refused bus m = some s := by
  simp only [StackFits, not_forall] at refused
  obtain ⟨s, member, denied⟩ := refused
  apply Option.isSome_iff_exists.mp
  rw [HandlerCode.refused, List.find?_isSome]
  exact ⟨s, member, by simpa using denied⟩

/-- A frame that does not fit leads to a trap in machine mode, 256 bytes lower. -/
theorem enter_frame_refused (refused : ¬ FrameFits (m.storable bus 8) (m.hart.x .sp)) (vector : Nat → BitVec 64)
    (code : HandlerCode) (cause tval : BitVec 64) : ∃ h addr,
      m.enter bus vector code cause tval = .error (⟨h, m.kernel⟩, addr) ∧
      h.mode = .machine ∧ h.x .sp = m.hart.x .sp + BitVec.ofInt 64 (-256) := by
  obtain ⟨fault, ends, mode, sp⟩ := vector_faults (h := m.hart.trapEntry cause tval) refused
  refine ⟨{ fault.hart with pc := vector fault.index }, fault.addr, ?_, mode, sp⟩
  rw [Machine.enter, ends]

/-- Whatever does not fit leads to a trap in machine mode. -/
theorem enter_refused {cause tval : BitVec 64}
    (refused : ¬ (FrameFits (m.storable bus 8) (m.hart.x .sp) ∧ StackFits bus code (m.caller cause tval)))
    (vector : Nat → BitVec 64) : ∃ next addr,
      m.enter bus vector code cause tval = .error (next, addr) ∧ next.hart.mode = .machine := by
  by_cases frame : FrameFits (m.storable bus 8) (m.hart.x .sp)
  · obtain ⟨s, first⟩ := refused_some fun stack => refused ⟨frame, stack⟩
    have machine := code.machine _ s (List.mem_of_find?_eq_some first)
    refine ⟨s.machine, s.addr, ?_, machine⟩
    rw [enter_stored frame, first]
  · obtain ⟨h, addr, ends, mode, -⟩ := enter_frame_refused frame vector code cause tval
    exact ⟨_, addr, ends, mode⟩

end Enter

/-! ## Traps -/

section Traps

variable {bus : BitVec 64 → Bool} {vector : Nat → BitVec 64} {code : HandlerCode} {m : Machine} {cause tval : BitVec 64}
  {clobber : Reg → BitVec 64}

theorem handle_entered (m : Machine) (cause tval : BitVec 64) (clobber : Reg → BitVec 64) :
    m.handle (m.entered cause tval) clobber = m.trap cause tval clobber := rfl

/-- The handler panics about a store access fault from machine mode. -/
theorem store_fault_panics (machine : m.hart.mode = .machine) (tval : BitVec 64) (clobber : Reg → BitVec 64) :
    m.trap 7 tval clobber = .error "Store access fault" := by
  have mpp : readMpp (m.trapState 7 tval).csr ≠ 0b00 := by
    have saved := readMpp_trapCsrs m 7 tval
    rw [machine] at saved
    rw [trapState_eq]
    exact fun same => absurd (saved.symm.trans same) (by decide)
  have code : (causeCode 7).toNat = 7 := by decide
  have mcause : (m.trapState 7 tval).csr.mcause = 7 := by rw [trapState_eq]; rfl
  have panics : trapHandler (m.trapState 7 tval) = .error "Store access fault" := by
    rw [trapHandler]
    simp only [mcause]
    rw [if_neg (by decide), handleException, code]
    exact handleAccessFault_machine mpp _ _ _
  rw [Machine.trap, panics]
  rfl

/-- A trap that fits is handled as if stores were not checked. -/
theorem trapProtected_fits (frame : FrameFits (m.storable bus 8) (m.hart.x .sp))
    (stack : StackFits bus code (m.caller cause tval)) (fuel : Nat) :
    Machine.trapProtected bus vector code (fuel + 1) m cause tval clobber = some (m.trap cause tval clobber) := by
  rw [Machine.trapProtected, enter_stored frame, refused_none stack, ← handle_entered]

/-- From a store access fault in machine mode on, the kernel panics or keeps faulting. -/
theorem store_fault_never_returns (machine : m.hart.mode = .machine) (fuel : Nat) (tval : BitVec 64) :
    Machine.trapProtected bus vector code fuel m 7 tval clobber = none ∨
      Machine.trapProtected bus vector code fuel m 7 tval clobber = some (.error "Store access fault") := by
  induction fuel generalizing m tval with
  | zero => exact .inl rfl
  | succ fuel ih =>
    by_cases fits : FrameFits (m.storable bus 8) (m.hart.x .sp) ∧ StackFits bus code (m.caller 7 tval)
    · rw [trapProtected_fits fits.1 fits.2, store_fault_panics machine]
      exact .inr rfl
    · obtain ⟨next, addr, ends, mode⟩ := enter_refused fits vector
      rw [Machine.trapProtected, ends]
      exact ih mode addr

/-- So does a trap that does not fit. -/
theorem trapProtected_refused
    (refused : ¬ (FrameFits (m.storable bus 8) (m.hart.x .sp) ∧ StackFits bus code (m.caller cause tval))) (fuel : Nat) :
    Machine.trapProtected bus vector code fuel m cause tval clobber = none ∨
      Machine.trapProtected bus vector code fuel m cause tval clobber = some (.error "Store access fault") := by
  cases fuel with
  | zero => exact .inl rfl
  | succ fuel =>
    obtain ⟨next, addr, ends, mode⟩ := enter_refused refused vector
    rw [Machine.trapProtected, ends]
    exact store_fault_never_returns mode fuel addr

/-- A trap that returns has fitted. -/
theorem trapProtected_returns {fuel : Nat} {m' : Machine}
    (returns : Machine.trapProtected bus vector code fuel m cause tval clobber = some (.ok m')) :
    FrameFits (m.storable bus 8) (m.hart.x .sp) ∧ StackFits bus code (m.caller cause tval) := by
  by_contra refused
  have ends : Machine.trapProtected bus vector code fuel m cause tval clobber = none ∨ _ := trapProtected_refused refused fuel
  rcases ends with none | panics
  · rw [none] at returns
    cases returns
  · rw [panics] at returns
    cases returns

/-- A step under protection is one without. -/
theorem Machine.ProtectedStep.step {e : Event} {m' : Machine} (step : m.ProtectedStep bus vector code e m') : m.Step e m' := by
  obtain ⟨admits, after⟩ := step
  refine ⟨admits, ?_⟩
  cases e with
  | exec x pc mem => exact after.2
  | writeMstatus v => exact after
  | device rx mtime => exact after
  | trap cause tval clobber =>
    obtain ⟨fuel, after⟩ := after
    obtain ⟨frame, stack⟩ := trapProtected_returns after
    cases fuel with
    | zero => cases after
    | succ fuel =>
      rw [trapProtected_fits frame stack] at after
      exact Option.some.inj after

end Traps

/-! ## The text -/

section Text

variable {bus : BitVec 64 → Bool} {vector : Nat → BitVec 64} {code : HandlerCode} {l : Layout} {m m' : Machine}
variable {cause tval : BitVec 64}
  {clobber : Reg → BitVec 64}

/-- The text cannot be written to in any mode. -/
theorem KernelMap.text_unwritable {f : File} (map : KernelMap l f) {a : Nat} {mode : Mode}
    (fine : f.permits mode .write a = true) : ¬ l.Text a := by
  intro text
  rw [map.permits_text text] at fine
  cases fine

/-- A frame that fits lies clear of the text. -/
theorem FrameFits.clear (fits : FrameFits (m.storable bus 8) (m.hart.x .sp)) (map : KernelMap l m.kernel.pmp.file)
    {b : BitVec 64} (stored : b ∈ storedBytes trapVectorSave (m.hart.trapEntry cause tval)) : ¬ l.Text b.toNat := by
  obtain ⟨e, slot, j, small, rfl⟩ := mem_storedBytes_save.mp stored
  have fine := fits e slot
  rw [Machine.storable, Bool.and_eq_true] at fine
  exact map.text_unwritable (permits_of_permitsN fine.2 small)

/-- Bytes in data can be stored if the bus accepts data. -/
theorem storable_of_data (map : KernelMap l m.kernel.pmp.file) (ram : ∀ a : BitVec 64, l.Data a.toNat → bus a = true)
    {width : Nat} (pos : 0 < width) {a : BitVec 64} (inside : ∀ j < width, l.Data (a + BitVec.ofNat 64 j).toNat) :
    m.storable bus width a = true := by
  have first : l.Data a.toNat := by
    have zero := inside 0 pos
    rwa [BitVec.add_zero] at zero
  rw [Machine.storable, Bool.and_eq_true, File.permitsN, Bool.and_eq_true, List.all_eq_true]
  refine ⟨ram a first, fun j member => ?_, (map.permits_data first .machine .write).mpr (by decide)⟩
  -- the data entry decides about every byte
  rw [map.first_data (inside j (List.mem_range.mp member)), map.first_data first]
  rfl

/-- A frame in data fits if the bus accepts data. -/
theorem fits_of_data (map : KernelMap l m.kernel.pmp.file) (ram : ∀ a : BitVec 64, l.Data a.toNat → bus a = true)
    (cause tval : BitVec 64)
    (inside : ∀ b ∈ storedBytes trapVectorSave (m.hart.trapEntry cause tval), l.Data b.toNat) :
    FrameFits (m.storable bus 8) (m.hart.x .sp) := by
  intro e slot
  refine storable_of_data map ram (by decide) fun j small => inside _ ?_
  exact mem_storedBytes_save.mpr ⟨e, slot, j, small, rfl⟩

theorem toMem_other {f : TrapFrame} {mem : Mem} {p b : BitVec 64} (other : ∀ j < 248, b ≠ p + BitVec.ofNat 64 j) :
    f.toMem mem p b = mem b := by
  rw [TrapFrame.toMem_eq]
  refine storeAll_other fun s member => ?_
  obtain ⟨e, slot, rfl⟩ := List.mem_map.mp member
  have room := frame_offset_of_slot e slot
  by_contra near
  have close : (b - (p + BitVec.ofNat 64 e.2)).toNat < 8 := Nat.lt_of_not_le near
  apply other (e.2 + (b - (p + BitVec.ofNat 64 e.2)).toNat) (by omega)
  rw [BitVec.ofNat_add, BitVec.ofNat_toNat, BitVec.setWidth_eq]
  bv_omega

theorem resume_mem (s : TrapState) : (m.resume cause tval clobber s).hart.mem =
    s.frame.toMem ((TrapFrame.ofRegs m.hart.x).toMem m.hart.mem (frameBase (m.hart.trapEntry cause tval)))
      (frameBase (m.hart.trapEntry cause tval)) := by
  have saved := save_mem (m.hart.trapEntry cause tval)
  have base := save_a0 (m.hart.trapEntry cause tval)
  have restored (h : Hart) : (runBlock trapVectorRestore h).mem = h.mem := by
    rw [trapVectorRestore_eq, runBlock_lds]
  simp only [Machine.resume, Hart.mret, restored, Machine.entered, saved, base]
  rfl

/-- A trap changes memory in its frame only. -/
theorem trap_mem_other (after : m.trap cause tval clobber = .ok m') {b : BitVec 64}
    (other : b ∉ storedBytes trapVectorSave (m.hart.trapEntry cause tval)) : m'.hart.mem b = m.hart.mem b := by
  have outside : ∀ j < 248, b ≠ frameBase (m.hart.trapEntry cause tval) + BitVec.ofNat 64 j := fun j small hit =>
    other (mem_storedBytes_save_iff.mpr ⟨j, small, hit⟩)
  obtain ⟨s, -, returned⟩ := Outcome.bind_ok.mp after
  cases returned
  rw [resume_mem, toMem_other outside, toMem_other outside]

/-- A step under protection leaves the text alone. -/
theorem Machine.ProtectedStep.text {e : Event} (step : m.ProtectedStep bus vector code e m')
    (map : KernelMap l m.kernel.pmp.file) {a : BitVec 64} (text : l.Text a.toNat) : m'.hart.mem a = m.hart.mem a := by
  have plain := step.step.2
  cases e with
  | exec x pc mem =>
    obtain ⟨-, permitted, after⟩ := step
    cases after
    by_contra changed
    exact map.text_unwritable (permitted a changed) text
  | writeMstatus v =>
    cases plain
    rfl
  | device rx mtime =>
    cases plain
    rfl
  | trap cause tval clobber =>
    obtain ⟨-, fuel, returns⟩ := step
    exact trap_mem_other plain fun stored => (trapProtected_returns returns).1.clear map stored text

end Text

/-- A handler that keeps `ra` and `s0` on its stack. -/
def framedHandler : HandlerCode where
  stores m := [8, 16].map fun off =>
    ⟨⟨{ m.hart with mode := .machine, x := Function.update m.hart.x .sp (m.hart.x .sp - 16) }, m.kernel⟩, 8, m.hart.x .sp - off⟩
  machine m s member := by
    obtain ⟨off, -, rfl⟩ := List.mem_map.mp member
    rfl

theorem framed_fits {bus : BitVec 64 → Bool} {l : Layout} {m : Machine} (map : KernelMap l m.kernel.pmp.file)
    (ram : ∀ a : BitVec 64, l.Data a.toNat → bus a = true)
    (inside : ∀ off ∈ [8, 16], ∀ j < 8, l.Data (m.hart.x .sp - off + BitVec.ofNat 64 j).toNat) :
    StackFits bus framedHandler m := by
  intro s member
  obtain ⟨off, listed, rfl⟩ := List.mem_map.mp member
  exact storable_of_data (m := ⟨_, m.kernel⟩) map ram (Nat.succ_pos 7) (inside off listed)

/-- **The text is immutable.** A run in which stores are checked is a run of the machine, and no byte of kernel or
user text changes in it, whatever the tasks do to their registers and to the memory they may write. -/
theorem text_immutable {l : Layout} {specs : List TaskSpec} {start m : Machine} {es : List Event}
    (booted : Booted l specs start) {bus : BitVec 64 → Bool} {vector : Nat → BitVec 64} {code : HandlerCode}
    (run : Run (Machine.ProtectedStep bus vector code) start es m) :
    Runs start es m ∧ ∀ a : BitVec 64, l.Text a.toNat → m.hart.mem a = start.hart.mem a := by
  have plain {es : List Event} {m : Machine} (run : Run (Machine.ProtectedStep bus vector code) start es m) : Runs start es m :=
    run.mono fun _ _ _ step => step.step
  refine ⟨plain run, fun a text => ?_⟩
  refine run.invariant_with (P := fun m => m.hart.mem a = start.hart.mem a)
    (fun _ _ before => guarded_of_run booted (plain before)) rfl fun m e m' guarded kept step => ?_
  rw [step.text guarded.kernel text, kept]

/-- The boot code moves to a stack in data and writes there. -/
def bootWrites : Event :=
  .exec (fun r => if r = .sp then 0x8001_0000 else 0) 0x8000_0100 (Function.update kmainBooted.hart.mem 0x8001_0000 1)

def bootWritten : Machine := (kmainBooted.after bootWrites).toOption.getD kmainBooted

/-- The echo task is then dispatched, and its code is as it was. -/
theorem text_immutable_qemu : ∃ m,
    Run (Machine.ProtectedStep (fun _ => true) (fun _ => 0) framedHandler) kmainBooted [bootWrites, timerTick] m ∧
    m.kernel.sched.current = some 1 ∧ m.hart.mem 0x8000_8000 = kmainBooted.hart.mem 0x8000_8000 := by
  have map : KernelMap qemuVirt kmainBooted.kernel.pmp.file := (guarded_of_run kmain_booted .start).kernel
  have write : kmainBooted.ProtectedStep (fun _ => true) (fun _ => 0) framedHandler bootWrites bootWritten := by
    refine ⟨trivial, fun a changed => ?_, Outcome.eq_ok _ rfl⟩
    have here : a = 0x8001_0000 := by
      by_contra other
      exact changed (Function.update_of_ne other _ _)
    rw [here]
    exact (map.permits_data ⟨by decide, by decide⟩ .machine .write).mpr (by decide)
  have fits : FrameFits (bootWritten.storable (fun _ => true) 8) (bootWritten.hart.x .sp) := by
    refine fits_of_data map (fun _ _ => rfl) 0 0 fun b stored => ?_
    obtain ⟨j, small, rfl⟩ := mem_storedBytes_save_iff.mp stored
    have base : frameBase (bootWritten.hart.trapEntry 0 0) = 0x8000_FF00 := rfl
    rw [base, Layout.Data, BitVec.toNat_add, BitVec.toNat_ofNat]
    change 0x8000_9000 ≤ (0x8000_FF00 + j % 2 ^ 64) % 2 ^ 64 ∧ (0x8000_FF00 + j % 2 ^ 64) % 2 ^ 64 < 0x8102_0000
    omega
  have stack : StackFits (fun _ => true) framedHandler (bootWritten.caller 0x8000_0000_0000_0007 0) := by
    have below : (bootWritten.caller 0x8000_0000_0000_0007 0).hart.x .sp = 0x8000_FF00 := rfl
    refine framed_fits map (fun _ _ => rfl) ?_
    rw [below, List.forall_mem_cons, List.forall_mem_singleton]
    unfold Layout.Data
    exact ⟨by decide, by decide⟩
  let m := (bootWritten.after timerTick).toOption.getD bootWritten
  have tick : bootWritten.ProtectedStep (fun _ => true) (fun _ => 0) framedHandler timerTick m := by
    refine ⟨fun _ => .inr (by decide), 1, ?_⟩
    rw [trapProtected_fits fits stack]
    exact congrArg some (Outcome.eq_ok _ rfl)
  have run : Run (Machine.ProtectedStep (fun _ => true) (fun _ => 0) framedHandler) kmainBooted [bootWrites, timerTick] m :=
    (Run.start.next write).next tick
  obtain ⟨-, kept⟩ := text_immutable kmain_booted run
  exact ⟨m, run, rfl, kept 0x8000_8000 ⟨by decide, by decide⟩⟩

end Cyptos
