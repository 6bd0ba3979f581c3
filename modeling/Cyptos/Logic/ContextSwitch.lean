import Cyptos.Logic.Trap

/-!
# Two ways to restore a context

A task is resumed through the trap frame: `schedule` copies its context into the frame and the CSRs, and the
vector loads the frame. `do_context_switch_asm` loads the same context from memory, through a base register
that it loads last. Both leave the registers, `mepc` and `mstatus` of the context, as `repr(C)` lays it out.
-/

namespace Cyptos
set_option autoImplicit false
open Riscv

/-! ## A context in memory -/

/-- The size of a `TaskContext`. -/
def contextSize : Nat := 264

/-- A context is its registers and the two CSRs behind them. -/
theorem TaskContext.ofMem_eq (m : Mem) (p : BitVec 64) :
    TaskContext.ofMem m p =
      .of (TrapFrame.ofRegs fun r => loadD m (p + BitVec.ofNat 64 (frameOffset r)))
        (loadD m (p + BitVec.ofNat 64 248)) (loadD m (p + BitVec.ofNat 64 256)) := rfl

theorem TaskContext.ofMem_reg (m : Mem) (p : BitVec 64) (r : Reg) :
    (TaskContext.ofMem m p).frame.reg r = loadD m (p + BitVec.ofNat 64 (frameOffset r)) := by
  rw [TaskContext.ofMem_eq, of_frame, TrapFrame.reg_ofRegs]

theorem TaskContext.of_parts (c : TaskContext) : .of (TrapFrame.ofRegs c.frame.reg) c.mepc c.mstatus = c := rfl

/-- The slots of a context. -/
def TaskContext.slots (c : TaskContext) : List (Nat × BitVec 64) :=
  (frameTable.map fun e => (e.2, c.frame.reg e.1)) ++ [(248, c.mepc), (256, c.mstatus)]

theorem TaskContext.toMem_eq (c : TaskContext) (m : Mem) (p : BitVec 64) : c.toMem m p = storeAll m p c.slots := rfl

/-- The registers lie below the CSRs. -/
theorem frameTable_le : ∀ e ∈ frameTable, e.2 + 8 ≤ 248 := by decide

theorem frameOffset_le (r : Reg) : frameOffset r + 8 ≤ 248 := frameTable_le (r, frameOffset r) (mem_frameTable r)

theorem TaskContext.slots_separate (c : TaskContext) : Separate (c.slots.map Prod.fst) := by
  have offsets : c.slots.map Prod.fst = (frameTable.map Prod.snd) ++ [248, 256] := rfl
  rw [offsets]
  constructor
  · refine List.pairwise_append.mpr ⟨frameTable_separate.apart, by simp [Apart], fun a left b right => ?_⟩
    obtain ⟨e, row, rfl⟩ := List.mem_map.mp left
    have bound := frameTable_le e row
    simp only [List.mem_cons, List.not_mem_nil, or_false] at right
    rcases right with rfl | rfl
    · exact .inl bound
    · exact .inl (le_trans bound (by decide))
  · intro s member
    rcases List.mem_append.mp member with early | late
    · exact frameTable_separate.small s early
    · simp only [List.mem_cons, List.not_mem_nil, or_false] at late
      rcases late with rfl | rfl
      · decide
      · decide

theorem TaskContext.mem_slots (c : TaskContext) (r : Reg) : (frameOffset r, c.frame.reg r) ∈ c.slots :=
  List.mem_append_left _ (List.mem_map.mpr ⟨(r, frameOffset r), mem_frameTable r, rfl⟩)

/-- Every context can be placed at every address. -/
theorem TaskContext.ofMem_toMem (c : TaskContext) (m : Mem) (p : BitVec 64) :
    TaskContext.ofMem (c.toMem m p) p = c := by
  have regs : (fun r => loadD (storeAll m p c.slots) (p + BitVec.ofNat 64 (frameOffset r))) = c.frame.reg :=
    funext fun r => loadD_storeAll_slot c.slots_separate (c.mem_slots r)
  have mepc : (248, c.mepc) ∈ c.slots := List.mem_append_right _ List.mem_cons_self
  have mstatus : (256, c.mstatus) ∈ c.slots := List.mem_append_right _ (List.mem_cons_of_mem _ List.mem_cons_self)
  rw [TaskContext.toMem_eq, TaskContext.ofMem_eq, regs, loadD_storeAll_slot c.slots_separate mepc,
    loadD_storeAll_slot c.slots_separate mstatus, TaskContext.of_parts]

/-! ## The switch -/

/-- The registers in the order in which the switch loads them: the base register `a1` last. -/
def switchTable : List (Reg × Nat) := frameTable.filter (fun e => e.1 ≠ .a1) ++ [(.a1, 72)]

/-- The CSRs of the new context, through `t0`. -/
def loadCsrs : List Instr := [.ld .t0 248 .a1, .csrw .mepc .t0, .ld .t0 256 .a1, .csrw .mstatus .t0]

theorem doContextSwitchAsm_eq :
    doContextSwitchAsm = sds .a0 frameTable ++ (loadCsrs ++ lds .a1 switchTable) := by decide

theorem switchTable_registers : switchTable.Pairwise fun d e => d.1 ≠ e.1 ∧ d.1 ≠ .a1 := by decide

theorem mem_switchTable (r : Reg) : (r, frameOffset r) ∈ switchTable := by
  cases r <;> decide

/-- Loading the CSRs leaves `t0` and changes no other register. -/
theorem runBlock_loadCsrs (g : Hart) :
    runBlock loadCsrs g =
      { g with
        x := Function.update g.x .t0 (loadD g.mem (g.x .a1 + BitVec.ofNat 64 256))
        csr := { g.csr with
          mepc := loadD g.mem (g.x .a1 + BitVec.ofNat 64 248)
          mstatus := loadD g.mem (g.x .a1 + BitVec.ofNat 64 256) } } := by
  have twice : Function.update (Function.update g.x .t0 (loadD g.mem (g.x .a1 + BitVec.ofNat 64 248))) .t0
      (loadD g.mem (g.x .a1 + BitVec.ofNat 64 256)) =
        Function.update g.x .t0 (loadD g.mem (g.x .a1 + BitVec.ofNat 64 256)) := Function.update_idem _ _ _
  rw [← twice]
  rfl

section Switch

variable (h : Hart)

/-- The hart once the old context is saved. -/
def oldSaved : Hart := { h with mem := storeAll h.mem (h.x .a0) (frameTable.map fun e => (e.2, h.x e.1)) }

theorem switch_eq :
    runBlock doContextSwitchAsm h = runBlock (lds .a1 switchTable) (runBlock loadCsrs (oldSaved h)) := by
  rw [doContextSwitchAsm_eq, runBlock_append, runBlock_append, runBlock_sds]
  rfl

variable {h} (apart : RangesApart (h.x .a0) contextSize (h.x .a1) contextSize)
include apart

/-- Saving the old context leaves the new one as it is. -/
theorem loadD_oldSaved (off : Nat) (inside : off + 8 ≤ contextSize) :
    loadD (oldSaved h).mem (h.x .a1 + BitVec.ofNat 64 off) = loadD h.mem (h.x .a1 + BitVec.ofNat 64 off) := by
  refine loadD_storeAll_apart apart (fun s member => ?_) inside
  obtain ⟨e, row, rfl⟩ := List.mem_map.mp member
  exact le_trans (frameTable_le e row) (by decide)

/-- The switch loads every register of the new context. -/
theorem switch_x : (runBlock doContextSwitchAsm h).x = (TaskContext.ofMem h.mem (h.x .a1)).frame.reg := by
  funext r
  have load := runBlock_lds_x (h := runBlock loadCsrs (oldSaved h)) switchTable_registers (mem_switchTable r)
  have base : (runBlock loadCsrs (oldSaved h)).x .a1 = h.x .a1 := by
    rw [runBlock_loadCsrs]
    rfl
  have mem : (runBlock loadCsrs (oldSaved h)).mem = (oldSaved h).mem := by rw [runBlock_loadCsrs]
  have inside : frameOffset r + 8 ≤ contextSize := le_trans (frameOffset_le r) (by decide)
  dsimp only at load
  rw [switch_eq, load, base, mem, loadD_oldSaved apart _ inside, TaskContext.ofMem_reg]

/-- The switch loads the CSRs of the new context. -/
theorem switch_csr : (runBlock doContextSwitchAsm h).csr =
    { h.csr with
      mepc := (TaskContext.ofMem h.mem (h.x .a1)).mepc
      mstatus := (TaskContext.ofMem h.mem (h.x .a1)).mstatus } := by
  have mepc := loadD_oldSaved apart 248 (by decide)
  have mstatus := loadD_oldSaved apart 256 (by decide)
  rw [switch_eq, runBlock_lds, runBlock_loadCsrs]
  dsimp only
  rw [show (oldSaved h).x .a1 = h.x .a1 from rfl, mepc, mstatus]
  rfl

end Switch

theorem switch_mem (h : Hart) :
    (runBlock doContextSwitchAsm h).mem = (TrapFrame.ofRegs h.x).toMem h.mem (h.x .a0) := by
  rw [switch_eq, runBlock_lds, runBlock_loadCsrs, TrapFrame.toMem_eq, TrapFrame.reg_ofRegs]
  rfl

/-! ## The whole switch -/

/-- The hart once `context_switch` has saved the CSRs. -/
def csrsSaved (h : Hart) : Hart :=
  { h with mem := storeAll h.mem (h.x .a0) [(248, h.csr.mepc), (256, h.csr.mstatus)] }

theorem contextSwitch_eq (h : Hart) : contextSwitch h = (runBlock doContextSwitchAsm (csrsSaved h)).mret := rfl

theorem contextSwitch_mem (h : Hart) :
    (contextSwitch h).mem = (TrapFrame.ofRegs h.x).toMem (csrsSaved h).mem (h.x .a0) := by
  have mret (g : Hart) : g.mret.mem = g.mem := rfl
  have x : (csrsSaved h).x = h.x := rfl
  rw [contextSwitch_eq, mret, switch_mem, x]

/-- The registers are stored below the CSRs. -/
theorem loadD_contextSwitch_csr (h : Hart) {off : Nat} (above : 248 ≤ off) (small : off < 2 ^ 63) :
    loadD (contextSwitch h).mem (h.x .a0 + BitVec.ofNat 64 off) =
      loadD (csrsSaved h).mem (h.x .a0 + BitVec.ofNat 64 off) := by
  rw [contextSwitch_mem, TrapFrame.toMem_eq]
  apply loadD_storeAll_other _ _ small
  · intro s member
    obtain ⟨e, row, rfl⟩ := List.mem_map.mp member
    exact .inl (le_trans (frameTable_le e row) above)
  · intro s member
    obtain ⟨e, row, rfl⟩ := List.mem_map.mp member
    exact lt_of_le_of_lt (le_trans (Nat.le_add_right _ 8) (frameTable_le e row)) (by decide)

/-- **`context_switch` saves the old context whole.** -/
theorem contextSwitch_saves (h : Hart) :
    TaskContext.ofMem (contextSwitch h).mem (h.x .a0) = .of (TrapFrame.ofRegs h.x) h.csr.mepc h.csr.mstatus := by
  have regs : (fun r => loadD (contextSwitch h).mem (h.x .a0 + BitVec.ofNat 64 (frameOffset r))) = h.x := by
    funext r
    rw [contextSwitch_mem, TrapFrame.loadD_toMem_reg, TrapFrame.reg_ofRegs]
  have separate : Separate ([(248, h.csr.mepc), (256, h.csr.mstatus)].map Prod.fst) :=
    ⟨by simp [Apart], by simp⟩
  have mepc : loadD (csrsSaved h).mem (h.x .a0 + BitVec.ofNat 64 248) = h.csr.mepc :=
    loadD_storeAll_slot separate List.mem_cons_self
  have mstatus : loadD (csrsSaved h).mem (h.x .a0 + BitVec.ofNat 64 256) = h.csr.mstatus :=
    loadD_storeAll_slot separate (List.mem_cons_of_mem _ List.mem_cons_self)
  rw [TaskContext.ofMem_eq, regs, loadD_contextSwitch_csr h (by decide) (by decide),
    loadD_contextSwitch_csr h (by decide) (by decide), mepc, mstatus]

/-- **`context_switch` runs the new context.** -/
theorem contextSwitch_resumed {h : Hart} (apart : RangesApart (h.x .a0) contextSize (h.x .a1) contextSize) :
    Resumed (contextSwitch h) (TaskContext.ofMem h.mem (h.x .a1)) := by
  have kept (off : Nat) (inside : off + 8 ≤ contextSize) : loadD (csrsSaved h).mem (h.x .a1 + BitVec.ofNat 64 off) =
      loadD h.mem (h.x .a1 + BitVec.ofNat 64 off) := by
    refine loadD_storeAll_apart apart (fun s member => ?_) inside
    simp only [List.mem_cons, List.not_mem_nil, or_false] at member
    rcases member with rfl | rfl
    · exact (by decide : 248 + 8 ≤ contextSize)
    · exact (by decide : 256 + 8 ≤ contextSize)
  have same : TaskContext.ofMem (csrsSaved h).mem (h.x .a1) = TaskContext.ofMem h.mem (h.x .a1) := by
    have regs : (fun r => loadD (csrsSaved h).mem (h.x .a1 + BitVec.ofNat 64 (frameOffset r))) =
        fun r => loadD h.mem (h.x .a1 + BitVec.ofNat 64 (frameOffset r)) :=
      funext fun r => kept _ (le_trans (frameOffset_le r) (by decide))
    rw [TaskContext.ofMem_eq, TaskContext.ofMem_eq, regs, kept 248 (by decide), kept 256 (by decide)]
  have x := switch_x (h := csrsSaved h) apart
  have csr := switch_csr (h := csrsSaved h) apart
  rw [show (csrsSaved h).x .a1 = h.x .a1 from rfl, same] at x csr
  rw [contextSwitch_eq]
  exact .of_mret x (by rw [csr]) (by rw [csr])

/-! ## The frame -/

/-- Steps 5 and 6 of `schedule` on the hart: the context goes to the frame at `sp` and to the CSRs. -/
def restoreContext (g : Hart) (ctx : TaskContext) : Hart :=
  { g with
    mem := (copyGprFieldsToFrame ctx (TrapFrame.ofMem g.mem (g.x .sp))).toMem g.mem (g.x .sp)
    csr := { g.csr with mepc := ctx.mepc, mstatus := ctx.mstatus } }

theorem copyGprFields_frame (ctx : TaskContext) (f : TrapFrame) : copyGprFieldsToFrame ctx f = ctx.frame := rfl

/-- The vector loads what `schedule` left. -/
theorem restoreContext_restore (g : Hart) (ctx : TaskContext) :
    runBlock trapVectorRestore (restoreContext g ctx) =
      { restoreContext g ctx with x := ctx.frame.reg } := by
  apply restore_eq (m := g.mem)
  rw [← copyGprFields_frame ctx (TrapFrame.ofMem g.mem (g.x .sp))]
  rfl

/-- When `schedule` switches to a task, this is what it does to the frame and the CSRs. -/
theorem schedule_restoreContext {g : Hart} {s : TrapState} (csr : s.csr = g.csr) {i : Fin maxTasks} {t : Task}
    (chosen : selectSlot s.kernel.sched.current s.saved.isReady = some i) (slot : s.saved.tasks i = some t) :
    ∃ r, schedule s = .ok r ∧
      { g with mem := r.frame.toMem g.mem (g.x .sp), csr := r.csr } = restoreContext g t.context := by
  obtain ⟨r, done, switched⟩ := schedule_ok s
  refine ⟨r, done, ?_⟩
  cases switched with
  | idle none =>
    rw [none] at chosen
    cases chosen
  | switch uart chosen' slot' =>
    obtain rfl := Option.some.inj (chosen'.symm.trans chosen)
    obtain rfl := Option.some.inj (slot'.symm.trans slot)
    rw [csr]
    rfl

/-- **The two restore paths agree.** Just before `mret` the switch and the vector after `schedule` have the same
registers, `mepc` and `mstatus`: those of the new context. -/
theorem restore_paths_agree {h : Hart} {new : TaskContext} (placed : TaskContext.ofMem h.mem (h.x .a1) = new)
    (apart : RangesApart (h.x .a0) contextSize (h.x .a1) contextSize) :
    let switched := runBlock doContextSwitchAsm h
    (switched.x = new.frame.reg ∧ switched.csr.mepc = new.mepc ∧ switched.csr.mstatus = new.mstatus) ∧
      ∀ g : Hart, let restored := runBlock trapVectorRestore (restoreContext g new)
        restored.x = switched.x ∧ restored.csr.mepc = switched.csr.mepc ∧
          restored.csr.mstatus = switched.csr.mstatus := by
  intro switched
  have x : switched.x = new.frame.reg := by rw [← placed]; exact switch_x apart
  have csr : switched.csr = { h.csr with mepc := new.mepc, mstatus := new.mstatus } := by
    rw [← placed]
    exact switch_csr apart
  have mepc : switched.csr.mepc = new.mepc := by rw [csr]
  have mstatus : switched.csr.mstatus = new.mstatus := by rw [csr]
  refine ⟨⟨x, mepc, mstatus⟩, ?_⟩
  intro g restored
  have vector : restored = { restoreContext g new with x := new.frame.reg } := restoreContext_restore g new
  rw [vector, x, mepc, mstatus]
  exact ⟨rfl, rfl, rfl⟩

/-- A new user task at `0x8002_1000`, switched to from a context that lies right behind it. -/
def switchHart : Hart where
  x := fun r => if r = .a0 then 0x8002_1108 else if r = .a1 then 0x8002_1000 else 7
  pc := 0x8000_1000
  mode := .machine
  csr := ⟨0x1800, 0, 0, 0, 0⟩
  mem := (TaskContext.newUmode 0x8000_8000 0x8003_0000).toMem (fun _ => 0) 0x8002_1000

theorem restore_paths_agree_user :
    (runBlock doContextSwitchAsm switchHart).x .sp = 0x8003_0000 ∧
      (runBlock doContextSwitchAsm switchHart).csr.mepc = 0x8000_8000 := by
  have apart : RangesApart (switchHart.x .a0) contextSize (switchHart.x .a1) contextSize := by
    intro i low j low'
    change 0x8002_1108#64 + BitVec.ofNat 64 i ≠ 0x8002_1000#64 + BitVec.ofNat 64 j
    unfold contextSize at low low'
    bv_omega
  obtain ⟨⟨x, mepc, -⟩, -⟩ :=
    restore_paths_agree (h := switchHart) (TaskContext.ofMem_toMem (.newUmode 0x8000_8000 0x8003_0000) _ _) apart
  rw [x, mepc]
  exact ⟨rfl, rfl⟩

end Cyptos
