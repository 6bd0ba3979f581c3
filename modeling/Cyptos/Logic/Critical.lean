import Cyptos.Kernel.IrqCell
import Cyptos.Kernel.Scheduler
import Cyptos.Sim.Run

/-!
# Critical sections

The code that is left to do determines `MIE`: it is clear as long as a closure is open, and else has
the value the code was entered with. A section restores what it has read because what it has read
is the value that the rest of the code calls for; an interrupt in between does not show, for it
cannot come while `MIE` is clear and `mret` brings the value back.
-/

namespace Cyptos
set_option autoImplicit false
open Riscv Sim

section Sections

variable {σ : Type}

/-- Some closure of a `with_lock` is open. -/
def InClosure (code : List (Todo σ)) : Prop := ∃ mstatus, .leave mstatus ∈ code

/-- The `MIE` that the code calls for, when it was entered with `base`. -/
def calledFor (base : Bool) : List (Todo σ) → Bool
  | [] => base
  | .prog _ :: rest => calledFor base rest
  | .clear _ _ :: rest => calledFor base rest
  | .leave _ :: _ => false
  | .enable :: _ => false

/-- Every section in progress has read the `MIE` that the code behind it calls for. -/
def Saved (base : Bool) : List (Todo σ) → Prop
  | [] => True
  | .prog _ :: rest => Saved base rest
  | .clear mstatus _ :: rest => Status.mie mstatus = calledFor base rest ∧ Saved base rest
  | .leave mstatus :: rest => Status.mie mstatus = calledFor base rest ∧ Saved base rest
  | .enable :: rest => calledFor base rest = true ∧ Saved base rest

theorem calledFor_false (code : List (Todo σ)) : calledFor false code = false := by
  induction code with
  | nil => rfl
  | cons todo rest ih =>
    cases todo with
    | prog => exact ih
    | clear => exact ih
    | leave => rfl
    | enable => rfl

theorem calledFor_closure {base : Bool} {code : List (Todo σ)} (inside : InClosure code) :
    calledFor base code = false := by
  obtain ⟨mstatus, member⟩ := inside
  induction code with
  | nil => cases member
  | cons todo rest ih =>
    rcases List.mem_cons.mp member with rfl | later
    · rfl
    · cases todo with
      | prog => exact ih later
      | clear => exact ih later
      | leave => rfl
      | enable => rfl

/-! ## One instruction -/

/-- Running code that was entered with `base`. -/
structure Activation (base : Bool) (mstatus : BitVec 64) (code : List (Todo σ)) : Prop where
  saved : Saved base code
  mie : Status.mie mstatus = calledFor base code

/-- An instruction leaves `MIE` as the code calls for it. -/
theorem Activation.exec {base : Bool} {c : Core σ} {todo : Todo σ} {rest : List (Todo σ)}
    (active : Activation base c.mstatus (todo :: rest)) :
    Activation base (c.exec rest todo).mstatus (c.exec rest todo).code := by
  have saved := active.saved
  have mie := active.mie
  cases todo with
  | prog p =>
    cases p with
    | work w => exact ⟨saved, (w.keeps _).trans mie⟩
    | seq first second => exact ⟨saved, mie⟩
    | cond test yes no => exact ⟨saved, mie⟩
    | loop test body =>
      simp only [Core.exec]
      split
      · exact ⟨saved, mie⟩
      · exact ⟨saved, mie⟩
    | withLock body => exact ⟨⟨mie, saved⟩, mie⟩
  | clear mstatus body => exact ⟨saved, Status.mie_clear _⟩
  | leave mstatus =>
    simp only [Core.exec]
    split
    · rename_i set
      have read := (Status.and_mie_ne_zero mstatus).mp set
      exact ⟨⟨saved.1.symm.trans read, saved.2⟩, mie⟩
    · rename_i unset
      have read : Status.mie mstatus = false := by
        rw [← Bool.not_eq_true]
        exact fun set => unset ((Status.and_mie_ne_zero mstatus).mpr set)
      exact ⟨saved.2, mie.trans (read.symm.trans saved.1)⟩
  | enable => exact ⟨saved.2, (Status.mie_set _).trans saved.1.symm⟩

/-- What is left to do does not touch `MPIE`. -/
def Todo.KeepsMpie : Todo σ → Prop
  | .prog p => p.KeepsMpie
  | .clear _ body => body.KeepsMpie
  | .leave _ => True
  | .enable => True

theorem exec_keepsMpie {c : Core σ} {todo : Todo σ} {rest : List (Todo σ)}
    (keeps : ∀ t ∈ todo :: rest, t.KeepsMpie) :
    Status.mpie (c.exec rest todo).mstatus = Status.mpie c.mstatus ∧ ∀ t ∈ (c.exec rest todo).code, t.KeepsMpie := by
  obtain ⟨here, others⟩ := List.forall_mem_cons.mp keeps
  cases todo with
  | prog p =>
    cases p with
    | work w => exact ⟨here _, others⟩
    | seq first second => exact ⟨rfl, List.forall_mem_cons.mpr ⟨here.1, List.forall_mem_cons.mpr ⟨here.2, others⟩⟩⟩
    | cond test yes no =>
      refine ⟨rfl, List.forall_mem_cons.mpr ⟨?_, others⟩⟩
      cases test (c.mstatus, c.data) with
      | true => exact here.1
      | false => exact here.2
    | loop test body =>
      simp only [Core.exec]
      split
      · exact ⟨rfl, List.forall_mem_cons.mpr ⟨here, List.forall_mem_cons.mpr ⟨here, others⟩⟩⟩
      · exact ⟨rfl, others⟩
    | withLock body => exact ⟨rfl, List.forall_mem_cons.mpr ⟨here, others⟩⟩
  | clear mstatus body =>
    exact ⟨Status.mpie_clear _, List.forall_mem_cons.mpr ⟨here, List.forall_mem_cons.mpr ⟨trivial, others⟩⟩⟩
  | leave mstatus =>
    simp only [Core.exec]
    split
    · exact ⟨rfl, List.forall_mem_cons.mpr ⟨trivial, others⟩⟩
    · exact ⟨rfl, others⟩
  | enable => exact ⟨Status.mpie_set _, others⟩

/-! ## Interrupts -/

/-- A hart that was started with `MIE = base` runs its own code, or one handler on top of it. -/
inductive Stands (base : Bool) (c : Core σ) : Prop
  | running (alone : c.suspended = []) (active : Activation base c.mstatus c.code)
  | handling {below : List (Todo σ)} (above : c.suspended = [below]) (saved : Saved base below)
      (enabled : calledFor base below = true) (active : Activation false c.mstatus c.code)
      (mpie : Status.mpie c.mstatus = true) (keeps : ∀ t ∈ c.code, t.KeepsMpie)

theorem Activation.disabled {mstatus : BitVec 64} {code : List (Todo σ)} (active : Activation false mstatus code) :
    Status.mie mstatus = false := active.mie.trans (calledFor_false code)

theorem exec_suspended (c : Core σ) (rest : List (Todo σ)) (todo : Todo σ) :
    (c.exec rest todo).suspended = c.suspended := by
  cases todo with
  | prog p =>
    cases p with
    | loop test body =>
      simp only [Core.exec]
      split
      · rfl
      · rfl
    | _ => rfl
  | leave mstatus =>
    simp only [Core.exec]
    split
    · rfl
    · rfl
  | _ => rfl

theorem stands_start (mstatus : BitVec 64) (data : σ) (p : Prog σ) :
    Stands (Status.mie mstatus) (.start mstatus data p) := .running rfl ⟨trivial, rfl⟩

section Events

variable {base : Bool} {c : Core σ}

theorem Stands.exec (stands : Stands base c) {todo : Todo σ} {rest : List (Todo σ)} (code : c.code = todo :: rest) :
    Stands base (c.exec rest todo) := by
  have suspended := exec_suspended c rest todo
  cases stands with
  | running alone active =>
    rw [code] at active
    exact .running (suspended.trans alone) active.exec
  | handling above saved enabled active mpie keeps =>
    rw [code] at active keeps
    obtain ⟨same, keeps'⟩ := exec_keepsMpie keeps
    exact .handling (suspended.trans above) saved enabled active.exec (same.trans mpie) keeps'

/-- An interrupt enters a handler; a handler is not interrupted. -/
theorem Stands.interrupt (stands : Stands base c) (enabled : Status.mie c.mstatus = true) (handler : Handler σ) :
    Stands base
      ⟨Status.trap .machine c.mstatus, c.data, [.prog handler.program], c.code :: c.suspended⟩ := by
  cases stands with
  | running alone active =>
    refine .handling (congrArg (c.code :: ·) alone) active.saved (active.mie.symm.trans enabled)
      ⟨trivial, Status.mie_trap _ _⟩ ((Status.mpie_trap _ _).trans enabled) ?_
    exact List.forall_mem_singleton.mpr handler.keeps
  | handling above saved enabled' active mpie keeps => exact absurd (active.disabled.symm.trans enabled) Bool.false_ne_true

/-- The return brings back the `MIE` that the interrupted code calls for. -/
theorem Stands.mret (stands : Stands base c) {top : List (Todo σ)} {rest : List (List (Todo σ))}
    (suspended : c.suspended = top :: rest) : Stands base ⟨Status.mret c.mstatus, c.data, top, rest⟩ := by
  cases stands with
  | running alone active => exact absurd (suspended.symm.trans alone) (List.cons_ne_nil _ _)
  | handling above saved enabled active mpie keeps =>
    obtain ⟨rfl, rfl⟩ := List.cons.inj (suspended.symm.trans above)
    exact .running rfl ⟨saved, (Status.mie_mret _).trans (mpie.trans enabled.symm)⟩

/-- **One event.** Whatever the hart executes or takes, at most one handler is active and `MIE` is what
the code calls for. -/
theorem Stands.event (stands : Stands base c) {c' : Core σ} {e : CoreEvent σ} (after : c.after e = some c') :
    Stands base c' := by
  cases e with
  | exec =>
    simp only [Core.after] at after
    split at after
    · cases after
    · rename_i code
      cases after
      exact stands.exec code
  | interrupt handler =>
    simp only [Core.after] at after
    split at after
    · rename_i enabled
      cases after
      exact stands.interrupt enabled handler
    · cases after
  | mret =>
    simp only [Core.after] at after
    split at after
    · rename_i suspended
      cases after
      exact stands.mret suspended
    · cases after

end Events

/-- The steps of a hart. -/
def CoreStep (c : Core σ) (e : CoreEvent σ) (c' : Core σ) : Prop := c.after e = some c'

theorem CoreStep.exec {c : Core σ} {todo : Todo σ} {rest : List (Todo σ)} (code : c.code = todo :: rest) :
    CoreStep c .exec (c.exec rest todo) := by rw [CoreStep, Core.after, code]

theorem CoreStep.interrupt {c : Core σ} (enabled : Status.mie c.mstatus = true) (handler : Handler σ) :
    CoreStep c (.interrupt handler)
      ⟨Status.trap .machine c.mstatus, c.data, [.prog handler.program], c.code :: c.suspended⟩ := by
  rw [CoreStep, Core.after, if_pos enabled]

theorem CoreStep.mret {c : Core σ} {top : List (Todo σ)} {rest : List (List (Todo σ))} (code : c.code = [])
    (suspended : c.suspended = top :: rest) : CoreStep c .mret ⟨Status.mret c.mstatus, c.data, top, rest⟩ := by
  rw [CoreStep, Core.after, code, suspended]

theorem stands_of_run {mstatus : BitVec 64} {data : σ} {p : Prog σ} {events : List (CoreEvent σ)} {c : Core σ}
    (run : Run CoreStep (.start mstatus data p) events c) : Stands (Status.mie mstatus) c :=
  run.invariant (stands_start mstatus data p) fun _ _ _ stands after => stands.event after

/-- `MIE` is clear inside closures. -/
theorem Stands.closure {base : Bool} {c : Core σ} (stands : Stands base c) (inside : InClosure c.code) :
    Status.mie c.mstatus = false := by
  cases stands with
  | running alone active => exact active.mie.trans (calledFor_closure inside)
  | handling above saved enabled active mpie keeps => exact active.disabled

/-- Code that a handler has interrupted was not in a closure. -/
theorem Stands.suspended {base : Bool} {c : Core σ} (stands : Stands base c) {below : List (Todo σ)}
    (member : below ∈ c.suspended) : ¬ InClosure below := by
  intro inside
  cases stands with
  | running alone active =>
    rw [alone] at member
    cases member
  | handling above saved enabled active mpie keeps =>
    rw [above] at member
    obtain rfl := List.mem_singleton.mp member
    exact absurd ((calledFor_closure inside).symm.trans enabled) Bool.false_ne_true

theorem Stands.handler {base : Bool} {c : Core σ} (stands : Stands base c) (handler : c.suspended ≠ []) :
    Status.mie c.mstatus = false := by
  cases stands with
  | running alone active => exact absurd alone handler
  | handling above saved enabled active mpie keeps => exact active.disabled

/-- Two points of one piece of code that call for the same `MIE` have the same. -/
theorem Stands.same {base : Bool} {c c' : Core σ} (stands : Stands base c) (stands' : Stands base c')
    (suspended : c'.suspended = c.suspended) (code : calledFor base c'.code = calledFor base c.code) :
    Status.mie c'.mstatus = Status.mie c.mstatus := by
  cases stands with
  | running alone active =>
    cases stands' with
    | running alone' active' => exact active'.mie.trans (code.trans active.mie.symm)
    | handling above => exact absurd (above.symm.trans (suspended.trans alone)) (List.cons_ne_nil _ _)
  | handling above saved enabled active mpie keeps =>
    have nested : c.suspended ≠ [] := by
      rw [above]
      exact List.cons_ne_nil _ _
    rw [active.disabled]
    exact stands'.handler (by rw [suspended]; exact nested)

/-- Without an interrupt, a `with_lock` has the effect that the scheduler's functions are written with. -/
theorem withLock_uninterrupted {α : Type} (csr : Csrs) (inner : σ) (f : σ → α × σ) (rest : List (Todo σ))
    (suspended : List (List (Todo σ))) :
    ∃ n, Run CoreStep ⟨csr.mstatus, inner, .prog (.withLock (.work (.data fun x => (f x).2))) :: rest, suspended⟩
      (List.replicate n .exec) ⟨(withLock csr inner f).2.2.mstatus, (withLock csr inner f).2.1, rest, suspended⟩ := by
  let entered : Core σ := ⟨csr.mstatus, inner, .prog (.withLock (.work (.data fun x => (f x).2))) :: rest, suspended⟩
  let cleared : Core σ := ⟨csr.mstatus &&& ~~~(1#64 <<< 3), (f inner).2, .leave csr.mstatus :: rest, suspended⟩
  have first : Run CoreStep entered [] entered := .start
  have ran := ((first.next (.exec rfl)).next (.exec rfl)).next (.exec rfl)
  have body : Run CoreStep entered (List.replicate 3 .exec) cleared := ran
  by_cases set : csr.mstatus &&& (1#64 <<< 3) ≠ 0
  · have test : CoreStep cleared .exec { cleared with code := .enable :: rest } := by
      simp only [CoreStep, Core.after, Core.exec, cleared, if_pos set]
    refine ⟨5, ?_⟩
    simp only [withLock, if_pos set]
    have last := (body.next test).next (.exec rfl)
    exact last
  · have test : CoreStep cleared .exec { cleared with code := rest } := by
      simp only [CoreStep, Core.after, Core.exec, cleared, if_neg set]
    refine ⟨4, ?_⟩
    simp only [withLock, if_neg set]
    exact body.next test

end Sections

/-- **Critical sections.** For every program, every initial `mstatus` and every placement of interrupts:
`MIE` is clear during the whole of every closure, no handler runs on top of one, `MIE` stays clear
in a handler, and when a `with_lock` returns `MIE` is what it was when the `with_lock` was entered. -/
theorem critical_sections_atomic {σ : Type} {mstatus : BitVec 64} {data : σ} {p : Prog σ}
    {events : List (CoreEvent σ)} {c : Core σ} (run : Run CoreStep (.start mstatus data p) events c) :
    (InClosure c.code → Status.mie c.mstatus = false) ∧
    (∀ handler, InClosure c.code → c.after (.interrupt handler) = none) ∧
    (∀ below ∈ c.suspended, ¬ InClosure below) ∧
    (c.suspended ≠ [] → Status.mie c.mstatus = false) ∧
    ∀ body rest, c.code = .prog (.withLock body) :: rest → ∀ later c', Run CoreStep c later c' →
      c'.code = rest → c'.suspended = c.suspended → Status.mie c'.mstatus = Status.mie c.mstatus := by
  have stands := stands_of_run run
  refine ⟨stands.closure, ?_, fun below member => stands.suspended member, stands.handler, ?_⟩
  · intro handler inside
    rw [Core.after, stands.closure inside]
    rfl
  · intro body rest entered later c' more returned same
    have stands' := stands_of_run (run.append more)
    refine stands.same stands' same ?_
    rw [returned, entered]
    rfl

/-- A section that increments a counter. -/
def countLocked : Prog Nat := .withLock (.work (.data (· + 1)))

/-- The handler that an interrupt enters between the read of `mstatus` and the clear of `MIE`. -/
def countHandler : Handler Nat := ⟨countLocked, fun _ => rfl⟩

def countEvents : List (CoreEvent Nat) :=
  [.exec, .interrupt countHandler, .exec, .exec, .exec, .exec, .mret, .exec, .exec, .exec, .exec]

theorem count_run : Run CoreStep (.start 0x8 0 countLocked) countEvents ⟨0x88, 2, [], []⟩ := by
  have first : Run CoreStep (.start 0x8 0 countLocked) [] (.start 0x8 0 countLocked) := .start
  have entry := (first.next (.exec rfl)).next (.interrupt rfl countHandler)
  have handled := ((entry.next (.exec rfl)).next (.exec rfl)).next (.exec rfl) |>.next (.exec rfl)
  have back := handled.next (.mret rfl rfl)
  have last := ((back.next (.exec rfl)).next (.exec rfl)).next (.exec rfl) |>.next (.exec rfl)
  exact last

theorem critical_sections_atomic_count : Status.mie 0x88 = Status.mie 0x8 := by
  obtain ⟨-, -, -, -, restores⟩ := critical_sections_atomic (Run.start (s := Core.start 0x8 0 countLocked))
  exact restores _ [] rfl _ _ count_run rfl rfl

end Cyptos
