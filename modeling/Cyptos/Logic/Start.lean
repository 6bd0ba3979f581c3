import Cyptos.Kernel.Start

/-!
# From reset to `kmain`

However the harts of the board are interleaved, the ones that park are not seen by the hart that boots:
its steps are those of a board with one hart. It enters `kmain` with the stack pointer set and the `.bss`
section zero, and has by then written nowhere else but to the stack frame of `clear_bss`.
-/

namespace Cyptos
set_option autoImplicit false
open Riscv Sim

variable {img : StartImage}

/-! ## Parking -/

/-- A hart with the nonzero identifier `mhartid`, started with the registers `x`: it parks or is about to, and has
written no register but `t0`. -/
structure Parking (mhartid : BitVec 64) (x : Reg → BitVec 64) (h : StartHart) : Prop where
  pc : h.pc = .csrrHartid ∨ h.pc = .bnezPark ∧ h.x .t0 = mhartid ∨ h.pc = .wfi ∨ h.pc = .jumpWfi
  regs : ∀ r ≠ Reg.t0, h.x r = x r

theorem Parking.line {mhartid : BitVec 64} (secondary : mhartid ≠ 0) {x : Reg → BitVec 64} {h h' : StartHart}
    (parking : Parking mhartid x h) (next : h.line img mhartid = some h') : Parking mhartid x h' := by
  obtain ⟨pc, regs⟩ := parking
  rcases pc with here | ⟨here, t0⟩ | here | here
  · simp only [StartHart.line, here, Option.some.injEq] at next
    subst next
    refine ⟨.inr (.inl ⟨rfl, ?_⟩), fun r other => ?_⟩
    · exact Function.update_self .t0 mhartid h.x
    · exact (Function.update_of_ne other mhartid h.x).trans (regs r other)
  · simp only [StartHart.line, here, t0, if_pos secondary, Option.some.injEq] at next
    subst next
    exact ⟨.inr (.inr (.inl rfl)), regs⟩
  · simp only [StartHart.line, here, Option.some.injEq] at next
    subst next
    exact ⟨.inr (.inr (.inr rfl)), regs⟩
  · simp only [StartHart.line, here, Option.some.injEq] at next
    subst next
    exact ⟨.inr (.inr (.inl rfl)), regs⟩

theorem parking_silent {mhartid : BitVec 64} (secondary : mhartid ≠ 0) (x : Reg → BitVec 64) (a b : StartHart × Mem)
    (parking : Parking mhartid x a.1) (move : StartHart.Own img mhartid a b) : Parking mhartid x b.1 ∧ b.2 = a.2 := by
  have pc := parking.pc
  cases move with
  | line next => exact ⟨parking.line secondary next, rfl⟩
  | internal => simp at pc
  | loop => simp at pc
  | ret => simp at pc
  | kernel inside =>
    simp only at pc
    rw [inside] at pc
    simp at pc

/-- A hart is never stuck. -/
theorem StartHart.own_total {mhartid : BitVec 64} (a : StartHart × Mem) : ∃ b, StartHart.Own img mhartid a b := by
  obtain ⟨⟨pc, x⟩, m⟩ := a
  cases pc with
  | clearBss entry point left =>
    cases left with
    | succ left => exact ⟨_, .internal x fun _ _ => rfl⟩
    | zero =>
      by_cases inside : point = .ret
      · subst inside
        exact ⟨_, .ret fun _ _ => rfl⟩
      · exact ⟨_, .loop inside x⟩
  | kmain => exact ⟨_, .kernel rfl x m⟩
  | _ => exact ⟨_, .line rfl⟩

/-! ## The bytes of `.bss` -/

/-- The number of bytes of `.bss`. -/
def StartImage.bssSize (img : StartImage) : Nat := img.ebss.toNat - img.sbss.toNat

/-- Memory with the first `n` bytes of `.bss` zero. -/
def StartImage.zeroed (img : StartImage) (n : Nat) (m : Mem) : Mem := fun a =>
  if img.sbss.toNat ≤ a.toNat ∧ a.toNat < img.sbss.toNat + n then 0 else m a

/-- The `n`-th byte of `.bss`. -/
def StartImage.bssByte (img : StartImage) (n : Nat) : BitVec 64 := img.sbss + BitVec.ofNat 64 n

theorem toNat_bssByte {n : Nat} (inside : n ≤ img.bssSize) : (img.bssByte n).toNat = img.sbss.toNat + n := by
  have low := img.sbss.isLt
  have high := img.ebss.isLt
  unfold StartImage.bssSize at inside
  rw [StartImage.bssByte, BitVec.toNat_add, BitVec.toNat_ofNat]
  by_cases empty : n = 0
  · subst empty
    omega
  · omega

/-- The test of the loop counts the bytes. -/
theorem bssByte_lt_iff {n : Nat} (inside : n ≤ img.bssSize) : img.bssByte n < img.ebss ↔ n < img.bssSize := by
  rw [BitVec.lt_def, toNat_bssByte inside]
  unfold StartImage.bssSize at inside ⊢
  omega

theorem bssByte_zero : img.bssByte 0 = img.sbss := BitVec.add_zero _

theorem bssByte_succ (n : Nat) : img.bssByte n + 1 = img.bssByte (n + 1) := by
  rw [StartImage.bssByte, StartImage.bssByte, BitVec.add_assoc, BitVec.ofNat_add]
  rfl

/-- The first `n` bytes of `.bss` are zero, and nothing else has changed outside the stack frame of `clear_bss`. -/
def StartImage.Cleared (img : StartImage) (n : Nat) (m m' : Mem) : Prop :=
  ∀ a, ¬ img.Frame a → m' a = img.zeroed n m a

section Cleared

variable {m m' m'' : Mem} {n : Nat}

theorem cleared_zero (m : Mem) : img.Cleared 0 m m := by
  intro a _
  rw [StartImage.zeroed, if_neg (by omega)]

theorem StartImage.Cleared.frame (cleared : img.Cleared n m m') (kept : ∀ a, ¬ img.Frame a → m'' a = m' a) :
    img.Cleared n m m'' := fun a outside => (kept a outside).trans (cleared a outside)

/-- The next store. -/
theorem StartImage.Cleared.store (cleared : img.Cleared n m m') (inside : n < img.bssSize) :
    img.Cleared (n + 1) m (Function.update m' (img.bssByte n) 0) := by
  have place := toNat_bssByte (le_of_lt inside)
  intro a outside
  by_cases here : a = img.bssByte n
  · subst here
    rw [Function.update_self, StartImage.zeroed, if_pos (by omega)]
  · have apart : a.toNat ≠ img.sbss.toNat + n := fun same => here (BitVec.eq_of_toNat_eq (same.trans place.symm))
    rw [Function.update_of_ne here, cleared a outside]
    unfold StartImage.zeroed
    congr 1
    apply propext
    omega

/-- The frame lies clear of `.bss`, so the bytes of `.bss` are zero in the end. -/
theorem StartImage.Cleared.bss (cleared : img.Cleared img.bssSize m m') {a : BitVec 64} (low : img.sbss.toNat ≤ a.toNat)
    (high : a.toNat < img.ebss.toNat) : m' a = 0 := by
  have above := img.stack_above
  have outside : ¬ img.Frame a := by
    rintro ⟨frame, -⟩
    omega
  rw [cleared a outside, StartImage.zeroed, if_pos]
  unfold StartImage.bssSize
  omega

end Cleared

/-! ## Booting -/

/-- The lines and loop steps from reset to the first instruction of `kmain`. -/
def StartImage.bootSteps (img : StartImage) : Nat := 7 + 3 * img.bssSize

/-- The registers that the booting hart calls `clear_bss` with. -/
def StartImage.entryRegs (img : StartImage) (x : Reg → BitVec 64) : Reg → BitVec 64 :=
  Function.update (Function.update (Function.update x .t0 0) .sp img.stackTop) .ra img.clearReturn

/-- What `kmain` finds: the registers `x'` and the memory `m'`, of the registers `x` and the memory `m` at reset. -/
structure Prepared (img : StartImage) (x : Reg → BitVec 64) (m : Mem) (x' : Reg → BitVec 64) (m' : Mem) : Prop where
  sp : x' .sp = img.stackTop
  ra : x' .ra = img.kmainReturn
  /-- `clear_bss` keeps what a callee has to keep. -/
  kept : ∀ r, callerSaved r = false → r ≠ .sp → x' r = x r
  bss : ∀ a : BitVec 64, img.sbss.toNat ≤ a.toNat → a.toNat < img.ebss.toNat → m' a = 0
  rest : ∀ a : BitVec 64, ¬ (img.sbss.toNat ≤ a.toNat ∧ a.toNat < img.ebss.toNat) → ¬ img.Frame a → m' a = m a

/-- How far the booting hart has come: after `k` lines and loop steps from the registers `x` and the memory `m`, with
`left` instructions of `clear_bss` before the next one. -/
inductive Booting (img : StartImage) (x : Reg → BitVec 64) (m : Mem) : Nat → Nat → StartHart × Mem → Prop
  | csrrHartid : Booting img x m 0 0 (⟨.csrrHartid, x⟩, m)
  | bnezPark : Booting img x m 1 0 (⟨.bnezPark, Function.update x .t0 0⟩, m)
  | laStackTop : Booting img x m 2 0 (⟨.laStackTop, Function.update x .t0 0⟩, m)
  | callClearBss : Booting img x m 3 0
      (⟨.callClearBss, Function.update (Function.update x .t0 0) .sp img.stackTop⟩, m)
  | whileTest {n left : Nat} {x' : Reg → BitVec 64} {m' : Mem} (inside : n ≤ img.bssSize) (cleared : img.Cleared n m m') :
      Booting img x m (4 + 3 * n) left (⟨.clearBss (img.entryRegs x) (.whileTest (img.bssByte n)) left, x'⟩, m')
  | writeZero {n left : Nat} {x' : Reg → BitVec 64} {m' : Mem} (inside : n < img.bssSize) (cleared : img.Cleared n m m') :
      Booting img x m (5 + 3 * n) left (⟨.clearBss (img.entryRegs x) (.writeZero (img.bssByte n)) left, x'⟩, m')
  | addOne {n left : Nat} {x' : Reg → BitVec 64} {m' : Mem} (inside : n < img.bssSize) (cleared : img.Cleared (n + 1) m m') :
      Booting img x m (6 + 3 * n) left (⟨.clearBss (img.entryRegs x) (.addOne (img.bssByte n)) left, x'⟩, m')
  | ret {left : Nat} {x' : Reg → BitVec 64} {m' : Mem} (cleared : img.Cleared img.bssSize m m') :
      Booting img x m (5 + 3 * img.bssSize) left (⟨.clearBss (img.entryRegs x) .ret left, x'⟩, m')
  | callKmain {x' : Reg → BitVec 64} {m' : Mem} (kept : ∀ r, callerSaved r = false → x' r = img.entryRegs x r)
      (cleared : img.Cleared img.bssSize m m') : Booting img x m (6 + 3 * img.bssSize) 0 (⟨.callKmain, x'⟩, m')
  | running {k : Nat} (late : img.bootSteps ≤ k) (x' : Reg → BitVec 64) (m' : Mem) : Booting img x m k 0 (⟨.kmain, x'⟩, m')

/-- A step of the booting hart either is one of `clear_bss`'s own instructions, or comes one further. -/
inductive Advances (img : StartImage) (k left k' left' : Nat) : Prop
  | internal (same : k' = k) (fewer : left = left' + 1)
  | further (next : k' = k + 1) (zero : left = 0) (paced : left' ≤ img.pace)

section Boot

variable {x : Reg → BitVec 64} {m : Mem} {k left : Nat} {a b : StartHart × Mem}

theorem ne_of_saved {r scratch : Reg} (saved : callerSaved r = false) (free : callerSaved scratch = true) : r ≠ scratch := by
  rintro rfl
  rw [saved] at free
  cases free

theorem entryRegs_kept {r : Reg} (saved : callerSaved r = false) (other : r ≠ .sp) : img.entryRegs x r = x r := by
  unfold StartImage.entryRegs
  rw [Function.update_of_ne (ne_of_saved saved rfl), Function.update_of_ne other,
    Function.update_of_ne (ne_of_saved saved rfl)]

theorem Booting.line {h h' : StartHart} {m' : Mem} (booting : Booting img x m k left (h, m')) (next : h.line img 0 = some h') :
    ∃ left', Booting img x m (k + 1) left' (h', m') ∧ Advances img k left (k + 1) left' := by
  have one {left' : Nat} (zero : left = 0) (paced : left' ≤ img.pace) : Advances img k left (k + 1) left' :=
    .further rfl zero paced
  cases booting with
  | csrrHartid =>
    cases next
    exact ⟨0, .bnezPark, one rfl (Nat.zero_le _)⟩
  | bnezPark =>
    cases next
    exact ⟨0, .laStackTop, one rfl (Nat.zero_le _)⟩
  | laStackTop =>
    cases next
    exact ⟨0, .callClearBss, one rfl (Nat.zero_le _)⟩
  | callClearBss =>
    cases next
    have first (left : Nat) (x' : Reg → BitVec 64) :
        Booting img x m 4 left (⟨.clearBss (img.entryRegs x) (.whileTest (img.bssByte 0)) left, x'⟩, m) :=
      .whileTest (Nat.zero_le img.bssSize) (cleared_zero m)
    rw [bssByte_zero] at first
    exact ⟨_, first _ _, one rfl (img.paced _)⟩
  | callKmain kept cleared =>
    cases next
    exact ⟨0, .running (by unfold StartImage.bootSteps; omega) _ _, one rfl (Nat.zero_le _)⟩
  | _ => cases next

theorem Booting.loop {entry x' x'' : Reg → BitVec 64} {point : ClearPoint} {m' : Mem}
    (booting : Booting img x m k left (⟨.clearBss entry point 0, x'⟩, m')) (inside : point ≠ .ret) :
    Booting img x m (k + 1) (img.internal (point.next img))
      (⟨.clearBss entry (point.next img) (img.internal (point.next img)), x''⟩, point.store m') := by
  cases booting with
  | @whileTest n _ _ _ within cleared =>
    rw [show 4 + 3 * n + 1 = 5 + 3 * n by omega]
    by_cases more : n < img.bssSize
    · simp only [ClearPoint.next, ClearPoint.store, if_pos ((bssByte_lt_iff within).mpr more)]
      exact .writeZero more cleared
    · obtain rfl : n = img.bssSize := by omega
      simp only [ClearPoint.next, ClearPoint.store, if_neg (mt (bssByte_lt_iff within).mp more)]
      exact .ret cleared
  | @writeZero n _ _ _ within cleared =>
    rw [show 5 + 3 * n + 1 = 6 + 3 * n by omega]
    exact .addOne within (cleared.store within)
  | @addOne n _ _ _ within cleared =>
    rw [show 6 + 3 * n + 1 = 4 + 3 * (n + 1) by omega]
    simp only [ClearPoint.next, ClearPoint.store, bssByte_succ]
    exact .whileTest within cleared
  | ret => exact absurd rfl inside

/-- One step of the hart with identifier zero. -/
theorem Booting.step (booting : Booting img x m k left a) (move : StartHart.Own img 0 a b) :
    ∃ k' left', Booting img x m k' left' b ∧ Advances img k left k' left' := by
  cases move with
  | line next =>
    obtain ⟨left', after, advances⟩ := booting.line next
    exact ⟨k + 1, left', after, advances⟩
  | @internal _ _ _ still _ x' _ frame =>
    -- the point is not reached yet, and what is known of memory excludes the frame
    refine ⟨k, still, ?_, ?_⟩
    · cases booting with
      | whileTest inside cleared => exact .whileTest inside (cleared.frame frame)
      | writeZero inside cleared => exact .writeZero inside (cleared.frame frame)
      | addOne inside cleared => exact .addOne inside (cleared.frame frame)
      | ret cleared => exact .ret (cleared.frame frame)
    · cases booting <;> exact .internal rfl rfl
  | loop inside =>
    refine ⟨k + 1, _, booting.loop inside, .further rfl ?_ (img.paced _)⟩
    cases booting <;> rfl
  | ret kept =>
    cases booting with
    | ret cleared => exact ⟨_, 0, .callKmain kept cleared, .further (by omega) rfl (Nat.zero_le _)⟩
  | kernel inside x' m' =>
    cases booting with
    | running late => exact ⟨k + 1, 0, .running (Nat.le_succ_of_le late) x' m', .further rfl rfl (Nat.zero_le _)⟩
    | _ => cases inside

/-- `steps` steps of the hart come at most as many steps far, and at least a `pace + 1`-th of them. -/
theorem Booting.run {es : List Unit} (run : Run (fun a _ b => StartHart.Own img 0 a b) (⟨.csrrHartid, x⟩, m) es b) :
    ∃ k left, Booting img x m k left b ∧ k ≤ es.length ∧ es.length + left ≤ k * (img.pace + 1) := by
  induction run with
  | start => exact ⟨0, 0, .csrrHartid, le_rfl, by simp⟩
  | next _ move ih =>
    obtain ⟨k, left, booting, fast, slow⟩ := ih
    obtain ⟨k', left', after, advances⟩ := booting.step move
    refine ⟨k', left', after, ?_⟩
    rw [List.length_append, List.length_singleton]
    cases advances with
    | internal same fewer =>
      subst same
      omega
    | further next zero paced =>
      subst next
      rw [Nat.add_mul]
      omega

/-- Before `kmain` the hart has only cleared a part of `.bss`. -/
theorem Booting.before (booting : Booting img x m k left a) (outside : a.1.pc ≠ .kmain) :
    k < img.bootSteps ∧ ∃ n ≤ img.bssSize, img.Cleared n m a.2 := by
  have untouched : ∃ n ≤ img.bssSize, img.Cleared n m m := ⟨0, Nat.zero_le _, cleared_zero m⟩
  unfold StartImage.bootSteps
  cases booting with
  | csrrHartid => exact ⟨by omega, untouched⟩
  | bnezPark => exact ⟨by omega, untouched⟩
  | laStackTop => exact ⟨by omega, untouched⟩
  | callClearBss => exact ⟨by omega, untouched⟩
  | whileTest inside cleared => exact ⟨by omega, _, inside, cleared⟩
  | writeZero inside cleared => exact ⟨by omega, _, le_of_lt inside, cleared⟩
  | addOne inside cleared => exact ⟨by omega, _, inside, cleared⟩
  | ret cleared => exact ⟨by omega, _, le_rfl, cleared⟩
  | callKmain _ cleared => exact ⟨by omega, _, le_rfl, cleared⟩
  | running => exact absurd rfl outside

theorem Booting.inside (booting : Booting img x m k left a) (inside : a.1.pc = .kmain) : img.bootSteps ≤ k := by
  cases booting with
  | running late => exact late
  | _ => cases inside

/-- What `clear_bss` leaves, after the call of `kmain`. -/
theorem prepared_of_cleared {x' : Reg → BitVec 64} {m' : Mem} (kept : ∀ r, callerSaved r = false → x' r = img.entryRegs x r)
    (cleared : img.Cleared img.bssSize m m') : Prepared img x m (Function.update x' .ra img.kmainReturn) m' where
  sp := by
    rw [Function.update_of_ne (by decide), kept .sp rfl]
    rfl
  ra := Function.update_self _ _ _
  kept r saved other := by
    rw [Function.update_of_ne (ne_of_saved saved rfl), kept r saved, entryRegs_kept saved other]
  bss _ := cleared.bss
  rest a apart outside := by
    rw [cleared a outside, StartImage.zeroed, if_neg]
    unfold StartImage.bssSize
    omega

/-- The step into `kmain` is the call in `_start`. -/
theorem Booting.enters (booting : Booting img x m k left a) (move : StartHart.Own img 0 a b) (outside : a.1.pc ≠ .kmain)
    (inside : b.1.pc = .kmain) : Prepared img x m b.1.x b.2 := by
  cases move with
  | line next =>
    cases booting with
    | callKmain kept cleared =>
      cases next
      exact prepared_of_cleared kept cleared
    | running => exact absurd rfl outside
    | _ => cases next <;> cases inside
  | kernel running => exact absurd running outside
  | _ => cases inside

end Boot

/-! ## The board -/

section Board

variable {ι : Type} [DecidableEq ι] {mhartid : ι → BitVec 64} {boot : ι} {s t : Harts ι} {es : List ι}

/-- `boot` is the hart with identifier zero. -/
def BootHart (mhartid : ι → BitVec 64) (boot : ι) : Prop := ∀ i, mhartid i = 0 ↔ i = boot

/-- Every hart is at the entry point. -/
def Harts.Reset (s : Harts ι) : Prop := ∀ i, (s.states i).pc = .csrrHartid

/-- Every schedule has a run. -/
theorem Harts.scheduled (img : StartImage) (mhartid : ι → BitVec 64) (s : Harts ι) (es : List ι) :
    ∃ t, Run (Harts.Step img mhartid) s es t :=
  Run.scheduled (fun _ a => StartHart.own_total a) s es

/-- The other harts park, and the booting hart runs as it would alone. -/
theorem boot_alone (zero : BootHart mhartid boot) (reset : s.Reset) (run : Run (Harts.Step img mhartid) s es t) :
    (∀ i ≠ boot, Parking (mhartid i) (s.states i).x (t.states i)) ∧
      Run (fun a _ b => StartHart.Own img 0 a b) (s.view boot) (List.replicate (es.count boot) ()) (t.view boot) := by
  have alone := Run.solo (P := fun i => Parking (mhartid i) (s.states i).x)
    (fun i other => parking_silent (fun is_zero => other ((zero i).mp is_zero)) _) run
    fun i _ => ⟨.inl (reset i), fun _ _ => rfl⟩
  rw [(zero boot).mpr rfl] at alone
  exact alone

/-- How far it has come then. -/
theorem booting_of_run (zero : BootHart mhartid boot) (reset : s.Reset) (run : Run (Harts.Step img mhartid) s es t) :
    ∃ k left, Booting img (s.states boot).x s.mem k left (t.view boot) ∧ k ≤ es.count boot ∧
      es.count boot + left ≤ k * (img.pace + 1) := by
  have entry : s.view boot = (⟨.csrrHartid, (s.states boot).x⟩, s.mem) := by
    rw [← reset boot]
    rfl
  obtain ⟨k, left, booting, fast, slow⟩ := Booting.run (entry ▸ (boot_alone zero reset run).2)
  rw [List.length_replicate] at fast slow
  exact ⟨k, left, booting, fast, slow⟩

/-- A run that has come to `kmain` has a step into it, and that is one of the booting hart. -/
theorem kmain_entry (reset : s.Reset) (run : Run (Harts.Step img mhartid) s es t) (inside : (t.states boot).pc = .kmain) :
    ∃ before after u v, es = before ++ boot :: after ∧ Run (Harts.Step img mhartid) s before u ∧
      (u.states boot).pc ≠ .kmain ∧ Harts.Step img mhartid u boot v ∧ (v.states boot).pc = .kmain ∧
      Run (Harts.Step img mhartid) v after t := by
  have outside_start : (s.states boot).pc ≠ .kmain := by
    rw [reset boot]
    simp
  rcases run.first fun s => (s.states boot).pc = .kmain with
    outside | ⟨before, e, after, u, v, rfl, outside, step, enters, rest⟩
  · cases outside with
    | start => exact absurd inside outside_start
    | next _ last => exact absurd inside last.2
  · have here : (u.states boot).pc ≠ .kmain := by
      cases outside with
      | start => exact outside_start
      | next _ last => exact last.2
    have own : boot = e := by
      by_contra other
      rw [step.other other] at enters
      exact here enters
    subst own
    exact ⟨before, after, u, v, rfl, outside.mono fun _ _ _ step => step.1, here, step, enters, rest⟩

/-- **Reset.** However the harts are interleaved, all but the hart with identifier zero park without ever writing to
memory or to a register other than `t0`, and that hart runs as it would on a board of its own. Until it is in `kmain` it has
cleared a part of `.bss` and written nothing else outside the stack frame of `clear_bss`. It is not there before its
`bootSteps`-th step, and is there when it has made `bootSteps` steps with the most instructions of `clear_bss` before each.
It has then entered `kmain` with the stack pointer set, the bytes of `.bss` zero, and the registers of a callee and all
bytes outside `.bss` and the frame as they were at reset. -/
theorem kmain_entered_prepared (zero : BootHart mhartid boot) (reset : s.Reset)
    (run : Run (Harts.Step img mhartid) s es t) :
    (∀ i ≠ boot, Parking (mhartid i) (s.states i).x (t.states i)) ∧
      Run (fun a _ b => StartHart.Own img 0 a b) (s.view boot) (List.replicate (es.count boot) ()) (t.view boot) ∧
      ((t.states boot).pc ≠ .kmain → ∃ n ≤ img.bssSize, img.Cleared n s.mem t.mem) ∧
      (es.count boot < img.bootSteps → (t.states boot).pc ≠ .kmain) ∧
      (img.bootSteps * (img.pace + 1) ≤ es.count boot → (t.states boot).pc = .kmain) ∧
      ((t.states boot).pc = .kmain → ∃ before after u v, es = before ++ boot :: after ∧
        Run (Harts.Step img mhartid) s before u ∧ (u.states boot).pc ≠ .kmain ∧
        Harts.Step img mhartid u boot v ∧ (v.states boot).pc = .kmain ∧ Run (Harts.Step img mhartid) v after t ∧
        Prepared img (s.states boot).x s.mem (v.states boot).x v.mem) := by
  obtain ⟨parked, alone⟩ := boot_alone zero reset run
  obtain ⟨k, left, booting, fast, slow⟩ := booting_of_run zero reset run
  refine ⟨parked, alone, fun outside => (booting.before outside).2, fun early inside => ?_, fun late => ?_, fun inside => ?_⟩
  · have reached := booting.inside inside
    omega
  · by_contra outside
    have short := (booting.before outside).1
    have few : (k + 1) * (img.pace + 1) ≤ img.bootSteps * (img.pace + 1) := Nat.mul_le_mul_right _ short
    rw [Nat.add_mul] at few
    omega
  · obtain ⟨before, after, u, v, split, first, outside, step, enters, rest⟩ := kmain_entry reset run inside
    obtain ⟨_, _, calling, -, -⟩ := booting_of_run zero reset first
    have move := step.view_self
    rw [(zero boot).mpr rfl] at move
    exact ⟨before, after, u, v, split, first, outside, step, enters, rest, calling.enters move outside enters⟩

end Board

/-- Two harts at reset, the second one `true`. -/
def twoHarts : Harts Bool := ⟨fun _ => ⟨.csrrHartid, fun _ => 7⟩, fun _ => 0xFF⟩

/-- Two bytes of `.bss`, and a `clear_bss` that stores `ra` and `s0` first. -/
def twoHartsImage : StartImage where
  stackTop := 0x8003_0000
  sbss := 0x8001_0000
  ebss := 0x8001_0002
  clearReturn := 0x8000_0018
  kmainReturn := 0x8000_0020
  frame := 16
  internal
    | .whileTest _ | .ret => 4
    | _ => 0
  pace := 4
  paced p := by cases p <;> simp
  stack_above := by decide

def twoHartids (second : Bool) : BitVec 64 := if second then 1 else 0

/-- The second hart goes first, and steps in between. -/
def twoSchedule : List Bool := true :: (List.replicate 5 false ++ [true, true] ++ List.replicate 60 false ++ [true])

theorem kmain_entered_prepared_two : ∃ t before after u v, Run (Harts.Step twoHartsImage twoHartids) twoHarts twoSchedule t ∧
    twoSchedule = before ++ false :: after ∧ Run (Harts.Step twoHartsImage twoHartids) twoHarts before u ∧
    Harts.Step twoHartsImage twoHartids u false v ∧
    Prepared twoHartsImage (fun _ => 7) (fun _ => 0xFF) (v.states false).x v.mem := by
  have zero : BootHart twoHartids false := Bool.forall_bool.mpr ⟨by decide, by decide⟩
  obtain ⟨t, run⟩ := Harts.scheduled twoHartsImage twoHartids twoHarts twoSchedule
  obtain ⟨-, -, -, -, late, entered⟩ := kmain_entered_prepared zero (fun _ => rfl) run
  obtain ⟨before, after, u, v, split, first, -, step, -, -, prepared⟩ := entered (late (by decide))
  exact ⟨t, before, after, u, v, run, split, first, step, prepared⟩

end Cyptos
