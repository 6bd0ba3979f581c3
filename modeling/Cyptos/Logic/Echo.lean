import Cyptos.Kernel.Echo
import Cyptos.Logic.Console

/-!
# The echo task

Runs of the whole machine in which one slot executes `user_echo_task`: other tasks, preemptions,
arrivals and empty polls come as they like. The task's own snapshots carry it over preemptions, so
it always goes on at the point where it stood. At each point it owes the output that the last
byte still calls for; everything before has been echoed.
-/

namespace Cyptos
set_option autoImplicit false
open Riscv

/-! ## Streams -/

/-- A byte `10` after each byte `13`. -/
def withNewlines (input : List (BitVec 8)) : List (BitVec 8) := input.flatMap fun c => if c = 13 then [13, 10] else [c]

/-- What the echo task passes on: the kernel's answer `0xFF` stands for no byte. -/
def heard (input : List (BitVec 8)) : List (BitVec 8) := input.filter (· ≠ 0xFF)

theorem withNewlines_append (first second : List (BitVec 8)) :
    withNewlines (first ++ second) = withNewlines first ++ withNewlines second := List.flatMap_append

theorem heard_append (first second : List (BitVec 8)) : heard (first ++ second) = heard first ++ heard second :=
  List.filter_append first second

/-- What the task is still going to write before the next poll. -/
def EchoPoint.pending : EchoPoint → List (BitVec 8)
  | .poll => []
  | .getc => []
  | .got byte => if byte = 0xFF then [] else byte.setWidth 8 :: if byte = 13 then [10] else []
  | .putc byte => byte.setWidth 8 :: if byte = 13 then [10] else []
  | .put byte => if byte = 13 then [10] else []
  | .newline => [10]

/-- Moving on without a system call neither adds nor drops output. -/
theorem pending_next (p : EchoPoint) : p.next.pending = p.pending := by
  cases p with
  | got byte =>
    by_cases silent : byte = 0xFF
    · simp only [EchoPoint.next, EchoPoint.pending, if_pos silent]
    · simp only [EchoPoint.next, EchoPoint.pending, if_neg silent]
  | put byte =>
    by_cases isReturn : byte = 13
    · simp only [EchoPoint.next, EchoPoint.pending, if_pos isReturn]
    · simp only [EchoPoint.next, EchoPoint.pending, if_neg isReturn]
  | _ => rfl

theorem pending_iterate (p : EchoPoint) (n : Nat) : (EchoPoint.next^[n] p).pending = p.pending := by
  induction n with
  | zero => rfl
  | succ n ih => rw [Function.iterate_succ_apply', pending_next, ih]

/-- A byte in a register is the sentinel or a carriage return if the byte itself is. -/
theorem setWidth_eq_iff (c d : BitVec 8) : c.setWidth 64 = d.setWidth 64 ↔ c = d := by
  constructor
  · intro same
    have value := congrArg (BitVec.setWidth 8) same
    simpa using value
  · rintro rfl
    rfl

/-- The answer to a poll calls for the echo of the byte that was taken. -/
theorem pending_answer (u : Uart) :
    (EchoPoint.got (((Serial.tryGetc u).1.getD 0xFF).setWidth 64)).pending = withNewlines (heard (u.rx.take 1)) := by
  obtain ⟨tx, rx⟩ := u
  cases rx with
  | nil => rfl
  | cons c rest =>
    have sentinel : c.setWidth 64 = 0xFF#64 ↔ c = 0xFF#8 := setWidth_eq_iff c 0xFF
    have carriage : c.setWidth 64 = 13#64 ↔ c = 13#8 := setWidth_eq_iff c 13
    by_cases silent : c = 0xFF#8
    · subst silent
      rfl
    · by_cases isReturn : c = 13#8
      · subst isReturn
        rfl
      · simp [EchoPoint.pending, withNewlines, heard, Serial.tryGetc, sentinel, carriage, silent, isReturn]

/-! ## Runs with an echo task -/

/-- The bytes that the console calls have moved: by the echo task, and taken by others. -/
structure Console where
  consumed : List (BitVec 8)
  echoed : List (BitVec 8)
  foreign : List (BitVec 8)

def Console.observe (i : Fin maxTasks) (c : Console) (m : Machine) : Event → Console
  | .trap cause _ _ =>
    if m.kernel.sched.current = some i then
      { c with consumed := c.consumed ++ m.taken cause, echoed := c.echoed ++ m.sent cause }
    else { c with foreign := c.foreign ++ m.taken cause }
  | _ => c

/-- The machine, what the console has moved, and the point where the echo task stands. -/
structure EchoState where
  machine : Machine
  console : Console
  point : EchoPoint

/-- What can happen while the echo task runs: it moves on in its code, it makes a system call where it has
one, an interrupt of any kind is taken, and bytes arrive. -/
inductive Follows (code : EchoCode) (m : Machine) (p : EchoPoint) : Event → EchoPoint → Prop
  | exec {x : Reg → BitVec 64} {pc : BitVec 64} {mem : Mem} (n : Nat) (at_ : code.At (EchoPoint.next^[n] p) x pc) :
      Follows code m p (.exec x pc mem) (EchoPoint.next^[n] p)
  | ecall {cause tval : BitVec 64} {clobber : Reg → BitVec 64} (exception : isInterrupt cause = false)
      (number : (causeCode cause).toNat = 8) (atEcall : p.AtEcall) :
      Follows code m p (.trap cause tval clobber) (p.back ((m.snapshot cause).x .a0))
  | interrupt {cause tval : BitVec 64} {clobber : Reg → BitVec 64} (interrupt : isInterrupt cause = true) :
      Follows code m p (.trap cause tval clobber) p
  | device {rx : List (BitVec 8)} {mtime : BitVec 64} : Follows code m p (.device rx mtime) p

/-- A step of the machine whose slot `i` executes the echo task. -/
structure EchoStep (code : EchoCode) (i : Fin maxTasks) (s : EchoState) (e : Event) (s' : EchoState) : Prop where
  step : s.machine.Step e s'.machine
  console : s'.console = s.console.observe i s.machine e
  follows : s.machine.kernel.sched.current = some i → Follows code s.machine s.point e s'.point
  stays : s.machine.kernel.sched.current ≠ some i → s'.point = s.point

/-- The bytes that arrive in a run. -/
def arrivals (es : List Event) : List (BitVec 8) :=
  es.flatMap fun
    | .device rx _ => rx
    | _ => []

def EchoState.start (m : Machine) : EchoState := ⟨m, ⟨[], [], []⟩, .poll⟩

section Calls

variable {code : EchoCode} {m : Machine} {cause : BitVec 64}

/-- What the echo task is owed after a trap: it goes on where the code goes on. -/
structure Owed (code : EchoCode) (p : EchoPoint) (s : Snapshot) : Prop where
  at_ : code.At p s.x s.pc
  user : Status.mretMode s.mstatus = .user

/-- `SYS_GETC` takes what is there and answers with it. -/
theorem getc_effect (exception : isInterrupt cause = false) (number : (causeCode cause).toNat = 8)
    (getc : m.hart.x .a7 = sysGetc) :
    m.taken cause = m.kernel.uart.rx.take 1 ∧ m.sent cause = [] ∧ (m.snapshot cause).pc = m.hart.pc + 4 ∧
      (m.snapshot cause).x =
        Function.update m.hart.x .a0 (((Serial.tryGetc m.kernel.uart).1.getD 0xFF).setWidth 64) := by
  have sends : ¬ SendsByte m.hart cause := fun sends => absurd (getc.symm.trans sends.2.2) (by decide)
  have behind : (causeCode cause).toNat ∈ [3, 8, 9, 11] := by
    rw [number]
    decide
  exact ⟨if_pos ⟨exception, number, getc⟩, if_neg sends, if_pos ⟨exception, behind⟩, if_pos ⟨exception, number, getc⟩⟩

/-- `SYS_PUTC` sends `a0` and leaves the registers alone. -/
theorem putc_effect (exception : isInterrupt cause = false) (number : (causeCode cause).toNat = 8)
    (putc : m.hart.x .a7 = sysPutc) :
    m.taken cause = [] ∧ m.sent cause = [(m.hart.x .a0).setWidth 8] ∧ (m.snapshot cause).pc = m.hart.pc + 4 ∧
      (m.snapshot cause).x = m.hart.x := by
  have asks : ¬ AsksByte m.hart cause := fun asks => absurd (putc.symm.trans asks.2.2) (by decide)
  have behind : (causeCode cause).toNat ∈ [3, 8, 9, 11] := by
    rw [number]
    decide
  exact ⟨if_neg asks, if_pos ⟨exception, number, putc⟩, if_pos ⟨exception, behind⟩, if_neg asks⟩

/-- An interrupt moves no byte for the task and leaves it where it is. -/
theorem interrupt_effect (interrupt : isInterrupt cause = true) :
    m.taken cause = [] ∧ m.sent cause = [] ∧ (m.snapshot cause).pc = m.hart.pc ∧ (m.snapshot cause).x = m.hart.x := by
  have notException {P : Prop} : ¬ (isInterrupt cause = false ∧ P) := fun both =>
    absurd (interrupt.symm.trans both.1) (by decide)
  exact ⟨if_neg notException, if_neg notException, if_neg notException, if_neg notException⟩

/-- What a trap does to the echo task at `p`: its snapshot stands at `p'`, and what was pending and what has
been taken is sent or pending now. -/
structure Carries (code : EchoCode) (m : Machine) (cause : BitVec 64) (p p' : EchoPoint) : Prop where
  at_ : code.At p' (m.snapshot cause).x (m.snapshot cause).pc
  balance : m.sent cause ++ p'.pending = p.pending ++ withNewlines (heard (m.taken cause))

/-- **One system call.** The answer reaches the point behind the `ecall`, and no byte is lost on the way. -/
theorem ecall_carries {p : EchoPoint} (exception : isInterrupt cause = false) (number : (causeCode cause).toNat = 8)
    (at_ : code.At p m.hart.x m.hart.pc) (atEcall : p.AtEcall) :
    Carries code m cause p (p.back ((m.snapshot cause).x .a0)) := by
  cases p with
  | getc =>
    obtain ⟨taken, sent, pc, x⟩ := getc_effect exception number (code.getc at_)
    have answer : (m.snapshot cause).x .a0 = ((Serial.tryGetc m.kernel.uart).1.getD 0xFF).setWidth 64 := by
      rw [x, Function.update_self]
    constructor
    · rw [answer, x, pc]
      exact code.got _ at_
    · rw [answer, taken, sent]
      exact pending_answer m.kernel.uart
  | putc byte =>
    obtain ⟨putc, a0⟩ := code.putc at_
    obtain ⟨taken, sent, pc, x⟩ := putc_effect exception number putc
    constructor
    · rw [x, pc]
      exact code.put at_
    · rw [taken, sent, a0]
      exact (List.append_nil _).symm
  | newline =>
    obtain ⟨putc, a0⟩ := code.newline at_
    obtain ⟨taken, sent, pc, x⟩ := putc_effect exception number putc
    constructor
    · rw [x, pc]
      exact code.again at_
    · rw [taken, sent, a0]
      rfl
  | poll => exact atEcall.elim
  | got byte => exact atEcall.elim
  | put byte => exact atEcall.elim

theorem Follows.carries {p p' : EchoPoint} {tval : BitVec 64} {clobber : Reg → BitVec 64}
    (follows : Follows code m p (.trap cause tval clobber) p') (at_ : code.At p m.hart.x m.hart.pc) :
    Carries code m cause p p' := by
  cases follows with
  | ecall exception number atEcall => exact ecall_carries exception number at_ atEcall
  | interrupt interrupt =>
    obtain ⟨taken, sent, pc, x⟩ := interrupt_effect interrupt
    constructor
    · rw [x, pc]
      exact at_
    · rw [taken, sent]
      exact (List.append_nil _).symm

end Calls

/-! ## Invariants -/

section Invariants

variable {code : EchoCode} {i : Fin maxTasks} {s s' : EchoState} {e : Event} {h : History}

/-- The echo task runs at its point, or its latest snapshot stands there. -/
structure Echoing (code : EchoCode) (i : Fin maxTasks) (s : EchoState) (h : History) : Prop where
  recorded : Recorded s.machine h
  running : s.machine.kernel.sched.current = some i →
    code.At s.point s.machine.hart.x s.machine.hart.pc ∧ s.machine.hart.mode = .user
  waiting : s.machine.kernel.sched.current ≠ some i → ∃ snap, (h i).head? = some snap ∧ Owed code s.point snap

/-- What the task has written and is going to write is what it has read calls for. -/
def Balanced (s : EchoState) : Prop :=
  s.console.echoed ++ s.point.pending = withNewlines (heard s.console.consumed)

/-- A trap that leaves the task's latest snapshot at its point keeps the task there. -/
theorem Echoing.returned (recorded : Recorded s.machine h) {cause tval : BitVec 64} {clobber : Reg → BitVec 64}
    (step : s.machine.Step (.trap cause tval clobber) s'.machine)
    (latest : ∃ snap, (observe h s.machine (.trap cause tval clobber) i).head? = some snap ∧ Owed code s'.point snap) :
    Echoing code i s' (observe h s.machine (.trap cause tval clobber)) := by
  have returned : Returned (observe h s.machine (.trap cause tval clobber)) s'.machine :=
    recorded.trapped (trap_cases step.2)
  refine ⟨returned.recorded, ?_, fun _ => latest⟩
  intro cur
  obtain ⟨snap, head, owed⟩ := latest
  obtain ⟨snap', head', restored⟩ := returned.restored i cur
  obtain rfl := Option.some.inj (head.symm.trans head')
  rw [restored.x, restored.pc, restored.mode]
  exact ⟨owed.at_, owed.user⟩

theorem Balanced.of_same (balanced : Balanced s) (console : s'.console = s.console)
    (pending : s'.point.pending = s.point.pending) : Balanced s' := by
  rw [Balanced, console, pending]
  exact balanced

/-- What the console has moved after a trap of the echo task. -/
theorem observe_own {c : Console} {m : Machine} {cause tval : BitVec 64} {clobber : Reg → BitVec 64}
    (cur : m.kernel.sched.current = some i) : c.observe i m (.trap cause tval clobber) =
      ⟨c.consumed ++ m.taken cause, c.echoed ++ m.sent cause, c.foreign⟩ := if_pos cur

theorem observe_foreign {c : Console} {m : Machine} {cause tval : BitVec 64} {clobber : Reg → BitVec 64}
    (other : m.kernel.sched.current ≠ some i) : c.observe i m (.trap cause tval clobber) =
      ⟨c.consumed, c.echoed, c.foreign ++ m.taken cause⟩ := if_neg other

/-- A trap while the echo task runs. -/
theorem Echoing.own_trap (echoing : Echoing code i s h) (balanced : Balanced s) {cause tval : BitVec 64}
    {clobber : Reg → BitVec 64} (step : EchoStep code i s (.trap cause tval clobber) s')
    (cur : s.machine.kernel.sched.current = some i) :
    Echoing code i s' (observe h s.machine (.trap cause tval clobber)) ∧ Balanced s' := by
  obtain ⟨at_, user⟩ := echoing.running cur
  have mode : Status.mretMode (s.machine.snapshot cause).mstatus = .user :=
    (Status.mretMode_of_mpp (Status.mpp_trap _ _)).trans user
  have head : (observe h s.machine (.trap cause tval clobber) i).head? = some (s.machine.snapshot cause) := by
    rw [observe_current cur]
    rfl
  have carries := (step.follows cur).carries at_
  refine ⟨.returned echoing.recorded step.step ⟨_, head, carries.at_, mode⟩, ?_⟩
  have console := step.console
  rw [observe_own cur] at console
  calc s'.console.echoed ++ s'.point.pending
      = s.console.echoed ++ (s.machine.sent cause ++ s'.point.pending) := by rw [console, List.append_assoc]
    _ = s.console.echoed ++ s.point.pending ++ withNewlines (heard (s.machine.taken cause)) := by
        rw [carries.balance, List.append_assoc]
    _ = withNewlines (heard s.console.consumed) ++ withNewlines (heard (s.machine.taken cause)) := by rw [balanced]
    _ = withNewlines (heard s'.console.consumed) := by rw [console, heard_append, withNewlines_append]

/-- A trap while another task runs. -/
theorem Echoing.other_trap (echoing : Echoing code i s h) (balanced : Balanced s) {cause tval : BitVec 64}
    {clobber : Reg → BitVec 64} (step : EchoStep code i s (.trap cause tval clobber) s')
    (other : s.machine.kernel.sched.current ≠ some i) :
    Echoing code i s' (observe h s.machine (.trap cause tval clobber)) ∧ Balanced s' := by
  have point := step.stays other
  have console := step.console
  rw [observe_foreign other] at console
  constructor
  · apply Echoing.returned echoing.recorded step.step
    rw [observe_other other, point]
    exact echoing.waiting other
  · rw [Balanced, console, point]
    exact balanced

/-- A step without a trap: the point moves only if the task runs, and no byte is moved. -/
theorem Echoing.quiet (echoing : Echoing code i s h) (balanced : Balanced s) (recorded : Recorded s'.machine h)
    (sched : s'.machine.kernel.sched = s.machine.kernel.sched) (console : s'.console = s.console)
    (own : s.machine.kernel.sched.current = some i →
      (code.At s'.point s'.machine.hart.x s'.machine.hart.pc ∧ s'.machine.hart.mode = .user) ∧
        s'.point.pending = s.point.pending)
    (away : s.machine.kernel.sched.current ≠ some i → s'.point = s.point) :
    Echoing code i s' h ∧ Balanced s' := by
  by_cases cur : s.machine.kernel.sched.current = some i
  · obtain ⟨there, pending⟩ := own cur
    refine ⟨⟨recorded, fun _ => there, fun other => ?_⟩, balanced.of_same console pending⟩
    rw [sched] at other
    exact absurd cur other
  · have point := away cur
    refine ⟨⟨recorded, fun cur' => ?_, fun _ => ?_⟩, balanced.of_same console (by rw [point])⟩
    · rw [sched] at cur'
      exact absurd cur' cur
    · rw [point]
      exact echoing.waiting cur

/-- **One step.** Whatever happens, the echo task stays at its point and the streams stay in balance. -/
theorem Echoing.step (echoing : Echoing code i s h) (balanced : Balanced s) (step : EchoStep code i s e s') :
    Echoing code i s' (observe h s.machine e) ∧ Balanced s' := by
  cases e with
  | trap cause tval clobber =>
    by_cases cur : s.machine.kernel.sched.current = some i
    · exact echoing.own_trap balanced step cur
    · exact echoing.other_trap balanced step cur
  | exec x pc mem =>
    have recorded := echoing.recorded.step step.step
    obtain ⟨m', c', p'⟩ := s'
    obtain ⟨⟨-, after⟩, console, follows, stays⟩ := step
    cases after
    refine echoing.quiet balanced recorded rfl console (fun cur => ?_) stays
    have move := follows cur
    cases move with
    | exec n at_ => exact ⟨⟨at_, (echoing.running cur).2⟩, pending_iterate s.point n⟩
  | writeMstatus v =>
    have recorded := echoing.recorded.step step.step
    obtain ⟨m', c', p'⟩ := s'
    obtain ⟨⟨-, after⟩, console, follows, stays⟩ := step
    cases after
    refine echoing.quiet balanced recorded rfl console (fun cur => ?_) stays
    have move := follows cur
    cases move
  | device rx mtime =>
    have recorded := echoing.recorded.step step.step
    obtain ⟨m', c', p'⟩ := s'
    obtain ⟨⟨-, after⟩, console, follows, stays⟩ := step
    cases after
    refine echoing.quiet balanced recorded rfl console (fun cur => ?_) stays
    have move := follows cur
    cases move with
    | device => exact ⟨echoing.running cur, rfl⟩

/-- Right after boot the echo task waits at its entry point. -/
theorem BootState.echoing {l : Layout} {specs : List TaskSpec} {m : Machine} (boot : BootState l specs m)
    {spec : TaskSpec} (at_ : specs[i.val]? = some spec) (entry : spec.entry = code.entry)
    {codeBase codeSize : BitVec 64} {mmio : List (BitVec 64 × BitVec 64)}
    (user : spec.mode = .UMode codeBase codeSize mmio) : Echoing code i (.start m) (bootHistory specs m) := by
  refine ⟨boot.recorded, fun cur => ?_, fun _ => ?_⟩
  · exact absurd (boot.current.symm.trans cur) nofun
  · obtain ⟨t, slot, -⟩ := boot.filled i spec at_
    refine ⟨spec.snapshot t.stackTop, ?_, ?_, ?_⟩
    · simp only [bootHistory, at_, slot]
      rfl
    · rw [show (spec.snapshot t.stackTop).pc = code.entry from entry]
      exact code.start _
    · simp only [TaskSpec.snapshot, user]
      decide

/-- Bytes that arrive are consumed in order or still wait. -/
theorem EchoStep.received (step : EchoStep code i s e s') (own : s'.console.foreign = []) :
    s.console.foreign = [] ∧
      s.console.consumed ++ s.machine.kernel.uart.rx ++ arrivals [e] =
        s'.console.consumed ++ s'.machine.kernel.uart.rx := by
  obtain ⟨m', c', p'⟩ := s'
  obtain ⟨⟨-, after⟩, console, -, -⟩ := step
  subst console
  cases e with
  | trap cause tval clobber =>
    have taken : s.machine.taken cause ++ m'.kernel.uart.rx = s.machine.kernel.uart.rx := trap_taken after
    by_cases cur : s.machine.kernel.sched.current = some i
    · rw [observe_own cur] at own ⊢
      refine ⟨own, ?_⟩
      show s.console.consumed ++ s.machine.kernel.uart.rx ++ [] =
        s.console.consumed ++ s.machine.taken cause ++ m'.kernel.uart.rx
      rw [List.append_nil, List.append_assoc, taken]
    · rw [observe_foreign cur] at own ⊢
      obtain ⟨before, none⟩ := List.append_eq_nil_iff.mp own
      rw [none, List.nil_append] at taken
      refine ⟨before, ?_⟩
      show s.console.consumed ++ s.machine.kernel.uart.rx ++ [] = s.console.consumed ++ m'.kernel.uart.rx
      rw [List.append_nil, taken]
  | device rx mtime =>
    cases after
    refine ⟨own, ?_⟩
    rw [List.append_assoc]
    exact congrArg (fun tail => s.console.consumed ++ (s.machine.kernel.uart.rx ++ tail)) (List.append_nil rx)
  | exec x pc mem =>
    cases after
    exact ⟨own, List.append_nil _⟩
  | writeMstatus v =>
    cases after
    exact ⟨own, List.append_nil _⟩

/-- What the task writes goes out, in order. -/
theorem EchoStep.goesOut (step : EchoStep code i s e s')
    (before : s.console.echoed.Sublist s.machine.kernel.uart.tx) :
    s'.console.echoed.Sublist s'.machine.kernel.uart.tx := by
  obtain ⟨m', c', p'⟩ := s'
  obtain ⟨⟨-, after⟩, console, -, -⟩ := step
  subst console
  cases e with
  | trap cause tval clobber =>
    have sent := (trap_sent after).sublist
    by_cases cur : s.machine.kernel.sched.current = some i
    · rw [observe_own cur]
      exact (before.append (List.Sublist.refl _)).trans sent
    · rw [observe_foreign cur]
      exact (before.trans (List.sublist_append_left _ _)).trans sent
  | device rx mtime =>
    cases after
    exact before
  | exec x pc mem =>
    cases after
    exact before
  | writeMstatus v =>
    cases after
    exact before

end Invariants

/-! ## The echoed stream -/

section Stream

variable {code : EchoCode} {i : Fin maxTasks} {es : List Event} {s s' : EchoState}

theorem arrivals_append (first second : List Event) : arrivals (first ++ second) = arrivals first ++ arrivals second :=
  List.flatMap_append

theorem received_of_run (run : Sim.Run (EchoStep code i) s es s') (own : s'.console.foreign = []) :
    s.console.consumed ++ s.machine.kernel.uart.rx ++ arrivals es =
      s'.console.consumed ++ s'.machine.kernel.uart.rx := by
  induction run with
  | start => exact List.append_nil _
  | next _ step ih =>
    obtain ⟨before, more⟩ := step.received own
    rw [arrivals_append, ← List.append_assoc, ih before]
    exact more

theorem balanced_of_run {l : Layout} {specs : List TaskSpec} {m : Machine} (booted : Booted l specs m)
    {spec : TaskSpec} (at_ : specs[i.val]? = some spec) (entry : spec.entry = code.entry)
    {codeBase codeSize : BitVec 64} {mmio : List (BitVec 64 × BitVec 64)}
    (user : spec.mode = .UMode codeBase codeSize mmio) (run : Sim.Run (EchoStep code i) (.start m) es s) :
    Balanced s := by
  obtain ⟨h, observed⟩ := run.observed (fun h s e => observe h s.machine e) (bootHistory specs m)
  have both : Echoing code i s h ∧ Balanced s := by
    refine observed.invariant (P := fun a => Echoing code i a.1 a.2 ∧ Balanced a.1) ?_ ?_
    · have first : Balanced (.start m) := rfl
      exact ⟨booted.state.echoing at_ entry user, first⟩
    · rintro a e b ⟨echoing, balanced⟩ ⟨step, history⟩
      rw [history]
      exact echoing.step balanced step
  exact both.2

end Stream

/-- **The echoed stream.** In every run of the machine in which slot `i` executes `user_echo_task`, whatever
other tasks do and whenever bytes arrive, polls come back empty and the task is preempted: what the
task has written through `SYS_PUTC`, with what it is about to write, is what it has taken through
`SYS_GETC` without the bytes `0xFF` and with a byte `10` after each byte `13`. What it has written went
out in that order, and if no other task reads the console, what has arrived is what it has taken, in
order, and what still waits. -/
theorem echo_stream {l : Layout} {specs : List TaskSpec} {m : Machine} (booted : Booted l specs m) {i : Fin maxTasks}
    {spec : TaskSpec} (at_ : specs[i.val]? = some spec) {code : EchoCode} (entry : spec.entry = code.entry)
    {codeBase codeSize : BitVec 64} {mmio : List (BitVec 64 × BitVec 64)}
    (user : spec.mode = .UMode codeBase codeSize mmio) {es : List Event} {s : EchoState}
    (run : Sim.Run (EchoStep code i) (.start m) es s) :
    s.console.echoed ++ s.point.pending = withNewlines (heard s.console.consumed) ∧
    s.console.echoed.Sublist s.machine.kernel.uart.tx ∧
    (s.console.foreign = [] →
      m.kernel.uart.rx ++ arrivals es = s.console.consumed ++ s.machine.kernel.uart.rx) := by
  refine ⟨balanced_of_run booted at_ entry user run, ?_, received_of_run run⟩
  exact run.invariant (P := fun s => s.console.echoed.Sublist s.machine.kernel.uart.tx) (List.nil_sublist _)
    fun _ _ _ before step => step.goesOut before

/-! ## The echo task of `kmain` -/

/-- A compilation of `user_echo_task` that keeps the byte in `a0`. -/
def echoImage : EchoCode where
  entry := 0x8000_8000
  At
    | .poll, _, pc => pc = 0x8000_8000 ∨ pc = 0x8000_8034
    | .getc, x, pc => pc = 0x8000_8004 ∧ x .a7 = sysGetc
    | .got byte, x, pc => pc = 0x8000_8008 ∧ x .a0 = byte
    | .putc byte, x, pc => pc = 0x8000_801c ∧ x .a7 = sysPutc ∧ x .a0 = byte
    | .put byte, x, pc => pc = 0x8000_8020 ∧ x .a0 = byte
    | .newline, x, pc => pc = 0x8000_8030 ∧ x .a7 = sysPutc ∧ x .a0 = 10
  start := fun _ => .inl rfl
  getc := fun at_ => at_.2
  got := fun a0 at_ => ⟨by rw [at_.1]; rfl, Function.update_self _ _ _⟩
  putc := fun at_ => at_.2
  put := fun at_ => ⟨by rw [at_.1]; rfl, at_.2.2⟩
  newline := fun at_ => at_.2
  again := fun at_ => .inr (by rw [at_.1]; rfl)

/-- The memory of the echo task at its first `ecall`. -/
def echoMem : Mem := fun a => if a = 0x8000_8004 then 0x73 else 0

def echoEcall : Event := .trap 8 0 fun _ => 0

/-- The echo task is dispatched, a byte arrives, and the task asks for it. -/
def pollEvents (c : BitVec 8) : List Event :=
  [timerTick, .device [c] 0, .exec (fun _ => 0) 0x8000_8004 echoMem, echoEcall]

/-- The machine as the echo task asks for the byte `c`. -/
def asking (c : BitVec 8) : Machine :=
  { hart := { echoRunning.hart with x := fun _ => 0, pc := 0x8000_8004, mem := echoMem }
    kernel := { echoRunning.kernel with
      uart := { echoRunning.kernel.uart with rx := echoRunning.kernel.uart.rx ++ [c] }
      timer := { echoRunning.kernel.timer with mtime := 0 } } }

theorem asking_run (c : BitVec 8) :
    Sim.Run (EchoStep echoImage 1) (.start kmainBooted)
      [timerTick, .device [c] 0, .exec (fun _ => 0) 0x8000_8004 echoMem] ⟨asking c, ⟨[], [], []⟩, .getc⟩ := by
  have idle : kmainBooted.kernel.sched.current ≠ some 1 := by
    rw [kmain_booted.state.current]
    exact nofun
  have tick : kmainBooted.Step timerTick echoRunning := ⟨fun _ => .inr (by decide), Outcome.eq_ok _ rfl⟩
  have quiet : kmainBooted.taken 0x8000_0000_0000_0007 = [] := (interrupt_effect (by decide)).1
  have console : (⟨[], [], []⟩ : Console) = Console.observe 1 ⟨[], [], []⟩ kmainBooted timerTick := by
    rw [timerTick, observe_foreign idle, quiet]
    rfl
  have dispatched : Sim.Run (EchoStep echoImage 1) (.start kmainBooted) [timerTick] ⟨echoRunning, ⟨[], [], []⟩, .poll⟩ :=
    Sim.Run.start.next ⟨tick, console, fun cur => absurd cur idle, fun _ => rfl⟩
  let arrived : Machine := { echoRunning with kernel := { echoRunning.kernel with
    uart := { echoRunning.kernel.uart with rx := echoRunning.kernel.uart.rx ++ [c] }
    timer := { echoRunning.kernel.timer with mtime := 0 } } }
  have device : EchoStep echoImage 1 ⟨echoRunning, ⟨[], [], []⟩, .poll⟩ (.device [c] 0) ⟨arrived, ⟨[], [], []⟩, .poll⟩ :=
    ⟨⟨trivial, rfl⟩, rfl, fun _ => .device, fun _ => rfl⟩
  have exec : EchoStep echoImage 1 ⟨arrived, ⟨[], [], []⟩, .poll⟩ (.exec (fun _ => 0) 0x8000_8004 echoMem)
      ⟨asking c, ⟨[], [], []⟩, .getc⟩ :=
    ⟨⟨trivial, rfl⟩, rfl, fun _ => .exec 1 ⟨rfl, rfl⟩, fun other => absurd echo_current other⟩
  exact (dispatched.next device).next exec

/-- The task is told of the byte. -/
theorem poll_run (c : BitVec 8) : ∃ m, m.kernel.sched.current = some 1 ∧
    Sim.Run (EchoStep echoImage 1) (.start kmainBooted) (pollEvents c) ⟨m, ⟨[c], [], []⟩, .got (c.setWidth 64)⟩ := by
  have word : loadW (asking c).hart.mem (asking c).hart.pc = ecallWord := by
    show loadW echoMem 0x8000_8004 = ecallWord
    decide
  have stay : StayTrap (asking c).hart 8 := .ecall (by decide) (by decide) rfl word
  obtain ⟨m, trapped, same, -⟩ := stay.returns 0 fun _ => 0
  have cur : (asking c).kernel.sched.current = some 1 := echo_current
  have rx : (asking c).kernel.uart.rx = [c] := rfl
  obtain ⟨taken, sent, -, x⟩ := getc_effect (m := asking c) (by decide : isInterrupt 8 = false) (by decide) rfl
  have answer : ((asking c).snapshot 8).x .a0 = c.setWidth 64 := by
    rw [x, Function.update_self, Serial.tryGetc, rx]
    rfl
  have console : (⟨[c], [], []⟩ : Console) = Console.observe 1 ⟨[], [], []⟩ (asking c) echoEcall := by
    rw [echoEcall, observe_own cur, taken, sent, rx]
    rfl
  have follows : Follows echoImage (asking c) .getc echoEcall (.got (c.setWidth 64)) := by
    rw [← answer]
    exact .ecall (by decide) (by decide) trivial
  have admits : (asking c).Admits echoEcall := fun interrupt => absurd interrupt (by decide)
  refine ⟨m, same.trans cur, (asking_run c).next ?_⟩
  exact ⟨⟨admits, trapped⟩, console, fun _ => follows, fun other => absurd cur other⟩

/-- After a carriage return the task owes a newline as well. -/
theorem echo_stream_carriage_return :
    ∃ s, Sim.Run (EchoStep echoImage 1) (.start kmainBooted) (pollEvents 13) s ∧
      s.console.consumed = [13] ∧ s.console.echoed ++ s.point.pending = [13, 10] := by
  obtain ⟨m, -, run⟩ := poll_run 13
  obtain ⟨stream, -, -⟩ := echo_stream kmain_booted (i := 1) rfl rfl rfl run
  exact ⟨_, run, rfl, stream⟩

/-- A received byte `0xFF` is taken from the UART and not echoed: the task is back at its poll. -/
theorem sentinel_byte_lost :
    ∃ es s, Sim.Run (EchoStep echoImage 1) (.start kmainBooted) es s ∧ arrivals es = [0xFF] ∧
      s.console.consumed = [0xFF] ∧ s.point = .poll ∧ s.console.echoed ≠ withNewlines s.console.consumed := by
  obtain ⟨m, cur, run⟩ := poll_run 0xFF
  have back : EchoStep echoImage 1 ⟨m, ⟨[0xFF], [], []⟩, .got 0xFF⟩ (.exec (fun _ => 0) 0x8000_8000 echoMem)
      ⟨{ m with hart := { m.hart with x := fun _ => 0, pc := 0x8000_8000, mem := echoMem } }, ⟨[0xFF], [], []⟩, .poll⟩ :=
    ⟨⟨trivial, rfl⟩, rfl, fun _ => .exec 1 (.inl rfl), fun other => absurd cur other⟩
  have differs : ([] : List (BitVec 8)) ≠ withNewlines [0xFF] := by decide
  exact ⟨_, _, run.next back, rfl, rfl, rfl, differs⟩

end Cyptos
