import Cyptos.Kernel.Board
import Cyptos.Logic.Console
import Cyptos.Sim.Clock

/-!
# Timer ticks

The CLINT under the kernel is a periodic clock. Only the timer interrupt moves the deadline and the tick
counter, and it moves both; so the counter counts the interrupts, and they are at least a tick apart.
-/

namespace Cyptos
set_option autoImplicit false
open Riscv Sim

/-- The trap is a machine timer interrupt. -/
def TimerTrap (cause : BitVec 64) : Prop := isInterrupt cause = true ∧ causeCode cause = 7

instance (cause : BitVec 64) : Decidable (TimerTrap cause) := inferInstanceAs (Decidable (_ ∧ _))

/-- What a timer interrupt does to the timer. -/
def Timer.tick (t : Timer) : Timer := t.incrementTick.scheduleNextTick

theorem tick_mtime (t : Timer) : t.tick.mtime = t.mtime := by
  obtain ⟨mtime, mtimecmp, tickCount⟩ := t
  rfl

theorem tick_tickCount (t : Timer) : t.tick.tickCount = t.tickCount + 1 := by
  obtain ⟨mtime, mtimecmp, tickCount⟩ := t
  rfl

/-! ## Handlers -/

@[simp] theorem log_timer (s : TrapState) (msg : String) : (s.log msg).kernel.timer = s.kernel.timer := rfl

theorem schedule_timer {s r : TrapState} (done : schedule s = .ok r) : r.kernel.timer = s.kernel.timer := by
  obtain ⟨r', same, switched⟩ := schedule_ok s
  rw [done] at same
  obtain rfl := Except.ok.inj same
  cases switched with
  | idle none => rfl
  | switch uart chosen slot => rfl

theorem killCurrent_timer {s r : TrapState} (done : killCurrent s = .ok r) : r.kernel.timer = s.kernel.timer := by
  simp only [killCurrent, withLock_eq] at done
  obtain ⟨u, -, rest⟩ := Outcome.bind_ok.mp done
  have kept := schedule_timer rest
  exact kept

theorem handleTimer_timer {s r : TrapState} (done : handleTimer s = .ok r) : r.kernel.timer = s.kernel.timer.tick := by
  unfold handleTimer at done
  simp only at done
  rw [Timer.tick]
  split at done
  · have kept := schedule_timer done
    rw [log_timer] at kept
    exact kept
  · have kept := schedule_timer done
    exact kept

theorem handleSyscall_timer (s : TrapState) : (handleSyscall s).kernel.timer = s.kernel.timer := by
  unfold handleSyscall
  split
  · rfl
  · split
    · rfl
    · split
      · exact log_timer s _
      · exact log_timer s _

theorem handleAccessFault_timer {name : String} {mepc mtval : BitVec 64} {s r : TrapState}
    (done : handleAccessFault name mepc mtval s = .ok r) : r.kernel.timer = s.kernel.timer := by
  unfold handleAccessFault at done
  dsimp only at done
  split at done
  · exact (killCurrent_timer done).trans (log_timer s _)
  · cases done

theorem handleException_timer {cause mepc mtval : BitVec 64} {s r : TrapState}
    (done : handleException cause mepc mtval s = .ok r) : r.kernel.timer = s.kernel.timer := by
  unfold handleException at done
  -- the arms are access faults, system calls, what is only logged, and panics
  split at done
  all_goals first
    | exact handleAccessFault_timer done
    | (cases done; rw [writeMepc_kernel]; exact log_timer s _)
    | (cases done; rw [writeMepc_kernel]; exact handleSyscall_timer s)
    | cases done

theorem handleInterrupt_timer {cause : BitVec 64} {s r : TrapState} (done : handleInterrupt cause s = .ok r) :
    r.kernel.timer = if cause = 7 then s.kernel.timer.tick else s.kernel.timer := by
  unfold handleInterrupt at done
  split
  · rename_i timer
    rw [if_pos timer] at done
    exact handleTimer_timer done
  · rename_i other
    rw [if_neg other] at done
    split at done
    · cases done
      exact log_timer s _
    · split at done
      · cases done
        exact log_timer s _
      · cases done
        exact log_timer s _

/-- A trap ticks if it is a timer interrupt, and otherwise leaves the timer alone. -/
theorem trap_timer {m m' : Machine} {cause tval : BitVec 64} {clobber : Reg → BitVec 64}
    (trapped : m.trap cause tval clobber = .ok m') :
    m'.kernel.timer = if TimerTrap cause then m.kernel.timer.tick else m.kernel.timer := by
  obtain ⟨r, handled, kernel⟩ := trap_kernel trapped
  rw [trapState_eq] at handled
  have mcause : (m.trapCsrs cause tval).mcause = cause := rfl
  rw [kernel]
  simp only [trapHandler, mcause] at handled
  split at handled
  · rename_i interrupt
    rw [handleInterrupt_timer handled]
    simp only [TimerTrap, interrupt, true_and]
  · rename_i exception
    rw [handleException_timer handled, if_neg fun timer => exception timer.1]

/-! ## The board's clock -/

/-- The events of a board whose clock runs: time does not go back, and a timer interrupt is pending. -/
def Machine.OnTime (m : Machine) : Event → Prop
  | .device _ mtime => m.kernel.timer.mtime.toNat ≤ mtime.toNat
  | .trap cause _ _ => TimerTrap cause → m.kernel.timer.mtimecmp.toNat ≤ m.kernel.timer.mtime.toNat
  | _ => True

def TimedStep (m : Machine) (e : Event) (m' : Machine) : Prop := m.Step e m' ∧ m.OnTime e

/-- The times of the timer interrupts, latest first. -/
def tickTimes (times : List Nat) (m : Machine) : Event → List Nat
  | .trap cause _ _ => if TimerTrap cause then m.kernel.timer.mtime.toNat :: times else times
  | _ => times

def Machine.clock (m : Machine) (times : List Nat) : Clock :=
  ⟨m.kernel.timer.mtime.toNat, m.kernel.timer.mtimecmp.toNat, times⟩

/-- A tick in units of `mtime`. -/
def tickPeriod : Nat := 100_000

theorem tick_mtimecmp (t : Timer) (range : t.mtime.toNat + tickPeriod < 2 ^ 64) :
    t.tick.mtimecmp.toNat = t.mtime.toNat + tickPeriod := by
  have delta : Timer.usToTicks tickIntervalUs = 100_000 := by decide
  show (t.mtime + Timer.usToTicks tickIntervalUs).toNat = _
  rw [delta, BitVec.toNat_add]
  exact Nat.mod_eq_of_lt range

section Runs

variable {m m' : Machine} {e : Event} {times : List Nat}

theorem TimedStep.mtime_le (step : TimedStep m e m') : m.kernel.timer.mtime.toNat ≤ m'.kernel.timer.mtime.toNat := by
  obtain ⟨⟨-, after⟩, onTime⟩ := step
  cases e with
  | exec x pc mem =>
    cases after
    exact le_rfl
  | writeMstatus v =>
    cases after
    exact le_rfl
  | device rx mtime =>
    cases after
    exact onTime
  | trap cause tval clobber =>
    rw [trap_timer after]
    split
    · rw [tick_mtime]
    · exact le_rfl

/-- **A step of the machine is a step of its clock.** -/
theorem TimedStep.clock (step : TimedStep m e m') (range : m.kernel.timer.mtime.toNat + tickPeriod < 2 ^ 64) :
    (m.clock times).Step tickPeriod (m'.clock (tickTimes times m e)) := by
  have later := step.mtime_le
  obtain ⟨⟨-, after⟩, onTime⟩ := step
  cases e with
  | exec x pc mem =>
    cases after
    exact .pass later
  | writeMstatus v =>
    cases after
    exact .pass later
  | device rx mtime =>
    cases after
    exact .pass later
  | trap cause tval clobber =>
    have timer := trap_timer after
    simp only [Machine.clock, tickTimes, timer]
    split
    · rename_i ticks
      rw [tick_mtimecmp _ range, tick_mtime]
      exact .fire (onTime ticks)
    · exact .pass le_rfl

/-- The tick counter after a step. -/
theorem TimedStep.count (step : TimedStep m e m') (times : List Nat) :
    m'.kernel.timer.tickCount + BitVec.ofNat 64 times.length =
      m.kernel.timer.tickCount + BitVec.ofNat 64 (tickTimes times m e).length := by
  obtain ⟨⟨-, after⟩, -⟩ := step
  cases e with
  | exec x pc mem =>
    cases after
    rfl
  | writeMstatus v =>
    cases after
    rfl
  | device rx mtime =>
    cases after
    rfl
  | trap cause tval clobber =>
    have timer := trap_timer after
    simp only [tickTimes, timer]
    split
    · rw [tick_tickCount, List.length_cons, BitVec.ofNat_add, BitVec.add_assoc, BitVec.add_comm 1]
      rfl
    · rfl

end Runs

/-! ## Booting -/

theorem spawn_timer {spec : TaskSpec} {csr csr' : Csrs} {k k' : Kernel} {id : TaskId}
    (spawned : spec.spawn csr k = .ok (id, k', csr')) : k'.timer = k.timer := by
  obtain ⟨-, -, -, kernel⟩ := spawn_cases spawned
  rw [kernel]

theorem spawnAll_timer {specs : List TaskSpec} {k k' : Kernel} {csr csr' : Csrs}
    (all : spawnAll specs k csr = .ok (k', csr')) : k'.timer = k.timer := by
  induction specs generalizing k csr with
  | nil =>
    cases all
    rfl
  | cons spec specs ih =>
    rw [spawnAll, List.foldlM_cons] at all
    obtain ⟨⟨k₁, csr₁⟩, first, rest⟩ := Outcome.bind_ok.mp all
    obtain ⟨⟨id, k₂, csr₂⟩, spawn, same⟩ := Outcome.bind_ok.mp first
    cases same
    exact (ih rest).trans (spawn_timer spawn)

/-- The timer is armed one tick ahead. -/
theorem Booted.timer {l : Layout} {specs : List TaskSpec} {m : Machine} (booted : Booted l specs m) :
    m.kernel.timer.mtimecmp = m.kernel.timer.mtime + Timer.usToTicks tickIntervalUs := by
  obtain ⟨reset, heap, -, -, boots⟩ := booted
  obtain ⟨⟨k, csr⟩, all, rest⟩ := Outcome.bind_ok.mp boots
  simp only [withLock_eq] at rest
  cases rest
  have timer := spawnAll_timer all
  simp only [timer, Timer.init, Timer.setTimerUs, Timer.clearTimer]

section Ticking

variable {l : Layout} {specs : List TaskSpec} {start m : Machine} {es : List Event} {times : List Nat}

/-- What the interrupt times say about the machine. -/
structure Ticking (start m : Machine) (times : List Nat) : Prop where
  regular : (m.clock times).Regular tickPeriod
  started : times.getLast? = some start.kernel.timer.mtime.toNat
  count : m.kernel.timer.tickCount + 1 = start.kernel.timer.tickCount + BitVec.ofNat 64 times.length

theorem Booted.ticking (booted : Booted l specs start) (range : start.kernel.timer.mtime.toNat + tickPeriod < 2 ^ 64) :
    Ticking start start [start.kernel.timer.mtime.toNat] := by
  have armed : start.kernel.timer.mtimecmp.toNat = start.kernel.timer.mtime.toNat + tickPeriod := by
    rw [booted.timer]
    exact tick_mtimecmp start.kernel.timer range
  refine ⟨?_, rfl, rfl⟩
  rw [Machine.clock, armed]
  exact Clock.regular_start _ _

theorem Ticking.step {m' : Machine} {e : Event} (ticking : Ticking start m times) (step : TimedStep m e m')
    (range : m.kernel.timer.mtime.toNat + tickPeriod < 2 ^ 64) : Ticking start m' (tickTimes times m e) := by
  refine ⟨ticking.regular.step (step.clock range), ?_, ?_⟩
  · obtain ⟨last, earlier, fired, -⟩ := ticking.regular.armed
    have started := ticking.started
    obtain rfl : times = last :: earlier := fired
    unfold tickTimes
    split
    · split
      · rw [List.getLast?_cons_cons]
        exact started
      · exact started
    · exact started
  · have counted := step.count times
    have before := ticking.count
    generalize BitVec.ofNat 64 times.length = old at counted before
    generalize BitVec.ofNat 64 (tickTimes times m e).length = new at counted ⊢
    bv_omega

/-- Along a run with its interrupt times, as long as the time is a tick short of wrapping. -/
theorem ticking_of_run (booted : Booted l specs start)
    (run : Run (Observed TimedStep tickTimes) (start, [start.kernel.timer.mtime.toNat]) es (m, times))
    (range : m.kernel.timer.mtime.toNat + tickPeriod < 2 ^ 64) : Ticking start m times := by
  refine run.invariant
    (P := fun s => s.1.kernel.timer.mtime.toNat + tickPeriod < 2 ^ 64 → Ticking start s.1 s.2) booted.ticking ?_ range
  rintro ⟨m, times⟩ e ⟨m', times'⟩ ticking ⟨step, rfl⟩ range
  have later : m.kernel.timer.mtime.toNat ≤ m'.kernel.timer.mtime.toNat := step.mtime_le
  have before : m.kernel.timer.mtime.toNat + tickPeriod < 2 ^ 64 := lt_of_le_of_lt (Nat.add_le_add_right later _) range
  exact (ticking before).step step before

/-- **Ticks.** On a board whose clock runs, as long as `mtime` is a tick short of wrapping: the tick counter
counts the timer interrupts since boot, the next deadline is one tick after the last of them, two of them
are always at least a tick apart, and so there are at most as many of them as ticks have passed. -/
theorem timer_ticks (booted : Booted l specs start) (run : Run TimedStep start es m)
    (range : m.kernel.timer.mtime.toNat + tickPeriod < 2 ^ 64) :
    ∃ last earlier, Run (Observed TimedStep tickTimes) (start, [start.kernel.timer.mtime.toNat]) es (m, last :: earlier) ∧
      m.kernel.timer.tickCount = start.kernel.timer.tickCount + BitVec.ofNat 64 earlier.length ∧
      m.kernel.timer.mtimecmp.toNat = last + tickPeriod ∧
      (last :: earlier).IsChain (fun later earlier => earlier + tickPeriod ≤ later) ∧
      start.kernel.timer.mtime.toNat + earlier.length * tickPeriod ≤ m.kernel.timer.mtime.toNat := by
  obtain ⟨times, observed⟩ := run.observed tickTimes [start.kernel.timer.mtime.toNat]
  have ticking := ticking_of_run booted observed range
  obtain ⟨last, earlier, fired, deadline, -⟩ := ticking.regular.armed
  have rate := ticking.regular.rate ticking.started
  have spaced := ticking.regular.spaced
  have counted := ticking.count
  obtain rfl : times = last :: earlier := fired
  refine ⟨last, earlier, observed, ?_, deadline, spaced, rate⟩
  rw [List.length_cons, BitVec.ofNat_add] at counted
  generalize BitVec.ofNat 64 earlier.length = n at counted ⊢
  bv_omega

end Ticking

/-- The first tick is over. -/
def firstTick : Event := .device [] 100_000

def kmainWaited : Machine := (kmainBooted.after firstTick).toOption.getD kmainBooted

def kmainTicked : Machine := (kmainWaited.after timerTick).toOption.getD kmainBooted

theorem kmain_ticks : Run TimedStep kmainBooted [firstTick, timerTick] kmainTicked := by
  have waits : TimedStep kmainBooted firstTick kmainWaited := ⟨⟨trivial, rfl⟩, Nat.zero_le _⟩
  have ticks : TimedStep kmainWaited timerTick kmainTicked :=
    ⟨⟨fun _ => .inr (by decide), Outcome.eq_ok _ rfl⟩, fun _ => by decide⟩
  exact (Run.start.next waits).next ticks

/-- The first timer interrupt of the board. -/
theorem timer_ticks_first : ∃ (last : Nat) (earlier : List Nat),
    kmainTicked.kernel.timer.tickCount = kmainBooted.kernel.timer.tickCount + BitVec.ofNat 64 earlier.length ∧
      kmainTicked.kernel.timer.mtimecmp.toNat = last + tickPeriod := by
  have range : kmainTicked.kernel.timer.mtime.toNat + tickPeriod < 2 ^ 64 := by decide
  obtain ⟨last, earlier, -, count, deadline, -⟩ := timer_ticks kmain_booted kmain_ticks range
  exact ⟨last, earlier, count, deadline⟩

end Cyptos
