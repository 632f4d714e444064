import Micro65.Devices.Peripheral
import Micro65.Machine.Basic
import Micro65.Monitor.Console
import Micro65.Monitor.Trace
import Micro65.Proofs.Cpu.Independence
import Micro65.Proofs.Cpu.Ticks

set_option autoImplicit false

/-!
Debugging is transparent. A watched machine differs from one that nobody watches in the ticks that its
monitor refuses, and in nothing else: a refused tick leaves processor and devices alone, the tick after
it is not refused, and every other tick does what it does without the monitor.
-/

namespace Micro65

variable {δ μ ν : Type}

namespace Machine

/-- The same processor and the same devices under the same lines, whoever watches. -/
structure Agrees (machine : Machine δ μ) (other : Machine δ ν) : Prop where
  cpu : machine.cpu = other.cpu
  bus : machine.board.bus.Agrees other.board.bus

theorem Agrees.trans {κ : Type} {machine : Machine δ κ} {middle : Machine δ μ} {other : Machine δ ν}
    (first : machine.Agrees middle) (second : middle.Agrees other) : machine.Agrees other :=
  ⟨first.cpu.trans second.cpu, first.bus.trans second.bus⟩

/-- The tick that comes next is to start something, and the monitor wants a halt before it. -/
def refuses [Monitor μ] (machine : Machine δ μ) : Bool :=
  machine.cpu.remaining == 0 &&
    (Monitor.ask machine.board.monitor (.nextInstruction machine.cpu.regs.pc)).halt

theorem silent_passes (machine : Machine δ Silent) : machine.refuses = false := by
  unfold refuses
  exact Bool.and_false _

end Machine

/-! ### Ticks -/

variable [Device δ] [Monitor μ] [Monitor ν]

namespace Cpu

variable {cpu : Cpu} {board : Board δ μ} {other : Board δ ν}

theorem tick_eq_start (idle : cpu.remaining = 0)
    (passes : (board.ask (.nextInstruction cpu.regs.pc)).1 = false) :
    cpu.tick board =
      let asked := (board.ask (.nextInstruction cpu.regs.pc)).2
      let started := (Exec.start (asked.bus.nmi && !cpu.lastNmi)).run ⟨cpu.regs, asked⟩
      let reported := started.2.board.reportStatus started.2.regs
      ((reported.askAfter started.1.1).1, ⟨started.2.regs, started.1.2, asked.bus.nmi⟩,
        (reported.askAfter started.1.1).2) := by
  have asked : board.ask (.nextInstruction cpu.regs.pc) =
      (false, (board.ask (.nextInstruction cpu.regs.pc)).2) := Prod.ext passes rfl
  unfold tick
  rw [if_neg (not_not.2 idle), asked]
  rfl

theorem tick_agrees (agrees : board.bus.Agrees other.bus)
    (passes : cpu.remaining = 0 → (board.ask (.nextInstruction cpu.regs.pc)).1 = false)
    (passes' : cpu.remaining = 0 → (other.ask (.nextInstruction cpu.regs.pc)).1 = false) :
    (cpu.tick board).2.1 = (cpu.tick other).2.1 ∧
      (cpu.tick board).2.2.bus.Agrees (cpu.tick other).2.2.bus := by
  by_cases idle : cpu.remaining = 0
  · rw [tick_eq_start idle (passes idle), tick_eq_start idle (passes' idle)]
    simp only [Board.askAfter_bus, Board.reportStatus_bus, Board.ask_bus, agrees.nmi]
    obtain ⟨answer, regs, bus⟩ := Exec.agrees_start (other.bus.nmi && !cpu.lastNmi)
      ⟨cpu.regs, (board.ask (.nextInstruction cpu.regs.pc)).2⟩
      ⟨cpu.regs, (other.ask (.nextInstruction cpu.regs.pc)).2⟩ ⟨rfl, agrees⟩
    rw [answer, regs]
    exact ⟨rfl, bus⟩
  · unfold tick
    rw [if_pos idle, if_pos idle]
    exact ⟨rfl, agrees⟩

end Cpu

namespace Machine

variable {machine : Machine δ μ} {other : Machine δ ν}

theorem tick_agrees (agrees : machine.Agrees other) (passes : machine.refuses = false)
    (passes' : other.refuses = false) : machine.tick.2.Agrees other.tick.2 := by
  simp only [refuses, Bool.and_eq_false_imp, beq_iff_eq] at passes passes'
  rw [← agrees.cpu] at passes'
  have buses : (machine.mapBus Bus.tick).board.bus.Agrees (other.mapBus Bus.tick).board.bus :=
    agrees.bus.tick
  obtain ⟨cpu, bus⟩ := Cpu.tick_agrees buses passes passes'
  rw [tick_snd, tick_snd, ← agrees.cpu]
  exact ⟨cpu, bus⟩

/-- A refused tick asks the monitor, ticks the devices, and does nothing else. -/
theorem tick_of_refuses (refused : machine.refuses = true) : machine.tick.2 =
    ⟨machine.cpu,
      ((machine.mapBus Bus.tick).board.ask (.nextInstruction machine.cpu.regs.pc)).2⟩ := by
  simp only [refuses, Bool.and_eq_true, beq_iff_eq] at refused
  obtain ⟨idle, halts⟩ := refused
  have asked : (machine.mapBus Bus.tick).board.ask (.nextInstruction machine.cpu.regs.pc) =
      (true, ((machine.mapBus Bus.tick).board.ask (.nextInstruction machine.cpu.regs.pc)).2) :=
    Prod.ext halts rfl
  rw [tick_snd]
  unfold Cpu.tick
  rw [if_neg (not_not.2 idle), asked]

end Machine

/-! ### Runs -/

/-- What is done to a machine while it runs. -/
inductive Stimulus where
  | tick
  /-- The monitor's own tick. -/
  | clock
  | line (action : LineAction)
  deriving DecidableEq, Repr

namespace Machine

/-- The machine after a stimulus, whatever a tick answers. -/
def after (machine : Machine δ μ) : Stimulus → Machine δ μ
  | .tick => machine.tick.2
  | .clock => { machine with board := machine.board.tickMonitor }
  | .line action => machine.mapBus action.apply

def drive (machine : Machine δ μ) (stimuli : List Stimulus) : Machine δ μ :=
  stimuli.foldl after machine

/-- The stimuli without the ticks that are refused. -/
def accepted (machine : Machine δ μ) : List Stimulus → List Stimulus
  | [] => []
  | stimulus :: rest =>
    if stimulus = .tick ∧ machine.refuses then (machine.after stimulus).accepted rest
    else stimulus :: (machine.after stimulus).accepted rest

variable {machine : Machine δ μ} {other : Machine δ ν}

theorem after_agrees (agrees : machine.Agrees other) {stimulus : Stimulus}
    (passes : stimulus = .tick → machine.refuses = false ∧ other.refuses = false) :
    (machine.after stimulus).Agrees (other.after stimulus) := by
  obtain ⟨cpu, devices, irqLine, nmiLine, resetLine⟩ := agrees
  cases stimulus with
  | tick =>
    exact tick_agrees ⟨cpu, devices, irqLine, nmiLine, resetLine⟩ (passes rfl).1 (passes rfl).2
  | clock => exact ⟨cpu, devices, irqLine, nmiLine, resetLine⟩
  | line action =>
    refine ⟨cpu, ?_⟩
    cases action with
    | irq | irqOff => exact ⟨devices, rfl, nmiLine, resetLine⟩
    | nmi | nmiOff => exact ⟨devices, irqLine, rfl, resetLine⟩
    | reset | resetOff => exact ⟨devices, irqLine, nmiLine, rfl⟩

end Machine

/-! ### Refused ticks -/

theorem Bus.tick_peripherals (bus : Bus Peripheral) : bus.tick.Agrees bus :=
  ⟨List.map_id bus.devices, rfl, rfl, rfl⟩

namespace Machine

theorem agrees_of_refuses {machine : Machine Peripheral μ} (refused : machine.refuses = true) :
    machine.tick.2.Agrees machine := by
  rw [tick_of_refuses refused]
  exact ⟨rfl, machine.board.bus.tick_peripherals⟩

/-- Without its refused ticks, a watched machine is driven to where nobody watches it. -/
theorem drive_agrees {watched : Machine Peripheral μ} {plain : Machine Peripheral Silent}
    (agrees : watched.Agrees plain) (stimuli : List Stimulus) :
    (watched.drive stimuli).Agrees (plain.drive (watched.accepted stimuli)) := by
  -- A refused tick moves the watched machine alone, any other stimulus both of them.
  induction stimuli generalizing watched plain with
  | nil => exact agrees
  | cons stimulus rest inductionHypothesis =>
    rw [accepted]
    by_cases refused : stimulus = .tick ∧ watched.refuses = true
    · rw [if_pos refused]
      obtain ⟨rfl, refused⟩ := refused
      exact inductionHypothesis ((agrees_of_refuses refused).trans agrees)
    · rw [if_neg refused]
      refine inductionHypothesis (after_agrees agrees fun tick => ⟨?_, plain.silent_passes⟩)
      simpa [tick] using refused

end Machine

theorem Console.visit_armed {console : Console} {pc : UInt16}
    (fires : (console.visit pc).halt = true) : (console.visit pc).monitor.armed = some pc := by
  unfold visit at fires ⊢
  dsimp only at fires ⊢
  split
  · rfl
  next rests => rw [if_neg rests] at fires; contradiction

theorem Console.visit_passes {console : Console} {pc : UInt16} (armed : console.armed = some pc) :
    (console.visit pc).halt = false := by
  simp [visit, armed]

namespace Machine

/-- The console has fired at the breakpoint on which the program counter rests. -/
def Visited (machine : Machine δ (Trace ⊕ Console)) : Prop :=
  ∃ console : Console, machine.board.monitor = .inr console ∧
    console.armed = some machine.cpu.regs.pc

variable {machine : Machine δ (Trace ⊕ Console)}

/-- Only a console refuses a tick, and only at a breakpoint, which it marks. -/
theorem visited_of_refuses (refused : machine.refuses = true) : machine.tick.2.Visited := by
  rw [tick_of_refuses refused]
  simp only [refuses, Bool.and_eq_true] at refused
  obtain ⟨-, halts⟩ := refused
  obtain ⟨cpu, bus, monitor, terminal⟩ := machine
  cases monitor with
  | inl trace => exact absurd halts Bool.false_ne_true
  | inr console => exact ⟨(console.visit cpu.regs.pc).monitor, rfl, Console.visit_armed halts⟩

theorem Visited.passes {δ : Type} {machine : Machine δ (Trace ⊕ Console)}
    (visited : machine.Visited) : machine.refuses = false := by
  obtain ⟨console, watching, armed⟩ := visited
  rw [refuses, watching]
  exact Bool.and_eq_false_imp.2 fun _ => Console.visit_passes armed

theorem Visited.after (visited : machine.Visited) {stimulus : Stimulus} (noTick : stimulus ≠ .tick) :
    (machine.after stimulus).Visited := by
  obtain ⟨cpu, bus, monitor, terminal⟩ := machine
  obtain ⟨console, rfl, armed⟩ := visited
  cases stimulus with
  | tick => contradiction
  | clock => exact ⟨{ console with ticks := console.ticks + 1 }, rfl, armed⟩
  | line action => exact ⟨console, rfl, armed⟩

theorem Visited.drive (visited : machine.Visited) {pauses : List Stimulus} (noTick : .tick ∉ pauses) :
    (machine.drive pauses).Visited := by
  induction pauses generalizing machine with
  | nil => exact visited
  | cons stimulus rest inductionHypothesis =>
    simp only [List.mem_cons, not_or] at noTick
    exact inductionHypothesis (visited.after fun same => noTick.1 same.symm) noTick.2

/-- A machine under a monitor, whatever that is set to halt on, goes through the same states as one that
nobody watches, which is given the same stimuli without the refused ticks: the same registers, the same
remaining cycles and NMI latch, the same contents, input and output of its devices. A refused tick
changes none of them, and the next tick is not refused. -/
theorem debugging_transparent {watched : Machine Peripheral (Trace ⊕ Console)}
    {plain : Machine Peripheral Silent} (agrees : watched.Agrees plain) (stimuli : List Stimulus) :
    (watched.drive stimuli).Agrees (plain.drive (watched.accepted stimuli)) ∧
      ((watched.drive stimuli).refuses = true →
        ((watched.drive stimuli).after .tick).Agrees (watched.drive stimuli) ∧
        ∀ pauses : List Stimulus, .tick ∉ pauses →
          (((watched.drive stimuli).after .tick).drive pauses).refuses = false) := by
  refine ⟨drive_agrees agrees stimuli, fun refused => ⟨agrees_of_refuses refused, ?_⟩⟩
  intro pauses noTick
  exact ((visited_of_refuses refused).drive noTick).passes

/-- The console halts at the first instruction, an NMI arrives meanwhile, and it is not lost. -/
theorem debugging_transparent_nmi :
    ∃ (watched : Machine Peripheral (Trace ⊕ Console)) (plain : Machine Peripheral Silent),
      watched.Agrees plain ∧ watched.refuses = true ∧
      watched.accepted [.tick, .line .nmi, .clock, .tick] = [.line .nmi, .clock, .tick] ∧
      (watched.drive [.tick, .line .nmi, .clock, .tick]).cpu.remaining = 6 ∧
      (watched.drive [.tick, .line .nmi, .clock, .tick]).Agrees
        (plain.drive [.line .nmi, .clock, .tick]) := by
  let watched : Machine Peripheral (Trace ⊕ Console) :=
    { board := { bus := { devices := [.serial { tx := 0x10, rx := 0x11 }] },
                 monitor := .inr { breakpoints := [0x0000] } } }
  let plain : Machine Peripheral Silent :=
    { board := { bus := { devices := [.serial { tx := 0x10, rx := 0x11 }] }, monitor := .silent } }
  have agrees : watched.Agrees plain := ⟨rfl, rfl, rfl, rfl, rfl⟩
  have accepts : watched.accepted [.tick, .line .nmi, .clock, .tick] =
      [.line .nmi, .clock, .tick] := by rfl
  obtain ⟨same, -⟩ := debugging_transparent agrees [.tick, .line .nmi, .clock, .tick]
  rw [accepts] at same
  exact ⟨watched, plain, agrees, by rfl, accepts, by rfl, same⟩

end Machine
end Micro65
