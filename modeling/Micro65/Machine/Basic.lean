import Micro65.Cpu.Clock
import Micro65.Machine.Schedule

set_option autoImplicit false

/-!
Machines: a processor on a board, clocked together.
-/

namespace Micro65

structure Machine (δ μ : Type) where
  cpu : Cpu := {}
  board : Board δ μ

namespace Machine

variable {δ μ : Type} [Device δ] [Monitor μ]

def mapBus (change : Bus δ → Bus δ) (machine : Machine δ μ) : Machine δ μ :=
  let { cpu, board := { bus, monitor, terminal } } := machine
  { cpu, board := { bus := change bus, monitor, terminal } }

/-- The monitor is told all registers and lines. -/
def reportStatus (machine : Machine δ μ) : Machine δ μ :=
  { machine with board := machine.board.reportStatus machine.cpu.regs }

/-- Powers the devices and then the processor. The answer says that the monitor asks for a halt. -/
def powerup (machine : Machine δ μ) : Bool × Machine δ μ :=
  let { cpu, board } := machine.mapBus Bus.powerup
  let (cpu, board) := cpu.powerup board
  let (halt, board) := (board.reportStatus cpu.regs).ask .started
  (halt, { cpu, board })

/-- One tick, of the devices first and then of the processor. -/
def tick (machine : Machine δ μ) : Bool × Machine δ μ :=
  let { cpu, board } := machine.mapBus Bus.tick
  let (halt, cpu, board) := cpu.tick board
  (halt || board.bus.haltRequested, { cpu, board })

/-- Several ticks, whatever they answer. -/
def tickTimes : Nat → Machine δ μ → List Bool × Machine δ μ
  | 0, machine => ([], machine)
  | count + 1, machine =>
    let (halt, machine) := machine.tick
    let (halts, machine) := tickTimes count machine
    (halt :: halts, machine)

/-- Ticks once, and then until the processor is no longer busy. -/
def tickThrough (machine : Machine δ μ) : List Bool × Machine δ μ :=
  let (halt, machine) := machine.tick
  let (halts, machine) := tickTimes machine.cpu.remaining machine
  (halt :: halts, machine)

/-- Where a run has come to. -/
structure Run (δ μ : Type) where
  /-- Ticks from the start of the run. -/
  time : Nat
  halted : Bool
  machine : Machine δ μ

/-- One tick of a run, with what is scheduled before it and the monitor's own tick after it. -/
def runTick (schedule : Schedule) (time : Nat) (machine : Machine δ μ) : Bool × Machine δ μ :=
  let machine := match schedule.get? time with
    | some action => machine.mapBus action.apply
    | none => machine
  let (halt, { cpu, board }) := machine.tick
  (halt, { cpu, board := board.tickMonitor })

/-- At most `count` ticks from `time` on. The tick that halts is the last one. -/
def runFrom (schedule : Schedule) (time : Nat) : Nat → Machine δ μ → Run δ μ
  | 0, machine => ⟨time, false, machine⟩
  | count + 1, machine =>
    match machine.runTick schedule time with
    | (true, machine) => ⟨time + 1, true, machine⟩
    | (false, machine) => runFrom schedule (time + 1) count machine

/-- Ticks are counted in 64 bits. -/
def tickLimit : Nat := 0xFFFFFFFFFFFFFFFF

def run (limit : Option Nat) (schedule : Schedule) (machine : Machine δ μ) : Run δ μ :=
  runFrom schedule 0 (limit.getD tickLimit) machine

end Machine
end Micro65
