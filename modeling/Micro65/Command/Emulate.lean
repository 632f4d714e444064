import Micro65.Command.Host
import Micro65.Command.Options
import Micro65.Machine.Basic
import Micro65.Machine.Setup
import Micro65.Text.Escape

set_option autoImplicit false

/-!
The command that runs an image on a machine.
-/

namespace Micro65.Command

open Text

structure EmulateOptions where
  config : Option String := none
  /-- Most ticks that the machine runs. -/
  limit : Option Nat := none
  /-- The machine halts at a `BRK` instruction. -/
  brk : Bool := false
  schedule : Option String := none
  image : String := "main.bin"
  deriving DecidableEq, Repr

namespace EmulateOptions

def grammar : Grammar where
  options :=
    [⟨'c', "config", .valued .text⟩, ⟨'t', "tmax", .valued .number⟩, ⟨'b', "brk", .flag⟩,
      ⟨'i', "intr", .valued .text⟩] ++ standardOptions
  most := some 1
  required := false

def read (arguments : List String) : Except Usage EmulateOptions := do
  let arguments ← grammar.read arguments
  return {
    config := arguments.value? "config"
    limit := (arguments.value? "tmax").bind number?
    brk := arguments.has "brk"
    schedule := arguments.value? "intr"
    image := arguments.positional.headD "main.bin" }

end EmulateOptions

variable {m : Type → Type} [Monad m] [Host m]

abbrev Emulating (m : Type → Type) := ExceptT SetupError m

namespace Emulating

def printLine (line : String) : Emulating m Unit := liftM (Host.printLine line : m Unit)

/-- Reads a document from a file. -/
def readDocument {α : Type} (read? : String → Option α) (path : String) : Emulating m α := do
  match ← liftM (Host.readFile path : m _) with
  | none => throw (.configOpen path)
  | some content =>
    match (String.fromUTF8? content).bind read? with
    | some value => return value
    | none => throw (.configParse path)

def readConfig (options : EmulateOptions) : Emulating m MachineConfig := do
  let config ← match options.config with
    | some path => do
      printLine (" * Config " ++ inQuotes path)
      readDocument MachineConfig.read? path
    | none => pure {}
  return { config with monitor.flags.brk := config.monitor.flags.brk || options.brk }

def readSchedule (options : EmulateOptions) : Emulating m Schedule := do
  match options.schedule with
  | some path =>
    let schedule ← readDocument Schedule.read? path
    printLine (s!" * Intr[{schedule.size}] " ++ inQuotes path)
    return schedule
  | none => return {}

/-- Sets the machine up and tells about its parts. -/
def setup (options : EmulateOptions) : Emulating m (Machine Peripheral Console × Schedule) := do
  let config ← readConfig options
  let image ← openImage Host.readFile options.image
  let bus ← config.build Host.readFile (some image)
  bus.devices.forM fun device => printLine (" * " ++ Device.name device)
  let schedule ← readSchedule options
  return ({ board := { bus, monitor := config.monitor.console } }, schedule)

end Emulating

/-- Shows what a machine has written to its terminal, and clears the terminal. -/
def showTerminal (machine : Machine Peripheral Console) : m (Machine Peripheral Console) := do
  let { cpu, board := { bus, monitor, terminal } } := machine
  Host.print terminal
  return { cpu, board := { bus, monitor } }

/-- Ticks between two looks at the terminal. -/
def slice : Nat := 10000

/-- Runs a machine for at most `limit` ticks and shows its output as it comes. -/
def runShown (schedule : Schedule) (time limit : Nat) (machine : Machine Peripheral Console) :
    m (Machine.Run Peripheral Console) := do
  let run := machine.runFrom schedule time (min slice limit)
  let machine ← showTerminal run.machine
  if run.halted then return { run with machine }
  else if slice < limit then runShown schedule run.time (limit - slice) machine
  else return { run with machine }
termination_by limit
decreasing_by unfold slice at *; omega

def rule : String := "+-----------------------------------------------+"

/-- Powers the machine up and runs it unless it is to halt at once. -/
def runMachine (options : EmulateOptions) (schedule : Schedule)
    (machine : Machine Peripheral Console) : m (Machine.Run Peripheral Console) := do
  match machine.powerup with
  | (true, machine) => return ⟨0, true, ← showTerminal machine⟩
  | (false, machine) => runShown schedule 0 (options.limit.getD Machine.tickLimit) machine

/-- Runs an image and answers the exit code. A failure is reported on the terminal, except that an
image whose end is no address at all is an abort. -/
def emulate (options : EmulateOptions) : m UInt32 := do
  Host.printLine "r65emu: 65C02 emulator"
  Host.printLine rule
  Host.printLine ("| " ++ padRight 45 options.image ++ " |")
  Host.printLine rule
  Host.printLine "[INIT]"
  match ← (Emulating.setup options).run with
  | .error (.image .endOverflow) => return 101
  | .error error =>
    Host.printLine (errorWord ++ ": " ++ error.message)
    return 1
  | .ok (machine, schedule) =>
    Host.printLine "[RUN]"
    let run ← runMachine options schedule machine
    Host.printLine ""
    Host.printLine s!"[HALT] {run.time} ticks"
    Host.print run.machine.board.monitor.registerBox
    Host.printLine (String.ofList (List.replicate 49 '='))
    return 0

end Micro65.Command
