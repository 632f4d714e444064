import Micro65.Bus.Basic
import Micro65.Bus.Monitor

set_option autoImplicit false

/-!
A board is a bus under a monitor, with the terminal that both write to.
-/

namespace Micro65

structure Board (δ μ : Type) where
  bus : Bus δ
  monitor : μ
  /-- What has been shown so far. -/
  terminal : String := ""

namespace Board

variable {δ μ : Type} [Device δ] [Monitor μ]

/-- Each byte is shown as the character with its number. -/
def transmittedText (bytes : List UInt8) : String :=
  String.ofList (bytes.map fun byte => Char.ofNat byte.toNat)

def ask (board : Board δ μ) (query : Query) : Bool × Board δ μ :=
  let { bus, monitor, terminal } := board
  let answer := Monitor.ask monitor query
  (answer.halt, { bus, monitor := answer.monitor, terminal := terminal ++ answer.printed })

def tell (board : Board δ μ) (report : Report) : Board δ μ :=
  let { bus, monitor, terminal } := board
  let (monitor, printed) := Monitor.tell monitor report
  { bus, monitor, terminal := terminal ++ printed }

def tellAll (board : Board δ μ) (reports : List Report) : Board δ μ := reports.foldl tell board

def read (board : Board δ μ) (address : UInt16) : UInt8 × Board δ μ :=
  let { bus, monitor, terminal } := board
  let (value, bus) := bus.read address
  (value, { bus, monitor, terminal })

def readWord (board : Board δ μ) (address : UInt16) : UInt16 × Board δ μ :=
  let { bus, monitor, terminal } := board
  let (value, bus) := bus.readWord address
  (value, { bus, monitor, terminal })

/-- The monitor is told before the write, and asked after it. -/
def write (board : Board δ μ) (address : UInt16) (data : UInt8) : Board δ μ :=
  let { bus, monitor, terminal } := board.tell (.write address data)
  let (bus, sent) := bus.write address data
  let board : Board δ μ := { bus, monitor, terminal := terminal ++ transmittedText sent }
  let (halt, { bus, monitor, terminal }) := board.ask (.addressChanged address)
  { bus := { bus with haltRequested := bus.haltRequested || halt }, monitor, terminal }

/-- Writes bytes at consecutive addresses, which wrap at the end of memory. -/
def writeBytes (board : Board δ μ) (address : UInt16) : List UInt8 → Board δ μ
  | [] => board
  | data :: rest => writeBytes (board.write address data) (address + 1) rest

def tickMonitor (board : Board δ μ) : Board δ μ :=
  { board with monitor := Monitor.tick board.monitor }

end Board
end Micro65
