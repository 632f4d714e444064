import Micro65.Monitor.Snapshot
import Micro65.Text.Hex
import Micro65.Text.Style

set_option autoImplicit false

/-!
The monitor for people. It halts at breakpoints and on chosen events, and shows alerts and watched
writes with the tick in which they happen.
-/

namespace Micro65

open Text

structure Console where
  flags : HaltFlags := {}
  breakpoints : List UInt16 := []
  /-- Addresses that halt when they are written. -/
  busBreakpoints : List UInt16 := []
  /-- Addresses whose writes are shown. -/
  watches : List UInt16 := []
  /-- The breakpoint that the program counter rests on, which does not fire again. -/
  armed : Option UInt16 := none
  ticks : UInt64 := 0
  latest : Snapshot := {}
  deriving DecidableEq, Repr

namespace Console

/-- The tick in its column. -/
def stamp (console : Console) : String := "[" ++ padLeft 8 (toString console.ticks) ++ "] "

def alert (console : Console) (what : String) : String :=
  Style.yellow.paint ("! " ++ console.stamp ++ what) ++ "\n"

/-- A breakpoint fires once per visit: again only after the program counter has been elsewhere. -/
def visit (console : Console) (pc : UInt16) : Answer Console :=
  let armed := console.armed.filter (· == pc)
  if armed.isNone && console.breakpoints.contains pc then
    { halt := true, monitor := { console with armed := some pc },
      printed := console.alert ("breakpoint $" ++ hexWord pc) }
  else { halt := false, monitor := { console with armed } }

def ask (console : Console) : Query → Answer Console
  | .started => { halt := console.flags.started, monitor := console }
  | .nextInstruction pc => console.visit pc
  | .afterInstruction => { halt := console.flags.step, monitor := console }
  | .reset => { halt := console.flags.reset, monitor := console, printed := console.alert "reset" }
  | .nmi => { halt := console.flags.nmi, monitor := console, printed := console.alert "nmi" }
  | .irq => { halt := console.flags.irq, monitor := console, printed := console.alert "irq" }
  | .brk => { halt := console.flags.brk, monitor := console, printed := console.alert "brk" }
  | .addressChanged address =>
    { halt := console.busBreakpoints.contains address, monitor := console }

def tell (console : Console) (report : Report) : Console × String :=
  match report with
  | .write address data =>
    if console.watches.contains address then
      (console, Style.cyan.paint ("  " ++ console.stamp ++ "$" ++ hexWord address ++ " <- $" ++
        hexByte data) ++ "\n")
    else (console, "")
  | report => ({ console with latest := console.latest.record report }, "")

instance : Monitor Console where
  ask := ask
  tell := tell
  tick console := { console with ticks := console.ticks + 1 }

/-- A flag that is set stands out. -/
def flagText (console : Console) (name : String) : String :=
  if console.latest.flag name then Style.green.paint name else name.toLower

def levelText (on : Bool) : String := if on then "1" else "0"

/-- The registers in a box. -/
def registerBox (console : Console) : String :=
  let latest := console.latest
  let rule := " +----------+--------+--------+--------+--------+\n"
  let registers := " | pc: " ++ hexWord latest.pc ++ " | a:  " ++ hexByte latest.a ++
    " | x:  " ++ hexByte latest.x ++ " | y:  " ++ hexByte latest.y ++
    " | s:  " ++ hexByte latest.s ++ " |\n"
  let flags := " ".intercalate (["N", "V", "B", "D", "I", "Z", "C"].map console.flagText)
  let lines := "nmi:" ++ levelText latest.nmi ++ " irq:" ++ levelText latest.irq ++
    " rst:" ++ levelText latest.reset
  rule ++ registers ++ " | " ++ flags ++ "            | " ++ lines ++ "  |\n" ++ rule

end Console
end Micro65
