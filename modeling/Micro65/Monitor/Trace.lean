import Micro65.Monitor.Snapshot

set_option autoImplicit false

/-!
The monitor that records everything it is asked, every write and every tick.
-/

namespace Micro65

inductive Event where
  | asked (query : Query)
  | write (address : UInt16) (data : UInt8)
  | tick
  deriving DecidableEq, Repr

structure Trace where
  flags : HaltFlags := {}
  busBreakpoints : List UInt16 := []
  /-- The latest event first. -/
  recorded : List Event := []
  latest : Snapshot := {}
  deriving DecidableEq, Repr

namespace Trace

/-- All events, in order. -/
def events (trace : Trace) : List Event := trace.recorded.reverse

def count (trace : Trace) (event : Event) : Nat := trace.recorded.count event

def push (trace : Trace) (event : Event) : Trace :=
  { trace with recorded := event :: trace.recorded }

def registers (trace : Trace) : Registers := trace.latest.registers

/-- There are no breakpoints on instructions. -/
def halts (trace : Trace) : Query → Bool
  | .started => trace.flags.started
  | .nextInstruction _ => false
  | .afterInstruction => trace.flags.step
  | .reset => trace.flags.reset
  | .nmi => trace.flags.nmi
  | .irq => trace.flags.irq
  | .brk => trace.flags.brk
  | .addressChanged address => trace.busBreakpoints.contains address

def tell (trace : Trace) : Report → Trace
  | .write address data => trace.push (.write address data)
  | report => { trace with latest := trace.latest.record report }

instance : Monitor Trace where
  ask trace query := { halt := trace.halts query, monitor := trace.push (.asked query) }
  tell trace report := (trace.tell report, "")
  tick trace := trace.push .tick

end Trace
end Micro65
