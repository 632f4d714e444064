import Micro65.Bus.Monitor
import Micro65.Cpu.Registers

set_option autoImplicit false

/-!
Registers and lines as a monitor was last told them, and the conditions on which a monitor halts.
-/

namespace Micro65

structure HaltFlags where
  started : Bool := false
  step : Bool := false
  reset : Bool := false
  nmi : Bool := false
  irq : Bool := false
  brk : Bool := false
  deriving DecidableEq, Repr

structure Snapshot where
  pc : UInt16 := 0
  a : UInt8 := 0
  x : UInt8 := 0
  y : UInt8 := 0
  s : UInt8 := 0
  /-- Flags that were ever told, each once. -/
  flags : List (String × Bool) := []
  nmi : Bool := false
  irq : Bool := false
  reset : Bool := false
  deriving DecidableEq, Repr

namespace Snapshot

/-- A flag that was never told is clear. -/
def flag (snapshot : Snapshot) (name : String) : Bool := (snapshot.flags.lookup name).getD false

def setFlag (name : String) (on : Bool) : List (String × Bool) → List (String × Bool)
  | [] => [(name, on)]
  | entry :: rest => if entry.1 = name then (name, on) :: rest else entry :: setFlag name on rest

/-- Registers of unknown names and writes leave no trace. -/
def record (snapshot : Snapshot) : Report → Snapshot
  | .byteRegister "A" value => { snapshot with a := value }
  | .byteRegister "X" value => { snapshot with x := value }
  | .byteRegister "Y" value => { snapshot with y := value }
  | .byteRegister "S" value => { snapshot with s := value }
  | .byteRegister _ _ => snapshot
  | .wordRegister "PC" value => { snapshot with pc := value }
  | .wordRegister _ _ => snapshot
  | .flag name on => { snapshot with flags := setFlag name on snapshot.flags }
  | .write _ _ => snapshot
  | .nmiLine on => { snapshot with nmi := on }
  | .irqLine on => { snapshot with irq := on }
  | .resetLine on => { snapshot with reset := on }

/-- The registers that were told. -/
def registers (snapshot : Snapshot) : Registers where
  pc := snapshot.pc
  a := snapshot.a
  x := snapshot.x
  y := snapshot.y
  s := snapshot.s
  p := Flag.all.foldl (fun status flag => status.set flag (snapshot.flag flag.name)) {}

end Snapshot
end Micro65
