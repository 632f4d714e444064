set_option autoImplicit false

/-!
Monitors watch a machine. The machine asks them at fixed points whether to halt, and tells them every
register, line and write.
-/

namespace Micro65

/-- Points at which a machine can be halted. -/
inductive Query where
  | started
  | nextInstruction (pc : UInt16)
  | afterInstruction
  | reset
  | nmi
  | irq
  | brk
  | addressChanged (address : UInt16)
  deriving DecidableEq, Repr

/-- What a monitor is told. Registers and flags go by their names. -/
inductive Report where
  | byteRegister (name : String) (value : UInt8)
  | wordRegister (name : String) (value : UInt16)
  | flag (name : String) (on : Bool)
  | write (address : UInt16) (data : UInt8)
  | nmiLine (on : Bool)
  | irqLine (on : Bool)
  | resetLine (on : Bool)
  deriving DecidableEq, Repr

structure Answer (μ : Type) where
  halt : Bool
  monitor : μ
  /-- What the monitor shows on the terminal. -/
  printed : String := ""

class Monitor (μ : Type) where
  ask : μ → Query → Answer μ
  /-- The text is shown on the terminal. -/
  tell : μ → Report → μ × String
  /-- A clock tick has ended. -/
  tick : μ → μ

/-- The monitor that never halts and shows nothing. -/
inductive Silent where
  | silent
  deriving DecidableEq, Repr

instance : Monitor Silent where
  ask monitor _ := { halt := false, monitor }
  tell monitor _ := (monitor, "")
  tick monitor := monitor

/-- A monitor of one kind or another. -/
instance {α β : Type} [Monitor α] [Monitor β] : Monitor (α ⊕ β) where
  ask
    | .inl monitor, query =>
      let { halt, monitor, printed } := Monitor.ask monitor query
      { halt, monitor := .inl monitor, printed }
    | .inr monitor, query =>
      let { halt, monitor, printed } := Monitor.ask monitor query
      { halt, monitor := .inr monitor, printed }
  tell
    | .inl monitor, report =>
      let (monitor, printed) := Monitor.tell monitor report
      (.inl monitor, printed)
    | .inr monitor, report =>
      let (monitor, printed) := Monitor.tell monitor report
      (.inr monitor, printed)
  tick := Sum.map Monitor.tick Monitor.tick

end Micro65
