import Micro65.Bus.Basic

set_option autoImplicit false

/-!
Schedules of the interrupt lines: what happens to them before which tick.
-/

namespace Micro65

inductive LineAction where
  | irq | irqOff | nmi | nmiOff | reset | resetOff
  deriving DecidableEq, Repr

namespace LineAction

def all : List LineAction := [irq, irqOff, nmi, nmiOff, reset, resetOff]

def name : LineAction → String
  | irq => "irq"
  | irqOff => "irq_off"
  | nmi => "nmi"
  | nmiOff => "nmi_off"
  | reset => "reset"
  | resetOff => "reset_off"

def ofName? (text : String) : Option LineAction := all.find? (·.name == text)

def apply {δ : Type} (action : LineAction) (bus : Bus δ) : Bus δ :=
  match action with
  | irq => { bus with irqLine := true }
  | irqOff => { bus with irqLine := false }
  | nmi => { bus with nmiLine := true }
  | nmiOff => { bus with nmiLine := false }
  | reset => { bus with resetLine := true }
  | resetOff => { bus with resetLine := false }

end LineAction

/-- Actions by tick, each tick once. -/
structure Schedule where
  entries : List (Nat × LineAction) := []
  deriving DecidableEq, Repr

namespace Schedule

def size (schedule : Schedule) : Nat := schedule.entries.length

def isEmpty (schedule : Schedule) : Bool := schedule.entries.isEmpty

def get? (schedule : Schedule) (time : Nat) : Option LineAction := schedule.entries.lookup time

/-- Of two actions for one tick the later one holds. -/
def insert (schedule : Schedule) (time : Nat) (action : LineAction) : Schedule :=
  ⟨(time, action) :: schedule.entries.filter (·.1 != time)⟩

def ofList (entries : List (Nat × LineAction)) : Schedule :=
  entries.foldl (fun schedule (time, action) => schedule.insert time action) {}

end Schedule
end Micro65
