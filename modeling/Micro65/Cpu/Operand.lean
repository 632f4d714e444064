import Micro65.Cpu.Core
import Micro65.Isa.Mode

set_option autoImplicit false

/-!
Operands of instructions: where they are, and what finding them costs. Each mode takes its own bytes
at the program counter.
-/

namespace Micro65

/-- An address, with the cycles that reaching it costs. -/
structure Effective where
  address : UInt16
  extra : Nat
  deriving DecidableEq, Repr

/-- Where an operand is. -/
inductive Place where
  | a | x | y
  | memory (address : UInt16)
  deriving DecidableEq, Repr

/-- An index costs one cycle where it leads to another page. -/
def Effective.indexed (base : UInt16) (index : UInt8) : Effective :=
  let address := base + index.toUInt16
  ⟨address, if crosses base address then 1 else 0⟩

namespace Exec

variable {δ μ : Type} [Device δ] [Monitor μ]

/-- The pointer stored in page zero, which it does not leave. -/
def zeroPagePointer (cell : UInt8) : Exec δ μ UInt16 := do
  let low ← read cell.toUInt16
  let high ← read (cell + 1).toUInt16
  return wordOf low high

def plain (address : UInt16) : Exec δ μ (Option Effective) := return some ⟨address, 0⟩

/-- The effective address of a mode, `none` for a register. -/
def effective (mode : Mode) : Exec δ μ (Option Effective) :=
  match mode with
  | .imm => do
    let address := (← regs).pc
    update fun regs => { regs with pc := regs.pc + 1 }
    plain address
  | .abs => do plain (← fetchWord)
  | .absX => do
    let base ← fetchWord
    return some (.indexed base (← regs).x)
  | .absY => do
    let base ← fetchWord
    return some (.indexed base (← regs).y)
  | .zpg => do plain (← fetch).toUInt16
  | .zpgX => do
    let base ← fetch
    plain (base + (← regs).x).toUInt16
  | .zpgY => do
    let base ← fetch
    plain (base + (← regs).y).toUInt16
  | .ind => do plain (← zeroPagePointer (← fetch))
  | .indX => do
    let cell ← fetch
    plain (← zeroPagePointer (cell + (← regs).x))
  | .indY => do
    let base ← zeroPagePointer (← fetch)
    return some (.indexed base (← regs).y)
  | .acc | .regX | .regY => return none

/-- The operand of an instruction. Without a mode it is the accumulator. -/
def operand (mode : Option Mode) : Exec δ μ (Place × Nat) :=
  match mode with
  | none => return (.a, 0)
  | some mode => do
    match ← effective mode, mode with
    | some found, _ => return (.memory found.address, found.extra)
    | none, .regX => return (.x, 0)
    | none, .regY => return (.y, 0)
    | none, _ => return (.a, 0)

def load (place : Place) : Exec δ μ UInt8 :=
  match place with
  | .a => return (← regs).a
  | .x => return (← regs).x
  | .y => return (← regs).y
  | .memory address => read address

def store (place : Place) (value : UInt8) : Exec δ μ Unit :=
  match place with
  | .a => update fun regs => { regs with a := value }
  | .x => update fun regs => { regs with x := value }
  | .y => update fun regs => { regs with y := value }
  | .memory address => write address value

end Exec
end Micro65
