import Micro65.Bus.Board
import Micro65.Cpu.Registers

set_option autoImplicit false

/-!
Actions of the processor on its registers and on the board.
-/

namespace Micro65

structure Core (δ μ : Type) where
  regs : Registers
  board : Board δ μ

abbrev Exec (δ μ : Type) := StateM (Core δ μ)

def nmiVector : UInt16 := 0xFFFA
def resetVector : UInt16 := 0xFFFC
def irqVector : UInt16 := 0xFFFE

/-- The cell that the stack pointer points to. -/
def stackCell (s : UInt8) : UInt16 := 0x0100 ||| s.toUInt16

namespace Exec

variable {δ μ : Type} [Device δ] [Monitor μ]

def regs : Exec δ μ Registers := return (← get).regs

def update (change : Registers → Registers) : Exec δ μ Unit :=
  modify fun { regs, board } => { regs := change regs, board }

def read (address : UInt16) : Exec δ μ UInt8 :=
  modifyGet fun { regs, board } =>
    let (value, board) := board.read address
    (value, { regs, board })

def readWord (address : UInt16) : Exec δ μ UInt16 := do
  let low ← read address
  let high ← read (address + 1)
  return wordOf low high

def write (address : UInt16) (data : UInt8) : Exec δ μ Unit :=
  modify fun { regs, board } => { regs, board := board.write address data }

/-- Reads the byte at the program counter and moves past it. -/
def fetch : Exec δ μ UInt8 := do
  let value ← read (← regs).pc
  update fun regs => { regs with pc := regs.pc + 1 }
  return value

def fetchWord : Exec δ μ UInt16 := do
  let low ← fetch
  let high ← fetch
  return wordOf low high

def push (value : UInt8) : Exec δ μ Unit := do
  write (stackCell (← regs).s) value
  update fun regs => { regs with s := regs.s - 1 }

def pull : Exec δ μ UInt8 := do
  update fun regs => { regs with s := regs.s + 1 }
  read (stackCell (← regs).s)

/-- High byte first, so that the low byte lies at the lower address. -/
def pushWord (value : UInt16) : Exec δ μ Unit := do
  push (value >>> 8).toUInt8
  push value.toUInt8

def pullWord : Exec δ μ UInt16 := do
  let low ← pull
  let high ← pull
  return wordOf low high

end Exec
end Micro65
