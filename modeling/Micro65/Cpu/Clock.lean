import Micro65.Cpu.Execute

set_option autoImplicit false

/-!
The processor's clock. The tick that starts an instruction or an interrupt sequence does all of its
work; the ticks after it only count down.
-/

namespace Micro65

structure Cpu where
  regs : Registers := {}
  /-- Ticks that the sequence under way still takes. -/
  remaining : Nat := 0
  /-- The level of the NMI line at the last instruction boundary. -/
  lastNmi : Bool := false
  deriving DecidableEq, Repr

def Cpu.busy (cpu : Cpu) : Bool := cpu.remaining != 0

/-- What a starting tick can start. -/
inductive Sequence where
  | reset | nmi | irq
  | instruction (kind : Mnemonic)
  deriving DecidableEq, Repr

namespace Exec

variable {δ μ : Type} [Device δ] [Monitor μ]

/-- Starts what is due. A reset goes before a new NMI, and that before an IRQ that is not masked. The
answer has the ticks that it still takes. -/
def start (nmiEdge : Bool) : Exec δ μ (Sequence × Nat) := do
  let { regs, board } ← get
  if board.bus.resetLine then
    update fun regs => { regs with s := 0xFF }
    interrupt resetVector
    update (·.setFlag .decimal false)
    return (.reset, 5)
  else if nmiEdge then
    interrupt nmiVector
    return (.nmi, 6)
  else if board.bus.irq && !regs.p.has .irqDisable then
    interrupt irqVector
    return (.irq, 6)
  else
    let (kind, remaining) ← step
    return (.instruction kind, remaining)

end Exec

/-- Registers and lines, in the order in which a monitor is told. -/
def statusReports {δ : Type} [Device δ] (regs : Registers) (bus : Bus δ) : List Report :=
  [.wordRegister "PC" regs.pc, .byteRegister "Y" regs.y, .byteRegister "X" regs.x,
    .byteRegister "S" regs.s, .byteRegister "A" regs.a] ++
  (regs.p.named.map fun (name, on) => .flag name on) ++
  [.nmiLine bus.nmi, .irqLine bus.irq, .resetLine bus.resetLine]

namespace Board

variable {δ μ : Type} [Device δ] [Monitor μ]

def reportStatus (board : Board δ μ) (regs : Registers) : Board δ μ :=
  board.tellAll (statusReports regs board.bus)

/-- Asks whether to halt after what a tick has started. -/
def askAfter (board : Board δ μ) : Sequence → Bool × Board δ μ
  | .reset => board.ask .reset
  | .nmi => board.ask .nmi
  | .irq => board.ask .irq
  | .instruction .brk =>
    match board.ask .brk with
    | (true, board) => (true, board)
    | (false, board) => board.ask .afterInstruction
  | .instruction _ => board.ask .afterInstruction

end Board

namespace Cpu

variable {δ μ : Type} [Device δ] [Monitor μ]

/-- The state in which a processor comes up. What is not set here is left alone. -/
def powerup (cpu : Cpu) (board : Board δ μ) : Cpu × Board δ μ :=
  let regs := (cpu.regs.setFlag .irqDisable true).setFlag .decimal false
  let (pc, board) := board.readWord resetVector
  ({ regs := { regs with pc, s := 0xFF }, remaining := 0, lastNmi := false }, board)

/-- One tick. The answer says that the monitor asks for a halt. -/
def tick (cpu : Cpu) (board : Board δ μ) : Bool × Cpu × Board δ μ :=
  if cpu.remaining ≠ 0 then (false, { cpu with remaining := cpu.remaining - 1 }, board)
  else
    match board.ask (.nextInstruction cpu.regs.pc) with
    | (true, board) => (true, cpu, board)
    | (false, board) =>
      let nmi := board.bus.nmi
      let ((sequence, remaining), { regs, board }) :=
        (Exec.start (nmi && !cpu.lastNmi)).run { regs := cpu.regs, board }
      let (halt, board) := (board.reportStatus regs).askAfter sequence
      (halt, { regs, remaining, lastNmi := nmi }, board)

end Cpu
end Micro65
