import Micro65.Cpu.Arithmetic
import Micro65.Cpu.Operand
import Micro65.Isa.Cycles

set_option autoImplicit false

/-!
Execution of one instruction.
-/

namespace Micro65.Exec

variable {δ μ : Type} [Device δ] [Monitor μ]

/-- Changes a byte in place; zero and negative follow the result. -/
def change (place : Place) (kind : Change) : Exec δ μ Unit := do
  let value ← load place
  let (result, status) := kind.apply (← regs).p value
  update fun regs => { regs with p := status.follow result }
  store place result

/-- Takes a branch if its condition holds. It costs one cycle, and another where it leads to another
page. -/
def branch (kind : Mnemonic) : Exec δ μ Nat := do
  let offset ← fetch
  let regs ← regs
  if regs.p.branches kind then
    let target := regs.pc + offset.toInt8.toInt16.toUInt16
    update fun regs => { regs with pc := target }
    return 1 + if crosses regs.pc target then 1 else 0
  else return 0

/-- Saves the program counter and the status, and jumps through a vector. -/
def enter (vector : UInt16) : Exec δ μ Unit := do
  pushWord (← regs).pc
  push (← regs).p.byte
  let target ← readWord vector
  update fun regs => { regs with pc := target }

/-- Starts an interrupt sequence, in which further requests are masked. -/
def interrupt (vector : UInt16) : Exec δ μ Unit := do
  enter vector
  update (·.setFlag .irqDisable true)

/-- Runs an instruction on its operand. The answer is what it costs beyond its declared cycles and
those of the operand. -/
def perform (shape : Shape) (place : Place) : Exec δ μ Nat := do
  match shape.kind with
  | .adc =>
    let m ← load place
    let penalty := (← regs).addPenalty
    update (·.add m)
    return penalty
  | .sbc =>
    let m ← load place
    let penalty := (← regs).addPenalty
    update (·.add (~~~m))
    return penalty
  | .and => let m ← load place; update fun regs => regs.setA (regs.a &&& m)
  | .ora => let m ← load place; update fun regs => regs.setA (regs.a ||| m)
  | .eor => let m ← load place; update fun regs => regs.setA (regs.a ^^^ m)
  | .cmp => let m ← load place; update fun regs => { regs with p := regs.p.compare regs.a m }
  | .cpx => let m ← load place; update fun regs => { regs with p := regs.p.compare regs.x m }
  | .cpy => let m ← load place; update fun regs => { regs with p := regs.p.compare regs.y m }
  | .bit =>
    let m ← load place
    update fun regs => { regs with p := regs.p.testBits regs.a m (shape.mode == some .imm) }
  | .asl => change place .shiftLeft
  | .lsr => change place .shiftRight
  | .rol => change place .rotateLeft
  | .ror => change place .rotateRight
  | .inc => change place .increment
  | .dec => change place .decrement
  | .lda => let m ← load place; update (·.setA m)
  | .ldx => let m ← load place; update (·.setX m)
  | .ldy => let m ← load place; update (·.setY m)
  | .sta => store place (← regs).a
  | .stx => store place (← regs).x
  | .sty => store place (← regs).y
  | .jmp =>
    if let .memory address := place then
      update fun regs => { regs with pc := address }
  | .jsr =>
    if let .memory address := place then
      pushWord ((← regs).pc - 1)
      update fun regs => { regs with pc := address }
  | .rts =>
    let target ← pullWord
    update fun regs => { regs with pc := target + 1 }
  | .rti =>
    let status ← pull
    let target ← pullWord
    update fun regs => { regs with p := ⟨status⟩, pc := target }
  | .brk =>
    update fun regs => { regs with pc := regs.pc + 1 }
    enter irqVector
    update fun regs =>
      ((regs.setFlag .irqDisable true).setFlag .brk true).setFlag .decimal false
  | .pha => push (← regs).a
  | .php => push (← regs).p.byte
  | .phx => push (← regs).x
  | .pla => let value ← pull; update (·.setA value)
  | .plx => let value ← pull; update (·.setX value)
  | .ply => let value ← pull; update (·.setY value)
  | .plp => let value ← pull; update fun regs => { regs with p := ⟨value⟩ }
  | .tax => update fun regs => regs.setX regs.a
  | .tay => update fun regs => regs.setY regs.a
  | .txa => update fun regs => regs.setA regs.x
  | .tya => update fun regs => regs.setA regs.y
  | .tsx => update fun regs => regs.setX regs.s
  | .txs => update fun regs => { regs with s := regs.x }
  | .clc => update (·.setFlag .carry false)
  | .cld => update (·.setFlag .decimal false)
  | .cli => update (·.setFlag .irqDisable false)
  | .clv => update (·.setFlag .overflow false)
  | .sec => update (·.setFlag .carry true)
  | .sed => update (·.setFlag .decimal true)
  | .sei => update (·.setFlag .irqDisable true)
  | _ => pure ()
  return 0

/-- Fetches and runs one instruction. The answer is its mnemonic and the ticks it still takes. -/
def step : Exec δ μ (Mnemonic × Nat) := do
  let code ← fetch
  let operation := (Operation.ofCode? code).getD .undefined
  let kind := operation.shape.kind
  if kind.isBranch then return (kind, operation.cycles + (← branch kind))
  else
    let (place, extra) ←
      if kind.isImplied then pure (.a, 0) else operand operation.shape.mode
    let penalty ← perform operation.shape place
    return (kind, operation.cycles + extra + penalty)

end Micro65.Exec
