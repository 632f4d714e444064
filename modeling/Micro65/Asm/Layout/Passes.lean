import Micro65.Asm.Addressing
import Micro65.Asm.Instruction
import Micro65.Asm.Layout.Sweep

set_option autoImplicit false

/-!
One pass over a program. A walk goes down the instructions with the interval of addresses that the
next one can have, and stamps it on each instruction and on its label.
-/

namespace Micro65

structure Walk where
  labels : Labels
  /-- Where the next instruction can be. -/
  cursor : Interval
  /-- Something is not as it was before the pass. -/
  changed : Bool

namespace Walk

def start (labels : Labels) : Walk := ⟨labels, .point 0, false⟩

def advance (walk : Walk) (size : Interval) : Walk := { walk with cursor := walk.cursor + size }

def mark (walk : Walk) (changed : Bool) : Walk := { walk with changed := walk.changed || changed }

/-- Stamps the cursor on an instruction and on its label. -/
def place (walk : Walk) (inst : Instruction) : Walk × Instruction :=
  let moved := inst.addressRange != walk.cursor
  let placed := { inst with addressRange := walk.cursor }
  match inst.label with
  | none => (walk.mark moved, placed)
  | some name =>
    let walk := walk.mark (moved || walk.labels.differs name walk.cursor)
    ({ walk with labels := walk.labels.set name walk.cursor }, placed)

/-- A `BASE` line moves the cursor; its own label is not stamped. -/
def base (walk : Walk) (inst : Instruction) : Walk × Instruction × Option Diagnostic :=
  let target := locate inst.position do
    match inst.operand with
    | some operand => operand.range walk.labels
    | none => throw .missingBaseOperand
  match target with
  | .error failure => (walk, inst, some failure)
  | .ok range =>
    let walk := walk.mark (inst.addressRange != range)
    ({ walk with cursor := range }, { inst with addressRange := range }, none)

end Walk

/-- Bytes needed for a value. -/
def dataWidth (value : Int) : Int := if value < 0x100 then 1 else 2

/-- The sizes that a `DATA` line can have, by the values that its operand can take. -/
def Instruction.dataSize (labels : Labels) (inst : Instruction) : Except AsmError Interval :=
  match inst.operand with
  | none => .error .unresolvedValue
  | some operand => do
    let value ← operand.range labels
    if value.within 0x0000 0xFFFF then return ⟨dataWidth value.lo, dataWidth value.hi⟩
    else throw (.dataOutOfRange value.lo value.hi)

/-- Places an instruction by the sizes that it can have. -/
def addressStep (walk : Walk) (inst : Instruction) : Walk × Instruction × Option Diagnostic :=
  match inst.kind with
  | .base => walk.base inst
  | _ =>
    let (walk, inst) := walk.place inst
    (walk.advance inst.sizeRange, inst, none)

/-- Places an instruction by its exact size. The size of a `DATA` line follows from its value and is
exact once the value is. -/
def sizeStep (walk : Walk) (inst : Instruction) : Walk × Instruction × Option Diagnostic :=
  match inst.kind with
  | .base => walk.base inst
  | .data =>
    let (walk, inst) := walk.place inst
    match locate inst.position (inst.dataSize walk.labels) with
    | .error failure => (walk, inst, some failure)
    | .ok sizeRange =>
      let size := if sizeRange.isPoint then sizeRange.lo.toNat else inst.size
      let walk := walk.mark (inst.sizeRange != sizeRange)
      (walk.advance sizeRange, { inst with sizeRange, size }, none)
  | _ =>
    let (walk, inst) := walk.place inst
    (walk.advance (.point inst.size), inst, none)

/-- A pass: a step swept over a program, the cursor starting at zero. -/
abbrev Step := Walk → Instruction → Walk × Instruction × Option Diagnostic

def Step.pass (step : Step) (labels : Labels) (program : List Instruction) :
    Swept Walk Instruction Diagnostic :=
  sweep step (.start labels) program

end Micro65
