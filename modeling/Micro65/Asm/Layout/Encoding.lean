import Micro65.Asm.Addressing
import Micro65.Asm.Instruction
import Micro65.Isa.Opcode

set_option autoImplicit false

/-!
What each instruction becomes once labels are settled: its mode, its size, its address and its bytes.
-/

namespace Micro65

/-- Low byte first. -/
def littleEndian (word : UInt16) : List UInt8 := [word.toUInt8, (word >>> 8).toUInt8]

/-- The offset byte of a branch at `address`, counted from the next instruction. -/
def branchOffset (address : UInt16) (target : Int) : Except AsmError UInt8 :=
  let offset := saturate (target - (address.toNat + 2))
  if -128 ≤ offset ∧ offset ≤ 127 then .ok (UInt8.ofInt offset)
  else .error (.branchOffsetOutOfRange offset)

namespace Instruction

/-- Chooses the addressing mode. Directives other than `START` have none. -/
def resolveMode (labels : Labels) (inst : Instruction) : Except AsmError Instruction :=
  match inst.kind, inst.operand with
  | .base, _ | .data, _ | _, none => .ok inst
  | _, some operand => do
    let (mode, param) ← operand.mode labels
    return { inst with mode := some mode, param }

/-- Makes the size exact, except for `DATA`. -/
def resolveSize (inst : Instruction) : Except AsmError Instruction :=
  match inst.kind with
  | .base => .ok { inst with size := 0 }
  | .data => .ok inst
  | kind =>
    match kind.size? inst.mode with
    | some size => .ok { inst with size, sizeRange := .point size }
    | none => .error (.unsupportedModeFor kind inst.mode)

/-- Makes the address exact, except for `BASE`, which has none. -/
def resolveAddress (inst : Instruction) : Except AsmError Instruction :=
  match inst.kind, inst.addressRange.value? with
  | .base, _ => .ok inst
  | _, none => .error .unresolvedAddress
  | _, some address =>
    if 0x0000 ≤ address ∧ address ≤ 0xFFFF then .ok { inst with address := address.toNat.toUInt16 }
    else .error (.valueOutOfRange address address)

/-- The bytes of a value in the place that the instruction has for it. -/
def valueBytes (inst : Instruction) (value : Int) : Except AsmError (List UInt8) :=
  if inst.kind.isBranch then do
    return [← branchOffset inst.address value]
  else if ¬(0x0000 ≤ value ∧ value ≤ 0xFFFF) then .error (.valueOutOfRange value value)
  else
    let word := value.toNat.toUInt16
    if value < 0x100 ∧ (inst.kind = .data ∨ inst.size = 2) then .ok [word.toUInt8]
    else if inst.kind ≠ .data ∧ inst.size = 2 then .error (.singleByteExpected value)
    else .ok (littleEndian word)

/-- The one value of an expression. -/
def pointValue (labels : Labels) (expr : Expr) : Except AsmError Int := do
  match (← expr.range labels).value? with
  | some value => return value
  | none => throw .unresolvedValue

def encode (labels : Labels) (inst : Instruction) : Except AsmError (List UInt8) :=
  match inst.kind with
  | .base => .ok []
  | .data => operandBytes inst.operand
  | kind =>
    match Opcode.encode kind inst.mode with
    | none => .error (.unsupportedModeFor kind inst.mode)
    | some code => do return code :: (← operandBytes inst.param)
where
  operandBytes : Option Expr → Except AsmError (List UInt8)
    | none => .ok []
    | some expr => do inst.valueBytes (← pointValue labels expr)

def emit (labels : Labels) (inst : Instruction) : Except AsmError Instruction := do
  return { inst with bytes := ← inst.encode labels }

end Instruction
end Micro65
