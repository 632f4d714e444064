import Micro65.Asm.Range
import Micro65.Isa.Mode

set_option autoImplicit false

/-!
The addressing mode of an operand. Values and addresses are told apart by their intervals; forms with
a register or an indirection by the shape of the expression.
-/

namespace Micro65

/-- What an operand denotes. -/
inductive OperandClass where
  | register (which : Register)
  | value
  | address
  /-- To be decided by shape. -/
  | compound
  deriving DecidableEq, Repr

/-- The class of an operand and the values it can take. A label that is not in the table can be
anywhere in the address space; what is no value and no address has the whole space as its interval. -/
def Expr.classify (labels : Labels) : Expr → OperandClass × Interval
  | literal value => (.value, .point value.toNat)
  | label name => (.address, (labels.get? name).getD .unknown)
  | register which => (.register which, .unknown)
  | address inner =>
    match inner.classify labels with
    | (.value, range) | (.address, range) => (.address, range)
    | _ => compound
  | add left right =>
    match left.classify labels, right.classify labels with
    | (.value, left), (.value, right) => (.value, left + right)
    | (.address, left), (.value, right) => (.address, left + right)
    | (.value, left), (.address, right) => (.address, left + right)
    | _, _ => compound
  | sub left right =>
    match left.classify labels, right.classify labels with
    | (.value, left), (.value, right) => (.value, left - right)
    | (.address, left), (.value, right) => (.address, left - right)
    | (.address, left), (.address, right) => (.value, (left - right).clampNegative)
    | _, _ => compound
  | mul left right =>
    match left.classify labels, right.classify labels with
    | (.value, left), (.value, right) => (.value, left * right)
    | _, _ => compound
  | half side inner =>
    match inner.classify labels with
    | (.value, range) | (.address, range) => (.value, side.range range)
    | _ => compound
  | indirect _ => compound
where
  compound : OperandClass × Interval := (.compound, .unknown)

/-- The mode of a cell pointed to by an operand of the given mode. -/
def Mode.indirect? : Mode → Option Mode
  | .zpg => some .ind
  | .zpgX => some .indX
  | _ => none

namespace Expr

/-- Mode and encoded operand of a value. -/
def valueMode (expr : Expr) (range : Interval) : Except AsmError (Mode × Option Expr) :=
  if range.within 0x00 0xFF then .ok (.imm, some expr)
  else .error (.valueOutOfRange range.lo range.hi)

/-- Mode and encoded operand of an address, whose page must be known to be zero or not. -/
def addressMode (expr : Expr) (range : Interval) : Except AsmError (Mode × Option Expr) :=
  if !range.within 0x0000 0xFFFF then .error (.valueOutOfRange range.lo range.hi)
  else if range.lo < 0x100 ∧ 0x100 ≤ range.hi then .error (.ambiguousPageZero range.lo range.hi)
  else .ok (if range.hi < 0x100 then .zpg else .abs, some expr)

def registerMode : Register → Mode
  | .a => .acc
  | .x => .regX
  | .y => .regY

/-- The one of two operands that is indexed by the other, on whichever side it stands, with the resulting
mode. -/
def indexedMode (left right : Mode × Option Expr) : Except AsmError (Mode × Expr) :=
  match left.1, right.1 with
  | .zpg, .regX => encoded .zpgX left.2
  | .zpg, .regY => encoded .zpgY left.2
  | .abs, .regX => encoded .absX left.2
  | .abs, .regY => encoded .absY left.2
  | .ind, .regY => encoded .indY left.2
  | .regX, .zpg => encoded .zpgX right.2
  | .regX, .abs => encoded .absX right.2
  | .regY, .zpg => encoded .zpgY right.2
  | .regY, .abs => encoded .absY right.2
  | .regY, .ind => encoded .indY right.2
  | _, _ => .error .unsupportedAddressingMode
where
  encoded (mode : Mode) : Option Expr → Except AsmError (Mode × Expr)
    | some operand => .ok (mode, operand)
    | none => .error .unsupportedAddressingMode

def indirectMode (inner : Mode × Option Expr) : Except AsmError (Mode × Expr) :=
  match inner.1.indirect?, inner.2 with
  | some mode, some operand => .ok (mode, operand)
  | _, _ => .error .unsupportedIndirection

-- A number as the measure lets a proof compute the mode of a given operand.
mutual

/-- The mode of an operand, with the expression whose value follows the opcode. A register alone has
no such expression. -/
def mode (labels : Labels) (expr : Expr) : Except AsmError (Mode × Option Expr) :=
  match expr.classify labels with
  | (.value, range) => expr.valueMode range
  | (.address, range) => expr.addressMode range
  | (.register which, _) => .ok (registerMode which, none)
  | (.compound, _) => do
    let (mode, operand) ← expr.compoundMode labels
    return (mode, some operand)
termination_by 2 * sizeOf expr + 1

/-- The mode of an indexed or indirect form, decided by shape. -/
def compoundMode (labels : Labels) (expr : Expr) : Except AsmError (Mode × Expr) :=
  match expr with
  | add left right => do indexedMode (← left.mode labels) (← right.mode labels)
  | indirect inner => do indirectMode (← inner.mode labels)
  | _ => .error .unsupportedExpression
termination_by 2 * sizeOf expr

end

end Expr
end Micro65
