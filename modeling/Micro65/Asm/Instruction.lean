import Micro65.Asm.Error
import Micro65.Asm.Interval

set_option autoImplicit false

/-!
Instructions and directives of a program, with what is known of their place in memory.
-/

namespace Micro65

structure Instruction where
  position : Position
  label : Option String
  /-- The mnemonic as it is written. -/
  spelling : String
  kind : Mnemonic
  operand : Option Expr
  addressRange : Interval := .unknown
  sizeRange : Interval := .point 0
  address : UInt16 := 0
  size : Nat := 0
  mode : Option Mode := none
  /-- The expression whose value follows the opcode. -/
  param : Option Expr := none
  bytes : List UInt8 := []
  deriving DecidableEq, Repr

/-- Label, mnemonic and operand in the colours of a listing. -/
def Instruction.styled (inst : Instruction) : String :=
  let label := match inst.label with
    | some name => Text.Style.yellow.paint ("@" ++ name) ++ ": "
    | none => ""
  let operand := match inst.operand with
    | some expr => Text.Style.blue.paint expr.text
    | none => ""
  label ++ inst.kind.styled ++ " " ++ operand

end Micro65
