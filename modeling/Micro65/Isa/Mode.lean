set_option autoImplicit false

/-!
Addressing modes: how the bytes after an opcode name the operand.
-/

namespace Micro65

inductive Mode where
  | imm | abs | absX | absY | zpg | zpgX | zpgY | ind | indX | indY | acc | regX | regY
  deriving DecidableEq, Repr

namespace Mode

def all : List Mode :=
  [imm, abs, absX, absY, zpg, zpgX, zpgY, ind, indX, indY, acc, regX, regY]

theorem mem_all (mode : Mode) : mode ∈ all := by cases mode <;> decide

def name : Mode → String
  | imm => "imm" | abs => "abs" | absX => "absx" | absY => "absy"
  | zpg => "zpg" | zpgX => "zpgx" | zpgY => "zpgy"
  | ind => "ind" | indX => "indx" | indY => "indy"
  | acc => "acc" | regX => "regx" | regY => "regy"

/-- Position in `all`. -/
def number (mode : Mode) : Nat := mode.ctorIdx

/-- Numbers outside the list stand for immediate mode. -/
def ofNumber (number : Nat) : Mode := all.getD number imm

theorem ofNumber_number (mode : Mode) : ofNumber mode.number = mode := by cases mode <;> rfl

/-- Only the exact lower-case name is accepted. -/
def parse (text : String) : Except String Mode :=
  match all.find? (·.name == text) with
  | some mode => .ok mode
  | none => .error "Matching variant not found"

theorem parse_name (mode : Mode) : parse mode.name = .ok mode := by cases mode <;> rfl

/-- Number of operand bytes that follow the opcode. -/
def operandLength : Mode → Nat
  | imm | zpg | zpgX | zpgY | ind | indX | indY => 1
  | abs | absX | absY => 2
  | acc | regX | regY => 0

/-- The operand is a register and not a cell of memory. -/
def isRegister : Mode → Bool
  | acc | regX | regY => true
  | _ => false

theorem operandLength_eq_zero_iff (mode : Mode) :
    mode.operandLength = 0 ↔ mode.isRegister = true := by
  cases mode <;> decide

end Mode
end Micro65
