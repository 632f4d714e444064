import Micro65.Asm.Token
import Micro65.Isa.Mnemonic
import Micro65.Isa.Mode
import Micro65.Text.Style

set_option autoImplicit false

/-!
What can go wrong in assembly. An error is a cause; its wording is given by `AsmError.message`. A
diagnostic is an error with the source line that caused it, where there is one.
-/

namespace Micro65

inductive AsmError where
  | unexpectedChar (char : Char) (column : Nat)
  | badHexLiteral (digits : String)
  | unexpectedEnd
  | unexpectedToken (found : Lexeme)
  | expectedToken (expected : Token) (found : Lexeme)
  | expectedBeforeEnd (expected : Token)
  | undefinedConstant (name : String)
  | redefinedConstant (name : String)
  | unsupportedFunction (name : String)
  | unknownInstruction (spelling : String)
  | missingOperand (spelling : String)
  | unexpectedOperand (spelling : String)
  | danglingLabel (name : String)
  | unknownLabel (name : String)
  | nonStaticValue
  | duplicateLabel (name : String)
  | unresolvedLabel (name : String)
  | ambiguousPageZero (lo hi : Int)
  | unsupportedAddressingMode
  | unsupportedIndirection
  | unsupportedExpression
  | unsupportedModeFor (kind : Mnemonic) (mode : Option Mode)
  | branchOffsetOutOfRange (offset : Int)
  | valueOutOfRange (lo hi : Int)
  | dataOutOfRange (lo hi : Int)
  | missingBaseOperand
  | unresolvedAddress
  | unresolvedValue
  | singleByteExpected (value : Int)
  | missingStart
  | unresolvedStart
  | layoutDiverged (passes : Nat)
  | fileOpen (path : String)
  | fileCreate (path : String)
  | fileWrite (path : String)
  deriving DecidableEq, Repr

namespace AsmError

def quoted (text : String) : String := "`" ++ text ++ "`"

def between (lo hi : Int) : String := s!"[{lo}, {hi}]"

/-- Columns are shown counted from one. -/
def atColumn (lexeme : Lexeme) : String :=
  quoted lexeme.token.text ++ s!" at column {lexeme.column + 1}"

def modeName : Option Mode → String
  | some mode => mode.name
  | none => "implied"

/-- The kind of a failure, by a name that does not depend on its particulars. Everything that is wrong
with the order of the tokens in a line is one kind. -/
def kind : AsmError → String
  | .unexpectedChar .. => "UnexpectedChar"
  | .badHexLiteral .. => "BadHexLiteral"
  | .unexpectedEnd | .unexpectedToken .. | .expectedToken .. | .expectedBeforeEnd .. => "SyntaxError"
  | .undefinedConstant .. => "UndefinedConstant"
  | .redefinedConstant .. => "RedefinedConstant"
  | .unsupportedFunction .. => "UnsupportedFunction"
  | .unknownInstruction .. => "UnknownInstruction"
  | .missingOperand .. => "MissingOperand"
  | .unexpectedOperand .. => "UnexpectedOperand"
  | .danglingLabel .. => "DanglingLabel"
  | .unknownLabel .. => "UnknownLabel"
  | .nonStaticValue => "NonStaticValue"
  | .duplicateLabel .. => "DuplicateLabel"
  | .unresolvedLabel .. => "UnresolvedLabel"
  | .ambiguousPageZero .. => "AmbiguousPageZero"
  | .unsupportedAddressingMode => "UnsupportedAddressingMode"
  | .unsupportedIndirection => "UnsupportedIndirection"
  | .unsupportedExpression => "UnsupportedExpression"
  | .unsupportedModeFor .. => "UnsupportedAddressingModeForInstruction"
  | .branchOffsetOutOfRange .. => "BranchOffsetOutOfRange"
  | .valueOutOfRange .. => "ValueOutOfRange"
  | .dataOutOfRange .. => "DataOutOfRange"
  | .missingBaseOperand => "MissingBaseOperand"
  | .unresolvedAddress => "UnresolvedAddress"
  | .unresolvedValue => "UnresolvedValue"
  | .singleByteExpected .. => "SingleByteExpected"
  | .missingStart => "MissingStartDirective"
  | .unresolvedStart => "UnresolvedStart"
  | .layoutDiverged .. => "LayoutDiverged"
  | .fileOpen .. => "FileOpen"
  | .fileCreate .. => "FileCreate"
  | .fileWrite .. => "FileWrite"

def message : AsmError → String
  | unexpectedChar char column =>
    "Unexpected character " ++ quoted (String.singleton char) ++ s!" at column {column}"
  | badHexLiteral digits =>
    "Invalid size of hex literal " ++ quoted ("$" ++ digits) ++ ": expected 2 or 4 digits"
  | unexpectedEnd => "Syntax error: unexpected end of line"
  | unexpectedToken found => "Syntax error: unexpected token " ++ atColumn found
  | expectedToken expected found =>
    "Syntax error: expected " ++ quoted expected.text ++ ", found " ++ atColumn found
  | expectedBeforeEnd expected =>
    "Syntax error: expected " ++ quoted expected.text ++ ", found end of line"
  | undefinedConstant name => "The constant " ++ quoted ("%" ++ name) ++ " was not defined"
  | redefinedConstant name =>
    "The constant " ++ quoted ("%" ++ name) ++ " was defined more than once"
  | unsupportedFunction name => "Unsupported function: " ++ quoted name
  | unknownInstruction spelling => "Unknown instruction: " ++ quoted spelling
  | missingOperand spelling => "The instruction " ++ quoted spelling ++ " requires a parameter"
  | unexpectedOperand spelling =>
    "The instruction " ++ quoted spelling ++ " does not expect a parameter"
  | danglingLabel name => "The label " ++ quoted ("@" ++ name) ++ " is not followed by an instruction"
  | unknownLabel name => "Unknown label: " ++ quoted ("@" ++ name)
  | nonStaticValue => "The expression has no static value"
  | duplicateLabel name => "The label " ++ quoted ("@" ++ name) ++ " was defined more than once"
  | unresolvedLabel name => "Undefined label: " ++ quoted ("@" ++ name)
  | ambiguousPageZero lo hi =>
    "Unable to determine whether an address in [$" ++ Text.hexNumber lo ++ ", $" ++
      Text.hexNumber hi ++ "] is in page zero"
  | unsupportedAddressingMode => "Unsupported additive addressing mode"
  | unsupportedIndirection => "Unsupported indirect addressing"
  | unsupportedExpression => "Unsupported expression"
  | unsupportedModeFor kind mode =>
    "The instruction " ++ quoted kind.name ++ " does not support addressing mode " ++
      quoted (modeName mode)
  | branchOffsetOutOfRange offset => s!"Branch target is out of range: offset {offset}"
  | valueOutOfRange lo hi => "The expression value is out of range: " ++ between lo hi
  | dataOutOfRange lo hi => "Parameter of DATA instruction is out of range: " ++ between lo hi
  | missingBaseOperand => "The BASE instruction requires an address parameter"
  | unresolvedAddress => "Unable to determine an address"
  | unresolvedValue => "Could not determine a value for the expression"
  | singleByteExpected value =>
    "Instruction expects a single byte as parameter, got $" ++ Text.hexNumber value
  | missingStart => "No " ++ quoted "START" ++ " instruction found"
  | unresolvedStart => "Could not find a value for the start address"
  | layoutDiverged passes => s!"Layout did not settle after {passes} passes"
  | fileOpen path => "Failed to open file: " ++ path
  | fileCreate path => "Failed to create file: " ++ path
  | fileWrite path => "Failed to write file: " ++ path

end AsmError

/-- A line of a source file, counted from one. -/
structure Position where
  file : String
  line : Nat
  deriving DecidableEq, Repr

structure Diagnostic where
  error : AsmError
  position : Option Position
  deriving DecidableEq, Repr

/-- Attaches a source line to a failure. -/
def locate {α : Type} (position : Position) : Except AsmError α → Except Diagnostic α
  | .ok value => .ok value
  | .error error => .error ⟨error, some position⟩

end Micro65
