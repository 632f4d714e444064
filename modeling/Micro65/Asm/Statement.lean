import Micro65.Asm.Expr.Parser
import Micro65.Asm.Token.Lexer

set_option autoImplicit false

/-!
Statements, one per source line: nothing, a constant definition, or code with an optional label.
-/

namespace Micro65

/-- An instruction or directive as it stands in the source. -/
structure Code where
  /-- The mnemonic as it is written. -/
  spelling : String
  kind : Mnemonic
  operand : Option Expr
  deriving DecidableEq, Repr

inductive Statement where
  | empty
  | const (name : String) (value : Expr)
  | code (label : Option String) (body : Option Code)
  deriving DecidableEq, Repr

/-- The test that a statement fills its line. -/
def checkLineEnd : List Lexeme → Except AsmError Unit
  | [] => .ok ()
  | next :: _ => .error (.unexpectedToken next)

/-- Reads what follows a mnemonic. -/
def Code.parse (constants : Constants) (spelling : String) (lexemes : List Lexeme) :
    Except AsmError (Code × List Lexeme) :=
  match Mnemonic.parse spelling with
  | .error _ => .error (.unknownInstruction spelling)
  | .ok kind =>
    match lexemes.isEmpty, kind.takesOperand with
    | true, false => .ok (⟨spelling, kind, none⟩, lexemes)
    | true, true => .error (.missingOperand spelling)
    | false, false => .error (.unexpectedOperand spelling)
    | false, true => do
      let (operand, rest) ← Expr.parse constants lexemes
      return (⟨spelling, kind, some operand⟩, rest)

namespace Statement

/-- Reads what follows the colon of a label. -/
def parseLabelled (constants : Constants) (label : String) :
    List Lexeme → Except AsmError Statement
  | [] => .ok (.code (some label) none)
  | first :: rest =>
    match first.token with
    | .ident spelling => do
      let (body, rest) ← Code.parse constants spelling rest
      checkLineEnd rest
      return .code (some label) (some body)
    | _ => .error (.unexpectedToken first)

def parse (constants : Constants) : List Lexeme → Except AsmError Statement
  | [] => .ok .empty
  | first :: rest =>
    match first.token with
    | .label name => do
      let ⟨rest, _⟩ ← expect .colon rest
      parseLabelled constants name rest
    | .const name => do
      let ⟨rest, _⟩ ← expect .equal rest
      let (value, rest) ← Expr.parse constants rest
      checkLineEnd rest
      return .const name value
    | .ident spelling => do
      let (body, rest) ← Code.parse constants spelling rest
      checkLineEnd rest
      return .code none (some body)
    | _ => .error (.unexpectedToken first)

def ofLine (constants : Constants) (line : String) : Except AsmError Statement := do
  parse constants (← Lexeme.scan line)

end Statement
end Micro65
