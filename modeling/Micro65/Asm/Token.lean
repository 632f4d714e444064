import Micro65.Asm.Expr

set_option autoImplicit false

/-!
Tokens of a source line and their printed form. A lexeme is a token together with the column where it
starts.
-/

namespace Micro65

inductive Token where
  | equal | colon | leftParen | rightParen | leftBracket | rightBracket | plus | minus | star | hash
  | ident (name : String)
  /-- A constant, written `%name`. -/
  | const (name : String)
  /-- A label, written `@name`. -/
  | label (name : String)
  | register (which : Register)
  | byte (value : UInt8)
  | word (value : UInt16)
  deriving DecidableEq, Repr

def Token.text : Token → String
  | equal => "="
  | colon => ":"
  | leftParen => "("
  | rightParen => ")"
  | leftBracket => "["
  | rightBracket => "]"
  | plus => "+"
  | minus => "-"
  | star => "*"
  | hash => "#"
  | ident name => name
  | const name => "%" ++ name
  | label name => "@" ++ name
  | register which => which.name
  | byte value => "$" ++ Text.hexByte value
  | word value => "$" ++ Text.hexWord value

/-- A closing bracket ends an expression. -/
def Token.closes : Token → Bool
  | rightParen | rightBracket => true
  | _ => false

structure Lexeme where
  token : Token
  /-- Counted from zero. -/
  column : Nat
  deriving DecidableEq, Repr

end Micro65
