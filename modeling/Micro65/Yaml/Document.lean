import Micro65.Yaml.Node.Grammar
import Micro65.Yaml.Token.Lexer

set_option autoImplicit false

/-!
Documents as texts.
-/

namespace Micro65.Yaml

/-- Characters that a document may hold. -/
def isPrintable (c : Char) : Bool :=
  c == '\t' || c == '\n' || (0x20 ≤ c.toNat && c.toNat ≤ 0x7E) ||
    (0xA0 ≤ c.toNat && c.toNat != 0xFFFE && c.toNat != 0xFFFF)

/-- Ends of lines are spelled in many ways, and most of them become a line feed. -/
def unifyBreaks : List Char → List Char
  | '\r' :: '\n' :: rest => '\n' :: unifyBreaks rest
  | '\r' :: rest | '\u0085' :: rest => '\n' :: unifyBreaks rest
  | c :: rest => c :: unifyBreaks rest
  | [] => []

def read? (text : String) : Option Node := do
  let text := unifyBreaks text.toList
  if text.all isPrintable then Node.ofTokens? (← Token.scan? (Cursor.ofText text)) else none

end Micro65.Yaml
