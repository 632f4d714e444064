import Micro65.Asm.Error

set_option autoImplicit false

/-!
Lexemes of a source line. Blanks separate them and a semicolon starts a comment. All characters in
front of a comment are ASCII, so a column counts bytes as well as characters.
-/

namespace Micro65

def isBlank (c : Char) : Bool := c == ' ' || c == '\t'

def isNameStart (c : Char) : Bool := c.isAlpha || c == '_'

def isNameChar (c : Char) : Bool := c.isAlphanum || c == '_'

namespace Token

def ofSymbol? : Char → Option Token
  | '=' => some equal
  | ':' => some colon
  | '(' => some leftParen
  | ')' => some rightParen
  | '[' => some leftBracket
  | ']' => some rightBracket
  | '+' => some plus
  | '-' => some minus
  | '*' => some star
  | '#' => some hash
  | _ => none

/-- Register names are upper-case. -/
def ofName (name : String) : Token :=
  match [Register.a, .x, .y].find? (·.name == name) with
  | some which => register which
  | none => ident name

/-- Two digits make a byte and four a word. -/
def ofDigits? (digits : List Char) : Option Token :=
  match digits.length with
  | 2 => some (byte (Text.hexValue digits).toUInt8)
  | 4 => some (word (Text.hexValue digits).toUInt16)
  | _ => none

/-- The token that starts with `first` at `column`, and how many characters of `rest` it takes. -/
def read (column : Nat) (first : Char) (rest : List Char) : Except AsmError (Token × Nat) :=
  let name := rest.takeWhile isNameChar
  match ofSymbol? first with
  | some token => .ok (token, 0)
  | none =>
    if first = '$' then
      let digits := rest.takeWhile Text.isHexDigit
      match ofDigits? digits with
      | some token => .ok (token, digits.length)
      | none => .error (.badHexLiteral (String.ofList digits))
    else if isNameStart first then .ok (ofName (String.ofList (first :: name)), name.length)
    else if name.isEmpty then unexpected
    else if first = '%' then .ok (const (String.ofList name), name.length)
    else if first = '@' then .ok (label (String.ofList name), name.length)
    else unexpected
where
  unexpected : Except AsmError (Token × Nat) := .error (.unexpectedChar first (column + 1))

end Token

namespace Lexeme

/-- Lexemes of the rest of a line that starts at `column`. -/
def scanFrom (column : Nat) (line : List Char) : Except AsmError (List Lexeme) :=
  match line with
  | [] => .ok []
  | first :: rest =>
    if isBlank first then scanFrom (column + 1) rest
    else if first = ';' then .ok []
    else do
      let (token, taken) ← Token.read column first rest
      let more ← scanFrom (column + 1 + taken) (rest.drop taken)
      return ⟨token, column⟩ :: more
termination_by line.length

def scan (line : String) : Except AsmError (List Lexeme) := scanFrom 0 line.toList

end Lexeme
end Micro65
