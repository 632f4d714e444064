import Micro65.Asm.Error

set_option autoImplicit false

/-!
Expressions read from lexemes. Operators apply from the left to the right, except that the factors behind
a sign are multiplied first; `#`, `lo` and `hi` apply to all that follows. An expression extends to the end
of the line or to a closing bracket.
-/

namespace Micro65

/-- Named expressions, the latest first. -/
abbrev Constants := List (String × Expr)

/-- What is left of some lexemes after at least one has been read. -/
abbrev Shorter (lexemes : List Lexeme) := { rest : List Lexeme // rest.length < lexemes.length }

/-- What is left of some lexemes after any number has been read. -/
abbrev NoLonger (lexemes : List Lexeme) := { rest : List Lexeme // rest.length ≤ lexemes.length }

/-- Reads the lexeme that has to come next. -/
def expect (expected : Token) : (lexemes : List Lexeme) → Except AsmError (Shorter lexemes)
  | [] => .error (.expectedBeforeEnd expected)
  | found :: rest =>
    if found.token = expected then .ok ⟨rest, by simp⟩ else .error (.expectedToken expected found)

namespace Expr

/-- The test that an expression ends where it has to. -/
def checkEnd : List Lexeme → Except AsmError Unit
  | [] => .ok ()
  | next :: _ => if next.token.closes then .ok () else .error (.unexpectedToken next)

/-- The expression that a token is by itself. -/
def ofToken? : Token → Option Expr
  | .byte value => some (literal value.toUInt16)
  | .word value => some (literal value)
  | .label name => some (label name)
  | .register which => some (register which)
  | _ => none

-- The measures are numbers and not pairs, so that what is read of given lexemes can be computed in a proof.
mutual

def parseSimple (constants : Constants) (lexemes : List Lexeme) :
    Except AsmError (Expr × Shorter lexemes) :=
  match lexemes with
  | [] => .error .unexpectedEnd
  | first :: rest =>
    match ofToken? first.token with
    | some expr => .ok (expr, ⟨rest, by simp⟩)
    | none =>
      match first.token with
      | .const name =>
        match constants.lookup name with
        | some value => .ok (value, ⟨rest, by simp⟩)
        | none => .error (.undefinedConstant name)
      | .hash => do
        let (inner, ⟨after, shorter⟩) ← parseSum constants rest
        return (address inner, ⟨after, by grind⟩)
      | .ident name =>
        match Half.ofName? name with
        | some side => do
          let (inner, ⟨after, shorter⟩) ← parseSum constants rest
          return (half side inner, ⟨after, by grind⟩)
        | none => .error (.unsupportedFunction name)
      | .leftParen => do
        let (inner, ⟨after, shorter⟩) ← parseSum constants rest
        let ⟨after, closed⟩ ← expect .rightParen after
        return (inner, ⟨after, by grind⟩)
      | .leftBracket => do
        let (inner, ⟨after, shorter⟩) ← parseSum constants rest
        let ⟨after, closed⟩ ← expect .rightBracket after
        return (indirect inner, ⟨after, by grind⟩)
      | _ => .error (.unexpectedToken first)
termination_by 2 * lexemes.length

/-- Further factors of a product. -/
def parseFactors (constants : Constants) (product : Expr) (lexemes : List Lexeme) :
    Except AsmError (Expr × NoLonger lexemes) :=
  match lexemes with
  | [] => .ok (product, ⟨[], by simp⟩)
  | first :: rest =>
    if first.token = .star then do
      let (factor, ⟨after, shorter⟩) ← parseSimple constants rest
      let (product, ⟨after, noLonger⟩) ← parseFactors constants (mul product factor) after
      return (product, ⟨after, by grind⟩)
    else .ok (product, ⟨first :: rest, by simp⟩)
termination_by 2 * lexemes.length

def parseProduct (constants : Constants) (lexemes : List Lexeme) :
    Except AsmError (Expr × Shorter lexemes) := do
  let (first, ⟨after, shorter⟩) ← parseSimple constants lexemes
  let (product, ⟨after, noLonger⟩) ← parseFactors constants first after
  return (product, ⟨after, by grind⟩)
termination_by 2 * lexemes.length + 1

/-- Further operations on an expression, from the left to the right. The right side of a sign is a whole
product, that of a star is simple. -/
def parseOperations (constants : Constants) (expr : Expr) (lexemes : List Lexeme) :
    Except AsmError (Expr × NoLonger lexemes) :=
  match lexemes with
  | [] => .ok (expr, ⟨[], by simp⟩)
  | first :: rest =>
    if first.token = .plus then do
      let (term, ⟨after, shorter⟩) ← parseProduct constants rest
      let (expr, ⟨after, noLonger⟩) ← parseOperations constants (add expr term) after
      return (expr, ⟨after, by grind⟩)
    else if first.token = .minus then do
      let (term, ⟨after, shorter⟩) ← parseProduct constants rest
      let (expr, ⟨after, noLonger⟩) ← parseOperations constants (sub expr term) after
      return (expr, ⟨after, by grind⟩)
    else if first.token = .star then do
      let (factor, ⟨after, shorter⟩) ← parseSimple constants rest
      let (expr, ⟨after, noLonger⟩) ← parseOperations constants (mul expr factor) after
      return (expr, ⟨after, by grind⟩)
    else .ok (expr, ⟨first :: rest, by simp⟩)
termination_by 2 * lexemes.length

def parseSum (constants : Constants) (lexemes : List Lexeme) :
    Except AsmError (Expr × Shorter lexemes) := do
  let (first, ⟨after, shorter⟩) ← parseSimple constants lexemes
  let (expr, ⟨after, noLonger⟩) ← parseOperations constants first after
  checkEnd after
  return (expr, ⟨after, by grind⟩)
termination_by 2 * lexemes.length + 1

end

/-- Reads one expression. Lexemes from a closing bracket on are left over. -/
def parse (constants : Constants) (lexemes : List Lexeme) :
    Except AsmError (Expr × List Lexeme) := do
  let (expr, rest) ← parseSum constants lexemes
  return (expr, rest.val)

end Expr
end Micro65
