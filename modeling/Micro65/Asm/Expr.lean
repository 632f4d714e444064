import Micro65.Text.Hex

set_option autoImplicit false

/-!
Operand expressions and their printed form. The printed form has no grouping parentheses: it shows
an operand in a listing.
-/

namespace Micro65

inductive Register where
  | a | x | y
  deriving DecidableEq, Repr

def Register.name : Register → String
  | a => "A"
  | x => "X"
  | y => "Y"

/-- One byte of a word. -/
inductive Half where
  | low | high
  deriving DecidableEq, Repr

def Half.name : Half → String
  | low => "lo"
  | high => "hi"

/-- Only the exact lower-case name is accepted. -/
def Half.ofName? (text : String) : Option Half := [low, high].find? (·.name == text)

inductive Expr where
  | literal (value : UInt16)
  | label (name : String)
  | register (which : Register)
  /-- A value used as an address. -/
  | address (inner : Expr)
  | add (left right : Expr)
  | sub (left right : Expr)
  | mul (left right : Expr)
  /-- The cell that an address points to. -/
  | indirect (inner : Expr)
  | half (side : Half) (inner : Expr)
  deriving DecidableEq, Repr

namespace Expr

/-- Names of the labels mentioned, from left to right. -/
def labels : Expr → List String
  | literal _ | register _ => []
  | label name => [name]
  | address inner | indirect inner | half _ inner => inner.labels
  | add left right | sub left right | mul left right => left.labels ++ right.labels

def text : Expr → String
  | literal value => "$" ++ if value < 0x100 then Text.hexByte value.toUInt8 else Text.hexWord value
  | label name => "@" ++ name
  | register which => which.name
  | address inner => "#" ++ inner.text
  | add left right => left.text ++ " + " ++ right.text
  | sub left right => left.text ++ " - " ++ right.text
  | mul left right => left.text ++ " * " ++ right.text
  | indirect inner => "[" ++ inner.text ++ "]"
  | half side inner => side.name ++ "(" ++ inner.text ++ ")"

end Expr
end Micro65
