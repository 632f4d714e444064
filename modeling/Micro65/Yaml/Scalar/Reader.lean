import Micro65.Yaml.Cursor
import Micro65.Yaml.Scalar

set_option autoImplicit false

/-!
Scalars as they are written. A plain or quoted scalar may go on over several lines; the space around
the end of a line is folded.
-/

namespace Micro65.Yaml

/-- A scalar that was read. -/
structure Written where
  text : String
  stop : Cursor
  /-- The end of a line was passed behind the text. -/
  broken : Bool := false
  deriving DecidableEq, Repr

/-- What space inside a scalar stands for. A line feed is folded to a blank, or dropped if more ends
of lines follow; an end of another kind stays. -/
def fold (space : List Char) : List Char :=
  match space.filter isBreak with
  | [] => space
  | ['\n'] => [' ']
  | '\n' :: breaks => breaks
  | breaks => breaks

/-- A plain scalar may not begin with any of these. -/
def isReserved (c : Char) : Bool := "\t#&*!|>%@\x60".contains c

/-- A comment, the bound of a document or a line of less indentation ends a plain scalar before it. -/
def endsBefore (flow : Bool) (indent : Nat) (cursor : Cursor) : Bool :=
  cursor.rest.head? == some '#' || cursor.atAnyBound || (!flow && cursor.place.column < indent)

/-- A colon in front of a blank ends a plain scalar, and within brackets a comma or bracket does. -/
def endsAt (flow : Bool) (c : Char) (rest : List Char) : Bool :=
  (c == ':' && endsWord rest) || (flow && ",[]\x7b\x7d".contains c)

/-- A plain scalar from its `text` on, behind which `space` was read. A tab is no indentation, and
within brackets a colon may not stand before another mark. -/
def plainFrom (flow : Bool) (indent : Nat) (text : String) (space : List Char) (place : Place) :
    List Char → Option Written
  | [] => some { text, stop := ⟨place, []⟩, broken := space.any isBreak }
  | c :: rest =>
    if isSpace c then
      if c == '\t' && space.any isBreak && place.column < indent then none
      else plainFrom flow indent text (space ++ [c]) (place.next c) rest
    else if (!space.isEmpty && endsBefore flow indent ⟨place, c :: rest⟩) || endsAt flow c rest then
      some { text, stop := ⟨place, c :: rest⟩, broken := space.any isBreak }
    else if flow && c == ':' && rest.head?.any (",?[]\x7b\x7d".contains ·) then none
    else plainFrom flow indent (text ++ String.ofList (fold space) |>.push c) [] (place.next c) rest

def plain? (flow : Bool) (indent : Nat) (start : Cursor) : Option Written :=
  plainFrom flow indent "" [] start.place start.rest

/-- The character of a code point in hexadecimal digits. -/
def codePoint? (digits : List Char) : Option Char := do
  let value ← Scalar.digits? 16 digits
  if value.isValidChar then some (Char.ofNat value) else none

/-- What a backslash and the characters behind it stand for, and how many these are. The end of a line
stands for nothing and takes the space before the next word with it. -/
def escape? : List Char → Option (List Char × Nat)
  | [] => none
  | c :: rest =>
    match widths.lookup c, named.lookup c with
    | some width, _ =>
      if rest.length < width then none
      else (codePoint? (rest.take width)).map fun c => ([c], width + 1)
    | none, some c => some ([c], 1)
    | none, none =>
      let space := rest.takeWhile isSpace
      if isBreak c then some (space.filter isBreak, space.length + 1) else none
where
  widths : List (Char × Nat) := [('x', 2), ('u', 4), ('U', 8)]
  named : List (Char × Char) :=
    [('0', '\x00'), ('a', '\x07'), ('b', '\x08'), ('t', '\t'), ('\t', '\t'), ('n', '\n'),
      ('v', '\x0b'), ('f', '\x0c'), ('r', '\r'), ('e', '\x1b'), (' ', ' '), ('"', '"'), ('/', '/'),
      ('\\', '\\'), ('N', '\u0085'), ('_', '\u00a0'), ('L', '\u2028'), ('P', '\u2029')]

/-- What a character inside quotes stands for together with some that follow it, and how many follow.
There is no answer at the closing quote. Two single quotes stand for one, and the other quotes know
escapes. -/
def quotedPart? (quote c : Char) (rest : List Char) : Option (List Char × Nat) :=
  if c = quote then
    if quote = '\'' ∧ rest.head? = some '\'' then some (['\''], 1) else none
  else if isSpace c then
    let space := rest.takeWhile isSpace
    some (fold (c :: space), space.length)
  else if c = '\\' ∧ quote = '"' then escape? rest
  else some ([c], 0)

/-- A quoted scalar from its `text` on. The bound of a document may not stand in it. -/
def quotedFrom (quote : Char) (text : String) (place : Place) (rest : List Char) : Option Written :=
  match rest with
  | [] => none
  | c :: rest =>
    let cursor : Cursor := ⟨place, c :: rest⟩
    if cursor.atAnyBound then none
    else
      match quotedPart? quote c rest with
      | none => if c = quote then some { text, stop := cursor.drop 1 } else none
      | some (part, count) =>
        quotedFrom quote (text ++ String.ofList part) (cursor.drop (count + 1)).place (rest.drop count)
termination_by rest.length

/-- A quoted scalar from its opening quote on. -/
def quoted? (quote : Char) (start : Cursor) : Option Written :=
  let cursor := start.drop 1
  quotedFrom quote "" cursor.place cursor.rest

end Micro65.Yaml
