set_option autoImplicit false

/-!
Places in a text that is being read. Lines and columns are counted from zero, since blocks are nested
by indentation.
-/

namespace Micro65.Yaml

def isBlank (c : Char) : Bool := c == ' ' || c == '\t'

/-- Ends of lines, after the ends that are spelled otherwise have become line feeds. -/
def isBreak (c : Char) : Bool := c == '\n' || c == '\u2028' || c == '\u2029'

def isSpace (c : Char) : Bool := isBlank c || isBreak c

/-- A blank, the end of a line or the end of the text comes next. -/
def endsWord (rest : List Char) : Bool := rest.head?.all isSpace

structure Place where
  line : Nat := 0
  column : Nat := 0
  /-- How many bytes are before it. -/
  offset : Nat := 0
  deriving DecidableEq, Repr

/-- The place behind a character. -/
def Place.next (place : Place) (c : Char) : Place :=
  let offset := place.offset + c.utf8Size
  if isBreak c then ⟨place.line + 1, 0, offset⟩ else ⟨place.line, place.column + 1, offset⟩

structure Cursor where
  place : Place
  rest : List Char
  deriving DecidableEq, Repr

namespace Cursor

/-- The start of a text. A byte order mark is skipped there, but it takes up the first column. -/
def ofText (text : List Char) : Cursor :=
  if text.head? = some '\ufeff' then { place := Place.next {} '\ufeff', rest := text.tail }
  else { place := {}, rest := text }

/-- Past a number of characters. -/
def drop (cursor : Cursor) (count : Nat) : Cursor where
  place := (cursor.rest.take count).foldl Place.next cursor.place
  rest := cursor.rest.drop count

/-- Three dashes or dots that stand alone in front of a line are the bounds of a document. -/
def atBound (cursor : Cursor) (mark : Char) : Bool :=
  cursor.place.column == 0 && cursor.rest.take 3 == [mark, mark, mark] &&
    endsWord (cursor.rest.drop 3)

def atAnyBound (cursor : Cursor) : Bool := cursor.atBound '-' || cursor.atBound '.'

end Cursor

end Micro65.Yaml
