import Micro65.Yaml.Scalar.Reader
import Micro65.Yaml.Token

set_option autoImplicit false

/-!
Tokens of a text. That a scalar or collection is a key shows only at the colon behind it; the token in
front of the key is put in then. Anchors, tags, directives and literal blocks are not read.
-/

namespace Micro65.Yaml

/-- Where a key starts, should a colon follow. -/
structure KeyStart where
  place : Place
  /-- How many tokens are before it. -/
  index : Nat
  /-- A colon has to follow, since a block has nothing but keys at this column. -/
  required : Bool
  deriving DecidableEq, Repr

/-- A key has one line and at most 1024 bytes. -/
def KeyStart.reaches (start : KeyStart) (place : Place) : Bool :=
  place.line ≤ start.place.line && place.offset ≤ start.place.offset + 1024

/-- Skips blanks, comments and ends of lines. A tab is no indentation, so outside of brackets it is not
skipped where a key may start; a key may start on each new line. -/
def skipFrom (flow comment keyAllowed : Bool) (place : Place) : List Char → Cursor × Bool
  | [] => (⟨place, []⟩, keyAllowed)
  | c :: rest =>
    if isBreak c then skipFrom flow false (keyAllowed || !flow) (place.next c) rest
    else if comment || c == '#' then skipFrom flow true keyAllowed (place.next c) rest
    else if c == ' ' || (c == '\t' && (flow || !keyAllowed)) then
      skipFrom flow false keyAllowed (place.next c) rest
    else (⟨place, c :: rest⟩, keyAllowed)

structure Lexer where
  cursor : Cursor
  tokens : Array Token := #[]
  /-- Columns of the blocks, innermost first. -/
  blocks : List Nat := []
  keyAllowed : Bool := true
  keyStart : Option KeyStart := none
  /-- Key starts outside of the brackets, innermost first. -/
  outer : List (Option KeyStart) := []
  deriving DecidableEq, Repr

namespace Lexer

/-- Within brackets indentation does not count. -/
def flow (lexer : Lexer) : Bool := !lexer.outer.isEmpty

/-- The least column for a block inside the innermost one. -/
def level (lexer : Lexer) : Nat :=
  match lexer.blocks with
  | [] => 0
  | column :: _ => column + 1

def column (lexer : Lexer) : Nat := lexer.cursor.place.column

def emit (lexer : Lexer) (token : Token) : Lexer := { lexer with tokens := lexer.tokens.push token }

/-- Past the characters of a token. -/
def take (lexer : Lexer) (token : Token) (count : Nat) : Lexer :=
  { lexer.emit token with cursor := lexer.cursor.drop count }

/-- Starts a block unless one is there at its column. -/
def openBlock (lexer : Lexer) (token : Token) (column index : Nat) : Lexer :=
  if lexer.flow || column < lexer.level then lexer
  else
    { lexer with
      tokens := lexer.tokens.insertIdxIfInBounds index token
      blocks := column :: lexer.blocks }

/-- Ends the blocks from a column on. -/
def closeBlocks (lexer : Lexer) (column : Nat) : Lexer :=
  if lexer.flow then lexer
  else
    let closed := lexer.blocks.takeWhile (column ≤ ·)
    { lexer with
      tokens := lexer.tokens ++ Array.replicate closed.length .blockEnd
      blocks := lexer.blocks.drop closed.length }

/-- A key start stays while a colon can follow. -/
def live? (place : Place) : Option KeyStart → Option (Option KeyStart)
  | none => some none
  | some start =>
    if start.reaches place then some (some start) else if start.required then none else some none

/-- Gives up the keys that have become too long. -/
def dropStale (lexer : Lexer) : Option Lexer := do
  let place := lexer.cursor.place
  return { lexer with
    keyStart := ← live? place lexer.keyStart
    outer := ← lexer.outer.mapM (live? place) }

/-- No colon follows the key that may have started. -/
def dropKey (lexer : Lexer) : Option Lexer :=
  if lexer.keyStart.any (·.required) then none else some { lexer with keyStart := none }

/-- A key may start here. -/
def startKey (lexer : Lexer) : Option Lexer :=
  if !lexer.keyAllowed then some lexer
  else do
    let lexer ← lexer.dropKey
    return { lexer with keyStart := some {
      place := lexer.cursor.place
      index := lexer.tokens.size
      required := !lexer.flow && lexer.level == lexer.column + 1 } }

/-- To the next token. -/
def skip (lexer : Lexer) : Option Lexer := do
  let (cursor, keyAllowed) :=
    skipFrom lexer.flow false lexer.keyAllowed lexer.cursor.place lexer.cursor.rest
  let lexer ← { lexer with cursor, keyAllowed }.dropStale
  return lexer.closeBlocks (lexer.column + 1)

/-- The start or the end of a document ends all blocks. -/
def bound (lexer : Lexer) (token : Token) : Option Lexer := do
  let lexer ← (lexer.closeBlocks 0).dropKey
  return { lexer.take token 3 with keyAllowed := false }

/-- The bracket may itself be where a key starts. -/
def openBracket (lexer : Lexer) (token : Token) : Option Lexer := do
  let lexer ← lexer.startKey
  return { lexer.take token 1 with
    keyAllowed := true
    keyStart := none
    outer := lexer.keyStart :: lexer.outer }

def closeBracket (lexer : Lexer) (token : Token) : Option Lexer := do
  let lexer ← lexer.dropKey
  return { lexer.take token 1 with
    keyAllowed := false
    keyStart := lexer.outer.head?.join
    outer := lexer.outer.tail }

def comma (lexer : Lexer) : Option Lexer := do
  return { (← lexer.dropKey).take .comma 1 with keyAllowed := true }

/-- Outside of brackets, a mark without a key before it stands where a key may start. -/
def openMarked (lexer : Lexer) (token : Token) : Option Lexer :=
  if lexer.flow || lexer.keyAllowed then
    some (lexer.openBlock token lexer.column lexer.tokens.size)
  else none

/-- Behind a dash a key may start on the same line. -/
def dash (lexer : Lexer) : Option Lexer := do
  let lexer ← (← lexer.openMarked .blockSequence).dropKey
  return { lexer.take .dash 1 with keyAllowed := true }

def key (lexer : Lexer) : Option Lexer := do
  let lexer ← (← lexer.openMarked .blockMapping).dropKey
  return { lexer.take .key 1 with keyAllowed := !lexer.flow }

/-- A colon. What stands before it is its key, and the mark and perhaps the start of a block are put in
front of that. -/
def value (lexer : Lexer) : Option Lexer :=
  match lexer.keyStart with
  | some start =>
    let lexer := { lexer with tokens := lexer.tokens.insertIdxIfInBounds start.index .key }
    let lexer := lexer.openBlock .blockMapping start.place.column start.index
    some { lexer.take .value 1 with keyAllowed := false, keyStart := none }
  | none => do
    let lexer ← lexer.openMarked .blockMapping
    return { lexer.take .value 1 with keyAllowed := !lexer.flow }

/-- Behind a scalar, a key starts on a new line only. -/
def scalar (lexer : Lexer) (token : String → Token) (read? : Cursor → Option Written) :
    Option Lexer := do
  let lexer ← lexer.startKey
  let written ← read? lexer.cursor
  return { lexer.emit (token written.text) with
    cursor := written.stop
    keyAllowed := written.broken }

/-- The token that begins with a character. -/
def read (lexer : Lexer) (first : Char) (rest : List Char) : Option Lexer :=
  if lexer.cursor.atBound '-' then lexer.bound .documentStart
  else if lexer.cursor.atBound '.' then lexer.bound .documentEnd
  else if first = '[' then lexer.openBracket .openSequence
  else if first = ']' then lexer.closeBracket .closeSequence
  else if first = '\x7b' then lexer.openBracket .openMapping
  else if first = '\x7d' then lexer.closeBracket .closeMapping
  else if first = ',' then lexer.comma
  else if first = '-' ∧ endsWord rest then lexer.dash
  else if first = '?' ∧ (lexer.flow || endsWord rest) then lexer.key
  else if first = ':' ∧ (lexer.flow || endsWord rest) then lexer.value
  else if first = '"' ∨ first = '\'' then lexer.scalar .quoted (quoted? first)
  else if isReserved first then none
  else lexer.scalar .plain (plain? lexer.flow lexer.level)

/-- All tokens of the text. The fuel bounds the steps, each of which takes at least one character. -/
def run : Nat → Lexer → Option (List Token)
  | 0, _ => none
  | fuel + 1, lexer => do
    let lexer ← lexer.skip
    match lexer.cursor.rest with
    | [] => return (← (lexer.closeBlocks 0).dropKey).tokens.toList
    | first :: rest => run fuel (← lexer.read first rest)

end Lexer

def Token.scan? (start : Cursor) : Option (List Token) :=
  Lexer.run (start.rest.length + 1) { cursor := start }

end Micro65.Yaml
