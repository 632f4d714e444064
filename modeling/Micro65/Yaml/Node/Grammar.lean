import Micro65.Yaml.Node
import Micro65.Yaml.Token

set_option autoImplicit false

/-!
Trees of tokens. A scalar or a whole collection may be left out where its slot ends at once; it is an
empty scalar then.
-/

namespace Micro65.Yaml

/-- Where a node stands. -/
inductive Slot where
  /-- Behind a dash, or alone in a document. -/
  | item
  /-- A key or a value of a block. -/
  | value
  /-- In brackets, of which the token is the closing one. -/
  | bracketed (close : Token)
  deriving DecidableEq, Repr

namespace Slot

/-- Tokens that stand behind a slot and not in it. -/
def ends : Slot → List Token
  | item => [.dash, .key, .value, .blockEnd]
  | value => [.key, .value, .blockEnd]
  | bracketed close => [.value, .comma, close]

def endsAt (slot : Slot) (tokens : List Token) : Bool := tokens.head?.any slot.ends.contains

def allowsBlocks : Slot → Bool
  | bracketed _ => false
  | _ => true

end Slot

namespace Node

def empty : Node := plain ""

/-- An entry of a sequence in brackets. A key with its value is a mapping of its own. -/
def ofEntry : Node × Option Node → Node
  | (item, none) => item
  | (key, some value) => mapping [(key, value)]

mutual

/-- A node and the tokens behind it. Behind a key, the items of a sequence need no indentation. This
reader and those below stop when their fuel is spent; each call takes one off it. -/
def read (slot : Slot) : Nat → List Token → Option (Node × List Token)
  | 0, _ => none
  | fuel + 1, tokens =>
    match tokens with
    | .plain text :: rest => some (plain text, rest)
    | .quoted text :: rest => some (quoted text, rest)
    | .openSequence :: rest => do
      let (entries, rest) ← readBracketed .closeSequence fuel rest
      return (sequence (entries.map ofEntry), rest)
    | .openMapping :: rest => do
      let (entries, rest) ← readBracketed .closeMapping fuel rest
      return (mapping (entries.map fun (key, value) => (key, value.getD empty)), rest)
    | .blockSequence :: rest => do
      if !slot.allowsBlocks then none
      let (items, rest) ← readItems true fuel rest
      return (sequence items, rest)
    | .blockMapping :: rest => do
      if !slot.allowsBlocks then none
      let (entries, rest) ← readEntries fuel rest
      return (mapping entries, rest)
    | .dash :: _ => do
      if slot != .value then none
      let (items, rest) ← readItems false fuel tokens
      return (sequence items, rest)
    | _ => none

/-- A node that may be left out. -/
def readOptional (slot : Slot) : Nat → List Token → Option (Node × List Token)
  | 0, _ => none
  | fuel + 1, tokens => if slot.endsAt tokens then some (empty, tokens) else read slot fuel tokens

/-- A key and the value that may follow it. Where a key is left out behind its mark in a bracketed
sequence, the next token is taken in its place. -/
def readPair (slot : Slot) : Nat → List Token → Option ((Node × Node) × List Token)
  | 0, _ => none
  | fuel + 1, tokens => do
    let (key, rest) ←
      if slot = .bracketed .closeSequence ∧ slot.endsAt tokens then some (empty, tokens.tail)
      else readOptional slot fuel tokens
    match rest with
    | .value :: rest =>
      let (value, rest) ← readOptional slot fuel rest
      return ((key, value), rest)
    | _ => return ((key, empty), rest)

/-- The items of a block. Only an indented one has a token at its end. -/
def readItems (indented : Bool) : Nat → List Token → Option (List Node × List Token)
  | 0, _ => none
  | fuel + 1, tokens =>
    match tokens with
    | .dash :: rest => do
      let (item, rest) ← readOptional .item fuel rest
      let (items, rest) ← readItems indented fuel rest
      return (item :: items, rest)
    | .blockEnd :: rest => some ([], if indented then rest else tokens)
    | _ => if indented then none else some ([], tokens)

/-- The entries of a block. Each has a mark in front of its key. -/
def readEntries : Nat → List Token → Option (List (Node × Node) × List Token)
  | 0, _ => none
  | fuel + 1, tokens =>
    match tokens with
    | .key :: rest => do
      let (entry, rest) ← readPair .value fuel rest
      let (entries, rest) ← readEntries fuel rest
      return (entry :: entries, rest)
    | .blockEnd :: rest => some ([], rest)
    | _ => none

/-- The entries in brackets up to the closing one. An entry without a mark in front has no value. -/
def readBracketed (close : Token) : Nat → List Token → Option (List (Node × Option Node) × List Token)
  | 0, _ => none
  | fuel + 1, tokens => do
    if tokens.head? = some close then return ([], tokens.tail)
    let (entry, rest) ← match tokens with
      | .key :: rest => do
        let ((key, value), rest) ← readPair (.bracketed close) fuel rest
        pure ((key, some value), rest)
      | _ => do
        let (node, rest) ← read (.bracketed close) fuel tokens
        pure ((node, none), rest)
    if rest.head? = some close then return ([entry], rest.tail)
    else if rest.head? = some .comma then
      let (entries, rest) ← readBracketed close fuel rest.tail
      return (entry :: entries, rest)
    else none

end

/-- One node of all tokens from the front. Each token accounts for four calls at most, so the fuel is
never spent. -/
def readFirst (tokens : List Token) : Option (Node × List Token) :=
  read .item (4 * tokens.length + 4) tokens

/-- The one document of a text. It is an empty mapping if there are no tokens at all, and its node may
be left out behind the mark of its start. -/
def ofTokens? (tokens : List Token) : Option Node := do
  let (node, rest) ← match tokens with
    | [] => some (mapping [], [])
    | .documentStart :: content =>
      if content.head?.all [.documentStart, .documentEnd].contains then some (empty, content)
      else readFirst content
    | content => readFirst content
  if rest.all (· == .documentEnd) then some node else none

end Node
end Micro65.Yaml
