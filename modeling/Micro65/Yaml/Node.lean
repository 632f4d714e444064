import Micro65.Yaml.Scalar

set_option autoImplicit false

/-!
Documents as trees. Readers of a tree answer nothing where the tree does not have the form that they
expect. An empty scalar stands for an empty collection.
-/

namespace Micro65.Yaml

inductive Node where
  | plain (text : String)
  | quoted (text : String)
  | sequence (items : List Node)
  | mapping (entries : List (Node × Node))
  deriving Repr, Inhabited

namespace Node

/-- The text of a scalar as it stands. -/
def written? : Node → Option String
  | plain text | quoted text => some text
  | _ => none

/-- What a scalar stands for. A quoted scalar is text. -/
def scalar? : Node → Option Scalar
  | plain text => some (.ofPlain text)
  | quoted text => some (.text text)
  | _ => none

def isNull (node : Node) : Bool := node.scalar? == some .null

def text? (node : Node) : Option String :=
  match node.scalar? with
  | some (.text text) => some text
  | _ => none

def bool? (node : Node) : Option Bool :=
  match node.scalar? with
  | some (.bool on) => some on
  | _ => none

/-- Numbers have 64 bits. -/
def natural? (node : Node) : Option Nat :=
  match node.scalar? with
  | some (.natural value) => if value < UInt64.size then some value else none
  | _ => none

def word? (node : Node) : Option UInt16 :=
  (node.natural?.filter (· < UInt16.size)).map Nat.toUInt16

def items? : Node → Option (List Node)
  | sequence items => some items
  | plain "" => some []
  | _ => none

def entries? : Node → Option (List (Node × Node))
  | mapping entries => some entries
  | plain "" => some []
  | _ => none

/-- The entries of a mapping by the texts of their keys. -/
def fields? (node : Node) : Option (List (String × Node)) := do
  (← node.entries?).mapM fun (key, value) => do return (← key.written?, value)

mutual

/-- All unquoted scalars in a tree. -/
def plains : Node → List String
  | plain text => [text]
  | quoted _ => []
  | sequence items => plainsOfItems items
  | mapping entries => plainsOfEntries entries

def plainsOfItems : List Node → List String
  | [] => []
  | item :: rest => item.plains ++ plainsOfItems rest

def plainsOfEntries : List (Node × Node) → List String
  | [] => []
  | (key, value) :: rest => key.plains ++ value.plains ++ plainsOfEntries rest

end

def fitsScalar : Scalar → Bool
  | .natural value => value < UInt64.size
  | .negative magnitude => magnitude ≤ 0x8000000000000000
  | _ => true

mutual

/-- How many collections hold one another in a tree. -/
def depth : Node → Nat
  | plain _ | quoted _ => 0
  | sequence items => depthOfItems items + 1
  | mapping entries => depthOfEntries entries + 1

def depthOfItems : List Node → Nat
  | [] => 0
  | item :: rest => max item.depth (depthOfItems rest)

def depthOfEntries : List (Node × Node) → Nat
  | [] => 0
  | (key, value) :: rest => max (max key.depth value.depth) (depthOfEntries rest)

end

/-- Every integer in the tree has 64 bits, and no more than 128 collections hold one another, together
with those around the tree. -/
def fits (node : Node) (around : Nat) : Bool :=
  node.plains.all (fun text => fitsScalar (.ofPlain text)) && around + node.depth ≤ 128

end Node

/-- The only value of a name. There is no answer when the name is given twice. -/
def only? (name : String) (fields : List (String × Node)) : Option (Option Node) :=
  match fields.filter (·.1 == name) with
  | [] => some none
  | [(_, value)] => some (some value)
  | _ => none

/-- The value of a name that may be missing. -/
def optional? {α : Type} (name : String) (fields : List (String × Node)) (missing : α)
    (read : Node → Option α) : Option α := do
  match ← only? name fields with
  | none => return missing
  | some value => read value

/-- The value of a name that must be there. -/
def required? {α : Type} (name : String) (fields : List (String × Node))
    (read : Node → Option α) : Option α := do
  read (← ← only? name fields)

/-- A value or an explicit null. -/
def nullable? {α : Type} (read : Node → Option α) (node : Node) : Option (Option α) :=
  if node.isNull then some none else (read node).map some

end Micro65.Yaml
