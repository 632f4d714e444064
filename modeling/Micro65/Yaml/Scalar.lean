import Micro65.Text.Hex

set_option autoImplicit false

/-!
What the unquoted scalars of a document stand for. A number is written in decimal or with a mark for
its base; a decimal number with a leading zero is text, and so is one that no double can hold.
-/

namespace Micro65.Yaml

inductive Scalar where
  | null
  | bool (on : Bool)
  | natural (value : Nat)
  /-- A number with a minus sign in front. -/
  | negative (magnitude : Nat)
  /-- A number with a fraction or an exponent, an infinity or a NaN. -/
  | real
  | text (text : String)
  deriving DecidableEq, Repr

namespace Scalar

def digit? (base : Nat) (c : Char) : Option Nat := (Text.hexDigitValue? c).filter (· < base)

/-- The number that digits stand for. There is at least one of them. -/
def digits? (base : Nat) : List Char → Option Nat
  | [] => none
  | digits => digits.foldlM (fun value c => (base * value + ·) <$> digit? base c) 0

def magnitude? : List Char → Option Nat
  | '0' :: 'x' :: digits => digits? 16 digits
  | '0' :: 'o' :: digits => digits? 8 digits
  | '0' :: 'b' :: digits => digits? 2 digits
  | '0' :: _ :: _ => none
  | digits => digits? 10 digits

/-- Natural numbers have 128 bits and stay below this one. -/
def naturalBound : Nat := 0x100000000000000000000000000000000

/-- Negative numbers have 128 bits and this magnitude at most. -/
def greatestMagnitude : Nat := 0x80000000000000000000000000000000

def integer? (cs : List Char) : Option Scalar :=
  match cs with
  | '-' :: rest => ((magnitude? rest).filter (· ≤ greatestMagnitude)).map negative
  | '+' :: rest => ((magnitude? rest).filter (· < naturalBound)).map natural
  | rest => ((magnitude? rest).filter (· < naturalBound)).map natural

/-- A digit string that starts with a zero and goes on. -/
def zeroLed : List Char → Bool
  | '0' :: c :: rest => (c :: rest).all Char.isDigit
  | _ => false

/-- The exponent at the end of a decimal number. -/
def exponent? : List Char → Option Int
  | [] => some 0
  | c :: rest =>
    if c = 'e' ∨ c = 'E' then
      match rest with
      | '-' :: digits => (digits? 10 digits).map fun value => -(value : Int)
      | '+' :: digits => (digits? 10 digits).map Int.ofNat
      | digits => (digits? 10 digits).map Int.ofNat
    else none

/-- Digits with their decimal exponent. There is a digit before or after the point. -/
def decimal? (cs : List Char) : Option (List Char × Int) :=
  let whole := cs.takeWhile Char.isDigit
  let (fraction, rest) := match cs.dropWhile Char.isDigit with
    | '.' :: rest => (rest.takeWhile Char.isDigit, rest.dropWhile Char.isDigit)
    | rest => ([], rest)
  if whole.isEmpty && fraction.isEmpty then none
  else (exponent? rest).map fun exponent => (whole ++ fraction, exponent - fraction.length)

/-- Numbers from here on are infinite as doubles. -/
def infinite : Nat := Nat.pow 2 1024 - Nat.pow 2 970

/-- A double can hold the number, though it may be rounded. -/
def isFinite (digits : List Char) (exponent : Int) : Bool :=
  let digits := digits.dropWhile (· == '0')
  let value := (digits? 10 digits).getD 0
  let size := digits.length + exponent
  if value = 0 ∨ size < 309 then true
  else if 309 < size then false
  else if exponent < 0 then value < infinite * Nat.pow 10 (-exponent).toNat
  else value * Nat.pow 10 exponent.toNat < infinite

/-- A number without a sign. -/
def unsignedReal (cs : List Char) : Bool :=
  match decimal? cs with
  | some (digits, exponent) => isFinite digits exponent
  | none => false

def infinityNames : List String := [".inf", ".Inf", ".INF"]

def nanNames : List String := [".nan", ".NaN", ".NAN"]

def isReal (cs : List Char) : Bool :=
  match cs with
  | '+' :: rest | '-' :: rest =>
    !zeroLed rest && (infinityNames.contains (String.ofList rest) || unsignedReal rest)
  | cs => !zeroLed cs && (infinityNames.contains (String.ofList cs) ||
      nanNames.contains (String.ofList cs) || unsignedReal cs)

def ofPlain (plain : String) : Scalar :=
  if ["", "~", "null", "Null", "NULL"].contains plain then null
  else if ["true", "True", "TRUE"].contains plain then bool true
  else if ["false", "False", "FALSE"].contains plain then bool false
  else
    match integer? plain.toList with
    | some number => number
    | none => if isReal plain.toList then real else text plain

end Scalar
end Micro65.Yaml
