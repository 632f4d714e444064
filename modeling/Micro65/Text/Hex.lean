set_option autoImplicit false

/-!
Hexadecimal text. Bytes and words have a fixed number of upper-case digits, other numbers at
least four. `hexDigitValue?_hexDigit` says that a printed digit reads back.
-/

namespace Micro65.Text

def hexDigit : Nat → Char
  | 0 => '0' | 1 => '1' | 2 => '2' | 3 => '3' | 4 => '4' | 5 => '5' | 6 => '6' | 7 => '7'
  | 8 => '8' | 9 => '9' | 10 => 'A' | 11 => 'B' | 12 => 'C' | 13 => 'D' | 14 => 'E' | _ => 'F'

/-- Both cases of a digit are read. -/
def hexDigitValue? (c : Char) : Option Nat :=
  if '0' ≤ c ∧ c ≤ '9' then some (c.toNat - '0'.toNat)
  else if 'A' ≤ c ∧ c ≤ 'F' then some (c.toNat - 'A'.toNat + 10)
  else if 'a' ≤ c ∧ c ≤ 'f' then some (c.toNat - 'a'.toNat + 10)
  else none

def isHexDigit (c : Char) : Bool := (hexDigitValue? c).isSome

theorem hexDigitValue?_hexDigit {digit : Nat} (h : digit < 16) :
    hexDigitValue? (hexDigit digit) = some digit := by
  have all : ∀ d : Fin 16, hexDigitValue? (hexDigit d) = some d.val := by decide
  exact all ⟨digit, h⟩

/-- The number that a run of digits stands for, most significant digit first. -/
def hexValue (digits : List Char) : Nat :=
  digits.foldl (fun value c => 16 * value + (hexDigitValue? c).getD 0) 0

def hexByteDigits (byte : UInt8) : List Char :=
  [hexDigit (byte.toNat / 16), hexDigit (byte.toNat % 16)]

def hexByte (byte : UInt8) : String := String.ofList (hexByteDigits byte)

/-- Bytes of two digits each. A digit that is left over does not count. -/
def hexBytes : List Char → List UInt8
  | high :: low :: rest => (hexValue [high, low]).toUInt8 :: hexBytes rest
  | _ => []

def hexWordDigits (word : UInt16) : List Char :=
  hexByteDigits (word.toNat / 256).toUInt8 ++ hexByteDigits word.toUInt8

def hexWord (word : UInt16) : String := String.ofList (hexWordDigits word)

def hexDigitsOf (value : Nat) : List Char :=
  (Nat.toDigits 16 value).map Char.toUpper

/-- At least four digits. A negative number is shown as its 64-bit two's complement. -/
def hexNumber (value : Int) : String :=
  let digits := hexDigitsOf (value % 0x10000000000000000).toNat
  String.ofList (List.replicate (4 - digits.length) '0' ++ digits)

end Micro65.Text
