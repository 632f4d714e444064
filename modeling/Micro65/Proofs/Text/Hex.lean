import Micro65.Text.Hex

set_option autoImplicit false

/-!
Hexadecimal text read back. Bytes and words are written in digits whose value they are.
-/

namespace Micro65.Text

theorem isHexDigit_hexDigit (digit : Nat) : isHexDigit (hexDigit digit) = true := by
  unfold hexDigit
  split <;> decide

theorem hexValue_hexByteDigits (byte : UInt8) : hexValue (hexByteDigits byte) = byte.toNat := by
  have bounded := byte.toNat_lt
  have high : byte.toNat / 16 < 16 := by omega
  have low : byte.toNat % 16 < 16 := by omega
  simp only [hexValue, hexByteDigits, List.foldl_cons, List.foldl_nil, hexDigitValue?_hexDigit high,
    hexDigitValue?_hexDigit low, Option.getD_some]
  omega

theorem hexValue_append (digits : List Char) (byte : UInt8) :
    hexValue (digits ++ hexByteDigits byte) = 256 * hexValue digits + byte.toNat := by
  have last := hexValue_hexByteDigits byte
  simp only [hexValue, hexByteDigits, List.foldl_append, List.foldl_cons, List.foldl_nil] at last ⊢
  omega

theorem hexValue_hexWordDigits (word : UInt16) : hexValue (hexWordDigits word) = word.toNat := by
  have bounded := word.toNat_lt
  rw [hexWordDigits, hexValue_append, hexValue_hexByteDigits, UInt16.toNat_toUInt8]
  change 256 * (word.toNat / 256 % 256) + word.toNat % 256 = _
  omega

theorem isHexDigit_of_mem_hexByteDigits {byte : UInt8} :
    ∀ c ∈ hexByteDigits byte, isHexDigit c = true := by
  simp [hexByteDigits, isHexDigit_hexDigit]

theorem isHexDigit_of_mem_hexWordDigits {word : UInt16} :
    ∀ c ∈ hexWordDigits word, isHexDigit c = true := by
  simp [hexWordDigits, hexByteDigits, isHexDigit_hexDigit]

end Micro65.Text
