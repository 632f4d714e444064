set_option autoImplicit false

/-!
Text in double quotes, with what would not be visible escaped.
-/

namespace Micro65.Text

/-- First and last code points of the characters, outside of ASCII, that are written by their numbers:
controls, blanks, invisible marks, marks that combine with the character before them, and code points
for private use. -/
def hiddenRanges : List (Nat × Nat) :=
  [(0x80, 0xA0), (0xAD, 0xAD), (0x300, 0x36F), (0x483, 0x489), (0x591, 0x5BD), (0x600, 0x605),
    (0x61C, 0x61C), (0x64B, 0x65F), (0x6DD, 0x6DD), (0x70F, 0x70F), (0x1680, 0x1680),
    (0x180B, 0x180F), (0x1AB0, 0x1ACE), (0x1DC0, 0x1DFF), (0x2000, 0x200F), (0x2028, 0x202F),
    (0x205F, 0x206F), (0x20D0, 0x20F0), (0x302A, 0x302F), (0x3000, 0x3000), (0x3099, 0x309A),
    (0xE000, 0xF8FF), (0xFE00, 0xFE0F), (0xFE20, 0xFE2F), (0xFEFF, 0xFEFF), (0xFF9E, 0xFF9F),
    (0xFFF0, 0xFFFB), (0xFFFE, 0xFFFF), (0x1F3FB, 0x1F3FF), (0xE0000, 0x10FFFF)]

def isHidden (c : Char) : Bool :=
  c.toNat < 0x20 || c.toNat == 0x7F ||
    hiddenRanges.any fun range => range.1 ≤ c.toNat && c.toNat ≤ range.2

/-- The number of a character in lower-case hexadecimal digits. -/
def numberEscape (c : Char) : String :=
  "\\u\x7b" ++ String.ofList (Nat.toDigits 16 c.toNat) ++ "\x7d"

def escapeChar (c : Char) : String :=
  match c with
  | '\x00' => "\\0"
  | '\t' => "\\t"
  | '\r' => "\\r"
  | '\n' => "\\n"
  | '"' => "\\\""
  | '\\' => "\\\\"
  | c => if isHidden c then numberEscape c else c.toString

def inQuotes (text : String) : String := "\"" ++ String.join (text.toList.map escapeChar) ++ "\""

end Micro65.Text
