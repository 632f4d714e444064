import Micro65.Asm.Assembly

set_option autoImplicit false

/-!
Listings of calls, one per byte, that fill a read-only memory.
-/

namespace Micro65.RomListing

open Text

def call (address : UInt16) (byte : UInt8) : String :=
  "rom.program(0x" ++ hexWord address ++ ", 0x" ++ hexByte byte ++ ");"

def comment (text : String) : String := "// " ++ text

/-- Calls for bytes that are stored one after the other. -/
def byteCalls (address : UInt16) : List UInt8 → List String
  | [] => []
  | byte :: rest => call address byte :: byteCalls (address + 1) rest

def lineCalls (line : Line) : List String :=
  comment (toString line.number ++ ": " ++ line.text) ::
    match line.instruction with
    | none => []
    | some inst => byteCalls inst.address inst.bytes

/-- The first line carries the start address. -/
def lines (asm : Assembly) : List String :=
  comment ("start: 0x" ++ hexWord asm.start) ::
    asm.files.flatMap fun file => comment file.name :: file.lines.flatMap lineCalls

def text (asm : Assembly) : String := String.join ((lines asm).map (· ++ "\n"))

end Micro65.RomListing
