import Micro65.Asm.Assembly

set_option autoImplicit false

/-!
Listings of laid-out sources: each instruction with its address, its bytes and its mode.
-/

namespace Micro65.Listing

open Text

def dashes (count : Nat) : String := String.ofList (List.replicate count '-')

/-- The dashes after a file name fill a line as long as the name is, counted in bytes. -/
def header (file : SourceFile) : String :=
  dashes 19 ++ "+------[" ++ file.name ++ "]" ++ dashes (45 - file.name.utf8ByteSize)

def footer : String := dashes 19 ++ "+" ++ dashes 53

def lineNumber (line : Line) : String := padLeft 4 (toString line.number)

def lineText (line : Line) : String :=
  match line.instruction with
  | none => blanks 19 ++ "| " ++ lineNumber line ++ ": " ++ line.text
  | some inst =>
    let bytes := " ".intercalate (inst.bytes.map hexByte)
    let mode := match inst.mode with
      | some mode => " " ++ Style.green.paint ("(" ++ mode.name ++ ")")
      | none => ""
    "[" ++ hexWord inst.address ++ "] " ++ padRight 11 bytes ++ " | " ++ lineNumber line ++ ":   " ++
      inst.styled ++ mode

def lines (asm : Assembly) : List String :=
  (asm.files.flatMap fun file => header file :: file.lines.map lineText) ++ [footer]

def text (asm : Assembly) : String := String.join ((lines asm).map (· ++ "\n"))

end Micro65.Listing
