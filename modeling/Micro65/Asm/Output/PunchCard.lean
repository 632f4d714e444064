import Micro65.Asm.Assembly

set_option autoImplicit false

/-!
Punch cards. A card has two control holes and the eight bits of a byte. A reader keeps an address: one
kind of card replaces its low byte, one its high byte, and one stores a byte there and moves on. An
address is punched only where it is not the one that the reader has already reached.
-/

namespace Micro65.PunchCard

open Text

inductive Control where
  | store | lowAddress | highAddress
  deriving DecidableEq, Repr

def Control.text : Control → String
  | store => "_ O"
  | lowAddress => "O _"
  | highAddress => "O O"

inductive Card where
  | comment (text : String)
  /-- A stored byte shows its address. -/
  | punched (control : Control) (byte : UInt8) (address : Option UInt16)
  deriving DecidableEq, Repr

def hole (byte bit : UInt8) : String := if byte &&& bit = 0 then " _" else " O"

def holes (byte : UInt8) (bits : List UInt8) : String := String.join (bits.map (hole byte))

def Card.text : Card → String
  | comment text => "; " ++ text
  | punched control byte address =>
    let shown := match address with
      | some address => " ; 0x" ++ hexWord address
      | none => ""
    control.text ++ " " ++ holes byte [0x80, 0x40, 0x20, 0x10] ++ " " ++
      holes byte [0x08, 0x04, 0x02, 0x01] ++ " ; " ++ shown ++ " ; 0x" ++ hexByte byte

def setAddress (address : UInt16) : List Card :=
  [.punched .lowAddress address.toUInt8 none, .punched .highAddress (address >>> 8).toUInt8 none]

/-- Cards of bytes stored one after the other, and the address behind the last of them. -/
def storeBytes (address : UInt16) : List UInt8 → List Card × UInt16
  | [] => ([], address)
  | byte :: rest =>
    let (cards, reached) := storeBytes (address + 1) rest
    (.punched .store byte (some address) :: cards, reached)

/-- The cards that take a reader from the address that it has reached to another one. -/
def jump (reached address : UInt16) : List Card :=
  if address = reached then []
  else .comment ("Change address to 0x" ++ hexWord address) :: setAddress address

/-- Cards of source lines, and the address that the reader has reached after them. -/
def lineCards (reached : UInt16) : List Line → List Card × UInt16
  | [] => ([], reached)
  | line :: rest =>
    let comment := .comment (toString line.number ++ ": " ++ line.text)
    match line.instruction with
    | none =>
      let (cards, reached) := lineCards reached rest
      (comment :: cards, reached)
    | some inst =>
      if inst.bytes.isEmpty then
        let (cards, reached) := lineCards reached rest
        (comment :: cards, reached)
      else
        let (stored, next) := storeBytes inst.address inst.bytes
        let (cards, last) := lineCards next rest
        (comment :: jump reached inst.address ++ stored ++ cards, last)

def fileCards (reached : UInt16) : List SourceFile → List Card
  | [] => []
  | file :: rest =>
    let (cards, reached) := lineCards reached file.lines
    .comment file.name :: cards ++ fileCards reached rest

/-- The reader ends at the start address. -/
def cards (asm : Assembly) : List Card :=
  fileCards 0 asm.files ++ .comment "Execute start address" :: setAddress asm.start

def text (asm : Assembly) : String :=
  String.join ((cards asm).map fun card => card.text ++ "\n")

end Micro65.PunchCard
