import Micro65.Devices.Span

set_option autoImplicit false

/-!
Blocks of memory cells over a range of addresses, and how an image is laid into one.
-/

namespace Micro65

structure Block where
  span : Span
  cells : Vector UInt8 span.length

/-- Why an image cannot be laid into a block. -/
inductive LoadError where
  | tooLarge (size : Nat) (first last : UInt16)
  /-- The end of the image is no 64-bit number. -/
  | endOverflow
  deriving DecidableEq, Repr

def LoadError.message : LoadError → String
  | .tooLarge size first last =>
    "Image of " ++ toString size ++ " bytes does not fit in $" ++ Text.hexWord first ++ "-$" ++
      Text.hexWord last
  | .endOverflow => "The end of the image overflows"

namespace Block

def empty (span : Span) : Block := ⟨span, .replicate span.length 0⟩

def get? (block : Block) (address : UInt16) : Option UInt8 :=
  (block.span.offset? address).map fun offset => block.cells[offset]

/-- Addresses outside the block are ignored. -/
def set (block : Block) (address : UInt16) (data : UInt8) : Block :=
  match block with
  | ⟨span, cells⟩ =>
    match span.offset? address with
    | some offset => ⟨span, cells.set offset data offset.isLt⟩
    | none => ⟨span, cells⟩

/-- Cells from `offset` on take bytes one after the other, as far as there are cells. -/
def fill {size : Nat} (cells : Vector UInt8 size) (offset : Nat) : List UInt8 → Vector UInt8 size
  | [] => cells
  | byte :: rest => fill (cells.setIfInBounds offset byte) (offset + 1) rest

/-- Copies bytes in, the first of them `offset` cells into the block. -/
def load (block : Block) (data : List UInt8) (offset : Nat) : Except LoadError Block :=
  if UInt64.size ≤ offset + data.length then .error .endOverflow
  else if block.span.length < offset + data.length then
    .error (.tooLarge data.length block.span.first block.span.last)
  else .ok { block with cells := fill block.cells offset data }

/-- Size of an image of the whole address space. -/
def fullImage : Nat := 0x10000

/-- Lays an image into a block. Of an image of the whole address space, with no offset given, the
block takes the part that it covers; any other image ends where the block ends, unless an offset is
given. -/
def place (block : Block) (data : List UInt8) (offset : Option Nat) : Except LoadError Block :=
  match offset with
  | some offset => block.load data offset
  | none =>
    if data.length = fullImage then
      block.load ((data.drop block.span.first.toNat).take block.span.length) 0
    else block.load data (block.span.length - data.length)

end Block
end Micro65
