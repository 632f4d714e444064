import Micro65.Asm.Assembly

set_option autoImplicit false

/-!
The flat image of an assembly, written out instruction by instruction.
-/

namespace Micro65.Image

/-- Writes bytes at consecutive addresses, which wrap at the end of memory. -/
def store (cells : Vector UInt8 0x10000) (address : UInt16) :
    List UInt8 → Vector UInt8 0x10000
  | [] => cells
  | byte :: rest => store (cells.set address.toNat byte address.toNat_lt) (address + 1) rest

/-- Unwritten cells are zero. -/
def content (asm : Assembly) : Vector UInt8 0x10000 :=
  asm.files.foldl
    (fun cells file =>
      file.instructions.foldl (fun cells inst => store cells inst.address inst.bytes) cells)
    (.replicate 0x10000 0)

end Micro65.Image
