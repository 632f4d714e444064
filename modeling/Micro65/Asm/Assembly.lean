import Micro65.Asm.Layout

set_option autoImplicit false

/-!
Assemblies: laid-out programs as what they put into memory. Where two instructions overlap, the later
one wins in every view.
-/

namespace Micro65

structure Assembly where
  /-- The sources with their laid-out instructions. -/
  files : List SourceFile
  start : UInt16
  labels : Labels

/-- Bytes at consecutive addresses, which wrap at the end of memory. -/
def addressed (address : UInt16) (bytes : List UInt8) : List (UInt16 × UInt8) :=
  bytes.mapIdx fun position byte => (address + UInt16.ofNat position, byte)

namespace Line

/-- Puts the next laid-out instruction on a line that has one. `START` lines lose theirs. -/
def fill (program : List Instruction) (line : Line) : Line × List Instruction :=
  match line.instruction, program with
  | none, program => (line, program)
  | some inst, program =>
    if inst.kind = .start then ({ line with instruction := none }, program)
    else ({ line with instruction := program.head? }, program.tail)

def fillAll (program : List Instruction) : List Line → List Line × List Instruction
  | [] => ([], program)
  | line :: rest =>
    let (line, program) := line.fill program
    let (rest, program) := fillAll program rest
    (line :: rest, program)

end Line

/-- Puts a laid-out program back on the lines of its sources. -/
def SourceFile.fillAll (program : List Instruction) : List SourceFile → List SourceFile
  | [] => []
  | file :: rest =>
    let (lines, program) := Line.fillAll program file.lines
    { file with lines } :: fillAll program rest

namespace Assembly

def instructions (asm : Assembly) : List Instruction := asm.files.flatMap SourceFile.instructions

/-- Every byte with its address, in source order. -/
def bytes (asm : Assembly) : List (UInt16 × UInt8) :=
  asm.instructions.flatMap fun inst => addressed inst.address inst.bytes

/-- The cells that were written. -/
def memory (asm : Assembly) : Vector (Option UInt8) 0x10000 :=
  asm.bytes.foldl (fun cells (address, byte) => cells.set address.toNat (some byte) address.toNat_lt)
    (.replicate 0x10000 none)

def byteAt? (asm : Assembly) (address : UInt16) : Option UInt8 :=
  ((asm.bytes.filter (·.1 == address)).map (·.2)).getLast?

/-- Consecutive cells, `none` if one of them was never written. -/
def bytesAt? (asm : Assembly) (address : UInt16) (length : Nat) : Option (List UInt8) :=
  window asm.memory address length
where
  window (cells : Vector (Option UInt8) 0x10000) (address : UInt16) : Nat → Option (List UInt8)
    | 0 => some []
    | length + 1 =>
      match cells[address.toFin] with
      | none => none
      | some byte => (window cells (address + 1) length).map (byte :: ·)

/-- The whole memory, with zero in cells that were not written. -/
def image (asm : Assembly) : Vector UInt8 0x10000 :=
  asm.bytes.foldl (fun cells (address, byte) => cells.set address.toNat byte address.toNat_lt)
    (.replicate 0x10000 0)

end Assembly

def assemble (files : List SourceFile) : Except Diagnostic Assembly :=
  match Layout.run.apply (.ofFiles files) with
  | (.ok start, layout) => .ok ⟨SourceFile.fillAll layout.program files, start, layout.labels⟩
  | (.error failure, _) => .error failure

def assembleText (name text : String) : Except Diagnostic Assembly := do
  assemble [← SourceFile.parse name text]

end Micro65
