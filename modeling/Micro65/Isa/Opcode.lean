import Micro65.Isa.Mnemonic
import Micro65.Isa.Mode

set_option autoImplicit false

/-!
The opcode table and the sizes that follow from it. A shape is a mnemonic with its addressing mode;
implied instructions and branches have no mode. `decode_encode_iff` ties the two directions together.
-/

namespace Micro65

structure Shape where
  kind : Mnemonic
  mode : Option Mode
  deriving DecidableEq, Repr

namespace Opcode

/-- Opcode rows of one mnemonic. -/
def rows (kind : Mnemonic) (codes : List (Mode × UInt8)) : List (Shape × UInt8) :=
  codes.map fun (mode, code) => (⟨kind, some mode⟩, code)

/-- Rows of mnemonics without a mode. -/
def plainRows (codes : List (Mnemonic × UInt8)) : List (Shape × UInt8) :=
  codes.map fun (kind, code) => (⟨kind, none⟩, code)

/-- Every shape of the instruction set with its opcode byte. -/
def table : List (Shape × UInt8) := [
  plainRows [(.brk, 0x00)],
  rows .adc [(.imm, 0x69), (.abs, 0x6D), (.absX, 0x7D), (.absY, 0x79), (.zpg, 0x65), (.zpgX, 0x75),
    (.ind, 0x72), (.indX, 0x61), (.indY, 0x71)],
  rows .sbc [(.imm, 0xE9), (.abs, 0xED), (.absX, 0xFD), (.absY, 0xF9), (.zpg, 0xE5), (.zpgX, 0xF5),
    (.ind, 0xF2), (.indX, 0xE1), (.indY, 0xF1)],
  rows .and [(.imm, 0x29), (.abs, 0x2D), (.absX, 0x3D), (.absY, 0x39), (.zpg, 0x25), (.zpgX, 0x35),
    (.ind, 0x32), (.indX, 0x21), (.indY, 0x31)],
  rows .asl [(.abs, 0x0E), (.absX, 0x1E), (.zpg, 0x06), (.zpgX, 0x16), (.acc, 0x0A)],
  plainRows [(.bcc, 0x90), (.bcs, 0xB0), (.beq, 0xF0), (.bmi, 0x30), (.bne, 0xD0), (.bpl, 0x10),
    (.bra, 0x80), (.bvc, 0x50), (.bvs, 0x70)],
  rows .bit [(.imm, 0x89), (.abs, 0x2C), (.absX, 0x3C), (.zpg, 0x24), (.zpgX, 0x34)],
  plainRows [(.clc, 0x18), (.cld, 0xD8), (.cli, 0x58), (.clv, 0xB8), (.sec, 0x38), (.sed, 0xF8),
    (.sei, 0x78)],
  rows .cmp [(.imm, 0xC9), (.abs, 0xCD), (.absX, 0xDD), (.absY, 0xD9), (.zpg, 0xC5), (.zpgX, 0xD5),
    (.ind, 0xD2), (.indX, 0xC1), (.indY, 0xD1)],
  rows .cpx [(.imm, 0xE0), (.abs, 0xEC), (.zpg, 0xE4)],
  rows .cpy [(.imm, 0xC0), (.abs, 0xCC), (.zpg, 0xC4)],
  rows .dec [(.abs, 0xCE), (.absX, 0xDE), (.zpg, 0xC6), (.zpgX, 0xD6), (.acc, 0x3A), (.regX, 0xCA),
    (.regY, 0x88)],
  rows .inc [(.abs, 0xEE), (.absX, 0xFE), (.zpg, 0xE6), (.zpgX, 0xF6), (.acc, 0x1A), (.regX, 0xE8),
    (.regY, 0xC8)],
  rows .eor [(.imm, 0x49), (.abs, 0x4D), (.absX, 0x5D), (.absY, 0x59), (.zpg, 0x45), (.zpgX, 0x55),
    (.ind, 0x52), (.indX, 0x41), (.indY, 0x51)],
  rows .jmp [(.abs, 0x4C), (.ind, 0x6C), (.indX, 0x7C)],
  rows .jsr [(.abs, 0x20)],
  rows .lda [(.imm, 0xA9), (.abs, 0xAD), (.absX, 0xBD), (.absY, 0xB9), (.zpg, 0xA5), (.zpgX, 0xB5),
    (.ind, 0xB2), (.indX, 0xA1), (.indY, 0xB1)],
  rows .ldx [(.imm, 0xA2), (.abs, 0xAE), (.absY, 0xBE), (.zpg, 0xA6), (.zpgY, 0xB6)],
  rows .ldy [(.imm, 0xA0), (.abs, 0xAC), (.absX, 0xBC), (.zpg, 0xA4), (.zpgX, 0xB4)],
  rows .lsr [(.abs, 0x4E), (.absX, 0x5E), (.zpg, 0x46), (.zpgX, 0x56), (.acc, 0x4A)],
  plainRows [(.nop, 0xEA)],
  rows .ora [(.imm, 0x09), (.abs, 0x0D), (.absX, 0x1D), (.absY, 0x19), (.zpg, 0x05), (.zpgX, 0x15),
    (.ind, 0x12), (.indX, 0x01), (.indY, 0x11)],
  plainRows [(.pha, 0x48), (.php, 0x08), (.phx, 0xDA), (.pla, 0x68), (.plp, 0x28), (.plx, 0xFA),
    (.ply, 0x7A)],
  rows .rol [(.abs, 0x2E), (.absX, 0x3E), (.zpg, 0x26), (.zpgX, 0x36), (.acc, 0x2A)],
  rows .ror [(.abs, 0x6E), (.absX, 0x7E), (.zpg, 0x66), (.zpgX, 0x76), (.acc, 0x6A)],
  plainRows [(.rti, 0x40), (.rts, 0x60)],
  rows .sta [(.abs, 0x8D), (.absX, 0x9D), (.absY, 0x99), (.zpg, 0x85), (.zpgX, 0x95), (.indX, 0x81),
    (.indY, 0x91)],
  rows .sty [(.abs, 0x8C), (.zpg, 0x84), (.zpgX, 0x94)],
  rows .stx [(.abs, 0x8E), (.zpg, 0x86), (.zpgX, 0x96)],
  plainRows [(.tax, 0xAA), (.txa, 0x8A), (.tay, 0xA8), (.tya, 0x98), (.tsx, 0xBA), (.txs, 0x9A)]
].flatten

/-- The shape under which an instruction is looked up: implied instructions and branches drop the
mode, and `jsr` to page zero uses the absolute form. -/
def canonical (kind : Mnemonic) (mode : Option Mode) : Shape :=
  if kind.isImplied || kind.isBranch then ⟨kind, none⟩
  else if kind = .jsr ∧ mode = some .zpg then ⟨kind, some .abs⟩
  else ⟨kind, mode⟩

def encode (kind : Mnemonic) (mode : Option Mode) : Option UInt8 :=
  (table.find? fun row => row.1 == canonical kind mode).map (·.2)

def decode (code : UInt8) : Option Shape :=
  (table.find? fun row => row.2 == code).map (·.1)

end Opcode

/-- Size in bytes for a resolved addressing mode, `none` where the pair does not exist. Branches take
one offset byte whatever mode their target has. -/
def Mnemonic.size? (kind : Mnemonic) (mode : Option Mode) : Option Nat :=
  match kind with
  | .base | .start => some 0
  | .data => none
  | .jsr => if mode = some .abs ∨ mode = some .zpg then some 3 else none
  | kind =>
    if kind.isImplied then some 1
    else if kind.isBranch then some 2
    else do
      let mode ← mode
      let _ ← Opcode.encode kind mode
      some (1 + mode.operandLength)

end Micro65
