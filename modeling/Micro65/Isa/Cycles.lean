import Micro65.Isa.Opcode

set_option autoImplicit false

/-!
Declared cycles per instruction shape, and the operation that each opcode byte stands for.
-/

namespace Micro65

/-- Cycles after the tick that fetches the opcode, before any penalty. -/
def Shape.cycles (shape : Shape) : Nat :=
  match shape.kind, shape.mode with
  | .brk, _ => 6
  | .jsr, _ | .rti, _ | .rts, _ => 5
  | .pha, _ | .php, _ | .phx, _ => 2
  | .pla, _ | .plp, _ | .plx, _ | .ply, _ => 3
  | .jmp, some .abs => 2
  | .jmp, _ => 5
  | kind, mode =>
    if kind.isBranch || kind.isImplied then 1
    else match kind, mode with
      | .asl, mode | .lsr, mode | .inc, mode | .dec, mode => modify mode 5
      | .rol, mode | .ror, mode => modify mode 6
      | .sta, some .absX | .sta, some .absY => 4
      | .sta, some .indX | .sta, some .indY => 5
      | _, mode => access mode
where
  /-- Instructions that read a cell and write it back. -/
  modify (mode : Option Mode) (absoluteX : Nat) : Nat :=
    match mode with
    | some .acc | some .regX | some .regY => 1
    | some .zpg => 4
    | some .absX => absoluteX
    | _ => 5
  access (mode : Option Mode) : Nat :=
    match mode with
    | some .zpg => 2
    | some .abs | some .absX | some .absY | some .zpgX | some .zpgY => 3
    | some .ind | some .indY => 4
    | some .indX => 5
    | _ => 1

structure Operation where
  shape : Shape
  cycles : Nat
  deriving DecidableEq, Repr

namespace Operation

/-- All opcode bytes, looked up once. -/
def table : Vector (Option Operation) 256 :=
  Vector.ofFn fun code : Fin 256 =>
    (Opcode.decode (UInt8.ofFin code)).map fun shape => ⟨shape, shape.cycles⟩

def ofCode? (code : UInt8) : Option Operation :=
  table[code.toFin]

theorem ofCode?_eq (code : UInt8) :
    ofCode? code = (Opcode.decode code).map fun shape => ⟨shape, shape.cycles⟩ := by
  change (Vector.ofFn _)[code.toFin.val] = _
  simp

/-- Bytes outside the instruction set do nothing, in one cycle. -/
def undefined : Operation := ⟨⟨.nop, none⟩, 1⟩

end Operation
end Micro65
