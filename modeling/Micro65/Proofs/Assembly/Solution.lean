import Micro65.Proofs.Assembly.CursorWalk
import Micro65.Proofs.Assembly.Filling

set_option autoImplicit false

/-!
Assemblies as solutions of the layout equations. Whatever modes and sizes were guessed on the way, the
program that comes out is the one that its own label table asks for, instruction by instruction.
-/

namespace Micro65

/-- The layout equations between the sources of an assembly and what has come out of them. -/
structure Assembly.Solves (asm : Assembly) (files : List SourceFile) : Prop where
  /-- The instructions are those of the sources, all but the `START` lines, in the same order. -/
  code : asm.instructions.map Layout.unplaced =
    (laidOut (files.flatMap SourceFile.instructions)).map Layout.unplaced
  walk : CursorWalk asm.labels (some 0) asm.instructions
  labelled : ∀ inst ∈ asm.instructions, inst.kind ≠ .base → ∀ name, inst.label = some name →
    asm.labels.get? name = some (.point inst.address.toNat)
  moded : ∀ inst ∈ asm.instructions, inst.kind.isDirective = false → ∀ operand,
    inst.operand = some operand →
      ∃ mode, operand.mode asm.labels = .ok (mode, inst.param) ∧ inst.mode = some mode
  sized : ∀ inst ∈ asm.instructions, inst.kind.isDirective = false →
    inst.kind.size? inst.mode = some inst.size
  data : ∀ inst ∈ asm.instructions, inst.kind = .data → ∃ operand value,
    inst.operand = some operand ∧ operand.range asm.labels = .ok (.point value) ∧ 0 ≤ value ∧
      value ≤ 0xFFFF ∧ inst.size = if value < 0x100 then 1 else 2
  start : ∃ operand position,
    ((files.flatMap SourceFile.instructions).filterMap Instruction.start?).getLast? =
      some (operand, position) ∧
    operand.range asm.labels = .ok (.point asm.start.toNat)

theorem Layout.startAddress_eq_ok {layout : Layout} {start : UInt16}
    (started : layout.startAddress = .ok start) : ∃ operand position,
      layout.start = some (operand, position) ∧
        operand.range layout.labels = .ok (.point start.toNat) := by
  unfold startAddress at started
  split at started
  · contradiction
  next operand position given =>
    refine ⟨operand, position, given, ?_⟩
    rw [locate_eq_ok_iff, except_bind_eq_ok_iff] at started
    obtain ⟨range, evaluated, started⟩ := started
    rw [evaluated]
    split at started
    next address point =>
      rw [Interval.value?_eq_some_iff] at point
      subst point
      split at started
      next bounded =>
        cases started
        rw [toNat_toUInt16_of_bounded bounded.1 bounded.2]
      next => contradiction
    next => contradiction

/-- An assembly that succeeds solves the layout equations of its sources. -/
theorem assemble_solves {files : List SourceFile} {asm : Assembly} (done : assemble files = .ok asm) :
    asm.Solves files := by
  obtain ⟨layout, settled, started, labels, program, code, starts⟩ := assemble_settled done
  obtain ⟨-, placed, all⟩ := settled
  rw [← labels, ← program] at placed all
  obtain ⟨operand, position, given, evaluated⟩ := Layout.startAddress_eq_ok started
  refine ⟨code, placed.cursorWalk all, ?_, ?_, ?_, ?_, operand, position, starts ▸ given,
    labels ▸ evaluated⟩
  · intro inst member notBase name label
    rw [placed.labelled inst member notBase name label, (all inst member).located notBase]
  · intro inst member directive
    obtain ⟨-, notBase, notData⟩ := (Mnemonic.isDirective_eq_false_iff _).1 directive
    exact (all inst member).moded notBase notData
  · intro inst member directive
    obtain ⟨-, notBase, notData⟩ := (Mnemonic.isDirective_eq_false_iff _).1 directive
    exact ((all inst member).measured.exact notBase notData).1
  · intro inst member data
    obtain ⟨operand, value, given, evaluated, low, high, size, -⟩ := (all inst member).data data
    exact ⟨operand, value, given, evaluated, low, high, size⟩

/-- The width of the data decides where the labels are on which it depends. -/
theorem assemble_solves_forward : ∃ file asm,
    SourceFile.parse "forward.asm"
      "START @main\nBASE $FE\n@table: DATA @end\n@main: LDX @table\n@end: DEC X\n" = .ok file ∧
    assemble [file] = .ok asm ∧ asm.Solves [file] := by
  have assembled : ∃ file,
      SourceFile.parse "forward.asm"
        "START @main\nBASE $FE\n@table: DATA @end\n@main: LDX @table\n@end: DEC X\n" = .ok file ∧
      ∃ asm, assemble [file] = .ok asm := by
    decide +kernel
  obtain ⟨file, parsed, asm, done⟩ := assembled
  exact ⟨file, asm, parsed, done, assemble_solves done⟩

end Micro65
