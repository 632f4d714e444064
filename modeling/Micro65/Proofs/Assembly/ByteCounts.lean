import Micro65.Proofs.Assembly.CursorWalk
import Micro65.Proofs.Assembly.Format

set_option autoImplicit false

/-!
How many bytes an instruction leaves. Sizes come from modes, bytes from values, and the two agree for
every operand that has a value. A register has none: a branch to a register is laid out with an offset
that is never emitted.
-/

namespace Micro65

namespace Instruction

variable {labels : Labels} {inst : Instruction}

/-- A branch whose target is a register. -/
def BranchesToRegister (inst : Instruction) : Prop :=
  inst.kind.isBranch = true ∧ ∃ which, inst.operand = some (.register which)

theorem Settled.branch_length (settled : inst.Settled labels) (complete : inst.Complete)
    (branch : inst.kind.isBranch = true) : inst.size = 2 ∧
      ((∃ which, inst.operand = some (.register which)) → inst.bytes.length = 1) ∧
      (¬(∃ which, inst.operand = some (.register which)) → inst.bytes.length = 2) := by
  obtain ⟨-, notBase, notData⟩ :=
    (Mnemonic.isDirective_eq_false_iff _).1 (Mnemonic.isDirective_of_branch branch)
  have takes : inst.operand.isSome = true := by
    rw [complete, Mnemonic.takesOperand, Mnemonic.isImplied_of_branch branch]
    rfl
  obtain ⟨operand, given⟩ := Option.isSome_iff_exists.1 takes
  obtain ⟨mode, chosen, -⟩ := settled.moded notBase notData operand given
  obtain ⟨code, rest, -, encoded, bytes⟩ := settled.opcode notBase notData
  have sized := (settled.measured.exact notBase notData).1
  rw [Mnemonic.size?_of_branch branch, Option.some.injEq] at sized
  simp only [given, Option.some.injEq]
  rcases operandBytes_cases chosen encoded with ⟨register, -, -, rfl⟩ |
    ⟨noRegister, -, expr, value, -, -, encoded⟩
  · refine ⟨sized.symm, fun _ => ?_, fun other => absurd register other⟩
    rw [bytes]
    rfl
  · refine ⟨sized.symm, ?_, fun _ => ?_⟩
    · rintro ⟨which, register⟩
      exact absurd register (noRegister which)
    · rw [bytes, List.length_cons, valueBytes_length_of_branch branch encoded]

theorem Settled.bytes_length (settled : inst.Settled labels) (complete : inst.Complete)
    (notStart : inst.kind ≠ .start) :
    (inst.BranchesToRegister → inst.bytes.length + 1 = inst.size) ∧
      (¬inst.BranchesToRegister → inst.bytes.length = inst.size) := by
  by_cases branch : inst.kind.isBranch = true
  · obtain ⟨size, register, other⟩ := settled.branch_length complete branch
    refine ⟨fun branches => ?_, fun branches => ?_⟩
    · rw [register branches.2, size]
    · rw [other fun register => branches ⟨branch, register⟩, size]
  · refine ⟨fun branches => absurd branches.1 branch, fun _ => ?_⟩
    rw [Bool.not_eq_true] at branch
    by_cases base : inst.kind = .base
    · rw [settled.bytes_eq_nil base, settled.measured.size_eq_zero base]
      rfl
    by_cases data : inst.kind = .data
    · obtain ⟨-, -, -, -, -, -, -, -, length⟩ := settled.data data
      exact length
    have directive := (Mnemonic.isDirective_eq_false_iff _).2 ⟨notStart, base, data⟩
    obtain ⟨code, value, -, -, -, size, -⟩ := settled.format complete directive branch
    exact size.symm

end Instruction

namespace Assembly

/-- Every instruction leaves as many bytes as its size says, and the next one starts after the last of
them, with one exception: a branch to a register leaves its opcode and nothing where its offset should
be. -/
theorem bytes_length_eq_size_iff {files : List SourceFile} {asm : Assembly}
    (parsed : ∀ file ∈ files, ∃ name text, SourceFile.parse name text = .ok file)
    (done : assemble files = .ok asm) :
    (∀ inst ∈ asm.instructions,
      (inst.bytes.length = inst.size ↔ ¬inst.BranchesToRegister) ∧
      (inst.BranchesToRegister → inst.size = 2 ∧ inst.bytes.length = 1)) ∧
    ∀ before inst next after, asm.instructions = before ++ inst :: next :: after →
      inst.kind ≠ .base → next.kind ≠ .base →
        (next.address.toNat = inst.address.toNat + inst.bytes.length ↔
          ¬inst.BranchesToRegister) := by
  obtain ⟨layout, settled, -, -, program, code, -⟩ := assemble_settled done
  have lengths : ∀ inst ∈ asm.instructions,
      (inst.bytes.length = inst.size ↔ ¬inst.BranchesToRegister) ∧
      (inst.BranchesToRegister → inst.size = 2 ∧ inst.bytes.length = 1) := by
    intro inst member
    obtain ⟨complete, notStart⟩ := forall_complete parsed code inst member
    have all := settled.settled inst (program ▸ member)
    obtain ⟨short, exact⟩ := all.bytes_length complete notStart
    refine ⟨⟨fun same branches => ?_, exact⟩, fun branches => ?_⟩
    · have shorter := short branches
      omega
    · obtain ⟨size, one, -⟩ := all.branch_length complete branches.1
      exact ⟨size, one branches.2⟩
  refine ⟨lengths, ?_⟩
  intro before inst next after split notBase nextNotBase
  have walk := settled.placed.cursorWalk settled.settled
  rw [← program, split] at walk
  obtain ⟨cursor, walk⟩ := walk.of_append
  have member : inst ∈ asm.instructions := by simp [split]
  rw [← (lengths inst member).1, walk.next notBase nextNotBase]
  omega

theorem bytes_length_eq_size_loop : ∃ file asm,
    SourceFile.parse "loop.asm" "START $00\nLDX $03\n@loop: DEC X\nBNE @loop\n" = .ok file ∧
    assemble [file] = .ok asm ∧
    ∀ inst ∈ asm.instructions, inst.bytes.length = inst.size ↔ ¬inst.BranchesToRegister := by
  have assembled : ∃ file,
      SourceFile.parse "loop.asm" "START $00\nLDX $03\n@loop: DEC X\nBNE @loop\n" = .ok file ∧
      ∃ asm, assemble [file] = .ok asm := by
    decide +kernel
  obtain ⟨file, parsed, asm, done⟩ := assembled
  have parsedAll := SourceFile.exists_parse_of_mem_singleton parsed
  exact ⟨file, asm, parsed, done, fun inst member =>
    ((bytes_length_eq_size_iff parsedAll done).1 inst member).1⟩

/-- The branch has a size of two bytes and leaves its opcode alone. -/
theorem bytes_length_of_branch_to_register : ∃ file asm,
    SourceFile.parse "branch.asm" "START $00\nBNE A\n" = .ok file ∧ assemble [file] = .ok asm ∧
    ∃ inst ∈ asm.instructions, inst.bytes.length ≠ inst.size := by
  have assembled : ∃ file, SourceFile.parse "branch.asm" "START $00\nBNE A\n" = .ok file ∧
      ∃ asm, assemble [file] = .ok asm ∧
        ∃ inst ∈ asm.instructions, inst.bytes = [0xD0] ∧ inst.size = 2 := by
    decide +kernel
  obtain ⟨file, parsed, asm, done, inst, member, bytes, size⟩ := assembled
  refine ⟨file, asm, parsed, done, inst, member, ?_⟩
  rw [bytes, size]
  decide

end Assembly
end Micro65
