import Micro65.Proofs.Assembly.ByteCounts
import Micro65.Proofs.Assembly.Stores

set_option autoImplicit false

/-!
The end of memory. A layout checks where each instruction starts and not where it ends; the bytes of an
instruction that crosses the end of memory go on at its start. Such an instruction is the last of the
program or stands before a `BASE` line: whatever else came next would start outside the address space.
-/

namespace Micro65

theorem toNat_add_ofNat {address : UInt16} {position : Nat} (small : position ≤ 0x10000) :
    (address + UInt16.ofNat position).toNat = if address.toNat + position < 0x10000 then
      address.toNat + position else address.toNat + position - 0x10000 := by
  have bounded := address.toNat_lt
  simp only [UInt16.toNat_add, UInt16.toNat_ofNat']
  split <;> omega

namespace Instruction

variable {labels : Labels} {inst : Instruction}

/-- The last byte of the instruction lies before the end of memory. -/
def InSpace (inst : Instruction) : Prop := inst.address.toNat + inst.bytes.length ≤ 0x10000

theorem inSpace_of_bytes_eq_nil (empty : inst.bytes = []) : inst.InSpace := by
  have bounded := inst.address.toNat_lt
  unfold InSpace
  rw [empty, List.length_nil]
  omega

/-- An instruction that stays in the address space stores nothing before its own address. -/
theorem inSpace_iff_forall_store (short : inst.bytes.length ≤ 0x10000) :
    inst.InSpace ↔
      ∀ address ∈ (addressed inst.address inst.bytes).map (·.1), inst.address ≤ address := by
  simp only [mem_addressed_iff, UInt16.le_iff_toNat_le]
  constructor
  · rintro inSpace address ⟨position, inside, rfl⟩
    unfold InSpace at inSpace
    rw [toNat_add_ofNat (by omega), if_pos (by omega)]
    omega
  · intro stored
    by_contra crosses
    have bounded := inst.address.toNat_lt
    unfold InSpace at crosses
    -- The last byte is the one that has wrapped.
    have last := stored _ ⟨inst.bytes.length - 1, by omega, rfl⟩
    rw [toNat_add_ofNat (by omega), if_neg (by omega)] at last
    omega

/-- The bytes of a short instruction reach no further than the first cells. -/
theorem store_low_or_high (short : inst.bytes.length ≤ 3) :
    ∀ address ∈ (addressed inst.address inst.bytes).map (·.1),
      inst.address ≤ address ∨ address < 2 := by
  simp only [mem_addressed_iff, UInt16.le_iff_toNat_le, UInt16.lt_iff_toNat_lt]
  rintro address ⟨position, inside, rfl⟩
  have bounded := inst.address.toNat_lt
  change _ ∨ _ < 2
  rw [toNat_add_ofNat (by omega)]
  split <;> omega

theorem Settled.bytes_length_le (settled : inst.Settled labels) (complete : inst.Complete)
    (notStart : inst.kind ≠ .start) : inst.bytes.length ≤ inst.size := by
  obtain ⟨shorter, same⟩ := settled.bytes_length complete notStart
  by_cases branches : inst.BranchesToRegister
  · have length := shorter branches
    omega
  · exact Nat.le_of_eq (same branches)

theorem Settled.bytes_length_le_three (settled : inst.Settled labels) (complete : inst.Complete)
    (notStart : inst.kind ≠ .start) : inst.bytes.length ≤ 3 := by
  by_cases base : inst.kind = .base
  · rw [settled.bytes_eq_nil base]
    decide
  · exact Nat.le_trans (settled.bytes_length_le complete notStart) (settled.width base).2

end Instruction

namespace Assembly

/-- A program stays in the address space exactly if the instructions do that nothing follows at their
end; an instruction with another directly behind it always does. One that does not wraps around and
stores in the first two cells of memory, and nowhere else before its own address. -/
theorem forall_inSpace_iff {files : List SourceFile} {asm : Assembly}
    (parsed : ∀ file ∈ files, ∃ name text, SourceFile.parse name text = .ok file)
    (done : assemble files = .ok asm) :
    ((∀ inst ∈ asm.instructions, inst.InSpace) ↔
      ∀ before inst after, asm.instructions = before ++ inst :: after →
        (∀ next ∈ after.head?, next.kind = .base) → inst.InSpace) ∧
    (∀ before inst next after, asm.instructions = before ++ inst :: next :: after →
      next.kind ≠ .base → inst.InSpace) ∧
    ∀ inst ∈ asm.instructions,
      (inst.InSpace ↔
        ∀ address ∈ (addressed inst.address inst.bytes).map (·.1), inst.address ≤ address) ∧
      ∀ address ∈ (addressed inst.address inst.bytes).map (·.1),
        inst.address ≤ address ∨ address < 2 := by
  obtain ⟨layout, settled, -, -, program, code, -⟩ := assemble_settled done
  have each : ∀ inst ∈ asm.instructions,
      inst.Settled layout.labels ∧ inst.Complete ∧ inst.kind ≠ .start := fun inst member =>
    ⟨settled.settled inst (program ▸ member), forall_complete parsed code inst member⟩
  have followed : ∀ before inst next after, asm.instructions = before ++ inst :: next :: after →
      next.kind ≠ .base → inst.InSpace := by
    intro before inst next after split nextNotBase
    obtain ⟨alone, complete, notStart⟩ := each inst (by simp [split])
    by_cases base : inst.kind = .base
    · exact Instruction.inSpace_of_bytes_eq_nil (alone.bytes_eq_nil base)
    · have walk := settled.placed.cursorWalk settled.settled
      rw [← program, split] at walk
      obtain ⟨cursor, walk⟩ := walk.of_append
      have start := walk.next base nextNotBase
      have bounded := next.address.toNat_lt
      have length := alone.bytes_length_le complete notStart
      unfold Instruction.InSpace
      omega
  refine ⟨⟨fun all before inst after split _ => all inst (by simp [split]), fun ends => ?_⟩,
    followed, fun inst member => ?_⟩
  · intro inst member
    obtain ⟨before, after, split⟩ := List.append_of_mem member
    cases after with
    | nil => exact ends before inst [] split (by simp)
    | cons next after =>
      by_cases base : next.kind = .base
      · exact ends before inst (next :: after) split (by simp [base])
      · exact followed before inst next after split base
  · obtain ⟨alone, complete, notStart⟩ := each inst member
    have short := alone.bytes_length_le_three complete notStart
    exact ⟨Instruction.inSpace_iff_forall_store (by omega), Instruction.store_low_or_high short⟩

/-- The last instruction fills the last three cells. -/
theorem forall_inSpace_vectors : ∃ file asm,
    SourceFile.parse "vectors.asm" "START $00\nBASE $FFFC\nNOP\nLDA #$1234\n" = .ok file ∧
    assemble [file] = .ok asm ∧
    ∀ before inst next after, asm.instructions = before ++ inst :: next :: after →
      next.kind ≠ .base → inst.InSpace := by
  have assembled : ∃ file,
      SourceFile.parse "vectors.asm" "START $00\nBASE $FFFC\nNOP\nLDA #$1234\n" = .ok file ∧
      ∃ asm, assemble [file] = .ok asm := by
    decide +kernel
  obtain ⟨file, parsed, asm, done⟩ := assembled
  have parsedAll := SourceFile.exists_parse_of_mem_singleton parsed
  exact ⟨file, asm, parsed, done, (forall_inSpace_iff parsedAll done).2.1⟩

/-- A word in the last cell: its high byte goes to the first cell. -/
theorem not_inSpace_of_word_at_end : ∃ file asm,
    SourceFile.parse "word.asm" "START $00\nBASE $FFFF\nDATA $1234\n" = .ok file ∧
    assemble [file] = .ok asm ∧
    (∃ inst ∈ asm.instructions, inst.bytes ≠ [] ∧
      ¬inst.address.toNat + inst.bytes.length ≤ 0x10000) ∧
    (0x0000, 0x12) ∈ asm.bytes := by
  have assembled : ∃ file,
      SourceFile.parse "word.asm" "START $00\nBASE $FFFF\nDATA $1234\n" = .ok file ∧
      ∃ asm, assemble [file] = .ok asm ∧
        (∃ inst ∈ asm.instructions, inst.address = 0xFFFF ∧ inst.bytes = [0x34, 0x12]) ∧
        (0x0000, 0x12) ∈ asm.bytes := by
    decide +kernel
  obtain ⟨file, parsed, asm, done, ⟨inst, member, address, bytes⟩, first⟩ := assembled
  refine ⟨file, asm, parsed, done, ⟨inst, member, ?_, ?_⟩, first⟩
  · simp [bytes]
  · rw [address, bytes]
    decide

end Assembly
end Micro65
