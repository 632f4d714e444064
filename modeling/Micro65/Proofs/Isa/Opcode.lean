import Mathlib.Data.List.Nodup
import Micro65.Asm.Layout.Encoding

set_option autoImplicit false

/-!
The opcode table in both directions. No shape and no byte is in the table twice, so encoding and
decoding are membership in it, and each undoes the other. Sizes stay within what their mnemonic allows
while its mode is open.
-/

namespace Micro65

/-- The first entry with a key is the only one, if no key is in the list twice. -/
theorem find?_key_eq_some_iff {κ ρ : Type} [BEq κ] [LawfulBEq κ] {key : ρ → κ} {entries : List ρ}
    (distinct : (entries.map key).Nodup) (wanted : κ) (entry : ρ) :
    (entries.find? fun other => key other == wanted) = some entry ↔
      entry ∈ entries ∧ key entry = wanted := by
  induction entries with
  | nil => simp
  | cons first rest inductionHypothesis =>
    rw [List.map_cons, List.nodup_cons] at distinct
    rw [List.find?_cons, List.mem_cons]
    by_cases here : key first = wanted
    · rw [beq_iff_eq.2 here]
      constructor
      · rintro ⟨⟩
        exact ⟨.inl rfl, here⟩
      · rintro ⟨rfl | member, same⟩
        · rfl
        · exact absurd (List.mem_map_of_mem member) (same.trans here.symm ▸ distinct.1)
    · rw [beq_eq_false_iff_ne.2 here]
      rw [inductionHypothesis distinct.2]
      constructor
      · rintro ⟨member, same⟩
        exact ⟨.inr member, same⟩
      · rintro ⟨rfl | member, same⟩
        · exact absurd same here
        · exact ⟨member, same⟩

namespace Mode

theorem operandLength_le (mode : Mode) : mode.operandLength ≤ 2 := by cases mode <;> decide

/-- The bytes that carry a value behind the opcode. -/
def bytes (mode : Mode) (value : UInt16) : List UInt8 :=
  match mode.operandLength with
  | 0 => []
  | 1 => [value.toUInt8]
  | _ => littleEndian value

section Bytes

variable {mode : Mode} (value : UInt16)

theorem bytes_of_zero (zero : mode.operandLength = 0) : mode.bytes value = [] := by
  rw [bytes, zero]
  rfl

theorem bytes_of_one (one : mode.operandLength = 1) : mode.bytes value = [value.toUInt8] := by
  rw [bytes, one]
  rfl

theorem bytes_of_two (two : mode.operandLength = 2) : mode.bytes value = littleEndian value := by
  rw [bytes, two]
  rfl

end Bytes

theorem length_bytes (mode : Mode) (value : UInt16) :
    (mode.bytes value).length = mode.operandLength := by
  cases mode <;> rfl

end Mode

namespace Opcode

theorem shapes_distinct : (table.map (·.1)).Nodup := by decide +kernel

theorem codes_distinct : (table.map (·.2)).Nodup := by
  -- Numbers are compared faster than bytes.
  have numbers : ((table.map (·.2)).map UInt8.toNat).Nodup := by decide +kernel
  exact numbers.of_map _

theorem encode_eq_some_iff (kind : Mnemonic) (mode : Option Mode) (code : UInt8) :
    encode kind mode = some code ↔ (canonical kind mode, code) ∈ table := by
  unfold encode
  rw [Option.map_eq_some_iff]
  constructor
  · rintro ⟨row, found, rfl⟩
    obtain ⟨member, same⟩ := (find?_key_eq_some_iff shapes_distinct _ _).1 found
    rw [← same]
    exact member
  · intro member
    exact ⟨_, (find?_key_eq_some_iff shapes_distinct _ _).2 ⟨member, rfl⟩, rfl⟩

theorem decode_eq_some_iff (code : UInt8) (shape : Shape) :
    decode code = some shape ↔ (shape, code) ∈ table := by
  unfold decode
  rw [Option.map_eq_some_iff]
  constructor
  · rintro ⟨row, found, rfl⟩
    obtain ⟨member, same⟩ := (find?_key_eq_some_iff codes_distinct _ _).1 found
    rw [← same]
    exact member
  · intro member
    exact ⟨_, (find?_key_eq_some_iff codes_distinct _ _).2 ⟨member, rfl⟩, rfl⟩

/-- A byte encodes an instruction exactly if it decodes to the shape of the instruction. -/
theorem decode_encode_iff (kind : Mnemonic) (mode : Option Mode) (code : UInt8) :
    encode kind mode = some code ↔ decode code = some (canonical kind mode) := by
  rw [encode_eq_some_iff, decode_eq_some_iff]

theorem canonical_of_operand {kind : Mnemonic} {mode : Option Mode} (jsr : kind ≠ .jsr)
    (implied : kind.isImplied = false) (branch : kind.isBranch = false) :
    canonical kind mode = ⟨kind, mode⟩ := by
  simp [canonical, jsr, implied, branch]

/-- Only instructions whose smallest size is one byte have a register as their operand. -/
theorem sizeRange_of_register : ∀ row ∈ table, ∀ mode ∈ row.1.mode, mode.isRegister = true →
    row.1.kind.sizeRange = (1, 3) := by decide +kernel

end Opcode

namespace Mnemonic

variable {kind : Mnemonic} {mode : Option Mode} {size : Nat}

theorem isDirective_eq_false_iff (kind : Mnemonic) :
    kind.isDirective = false ↔ kind ≠ .start ∧ kind ≠ .base ∧ kind ≠ .data := by
  cases kind <;> decide

theorem isDirective_of_branch (branch : kind.isBranch = true) : kind.isDirective = false := by
  cases kind <;> first | rfl | contradiction

theorem isImplied_of_branch (branch : kind.isBranch = true) : kind.isImplied = false := by
  cases kind <;> first | rfl | contradiction

theorem sizeRange_of_implied (implied : kind.isImplied = true) : kind.sizeRange = (1, 1) := by
  cases kind <;> first | rfl | contradiction

theorem sizeRange_of_branch (branch : kind.isBranch = true) : kind.sizeRange = (2, 2) := by
  cases kind <;> first | rfl | contradiction

theorem sizeRange_of_operand (directive : kind.isDirective = false) (jsr : kind ≠ .jsr)
    (implied : kind.isImplied = false) (branch : kind.isBranch = false) :
    kind.sizeRange = (1, 3) ∨ kind.sizeRange = (2, 3) := by
  cases kind <;> first | exact .inl rfl | exact .inr rfl | contradiction

theorem size?_of_implied (implied : kind.isImplied = true) : kind.size? mode = some 1 := by
  cases kind <;> first | rfl | contradiction

theorem size?_of_branch (branch : kind.isBranch = true) : kind.size? mode = some 2 := by
  cases kind <;> first | rfl | contradiction

theorem size?_jsr_eq_some_iff :
    jsr.size? mode = some size ↔ (mode = some .abs ∨ mode = some .zpg) ∧ size = 3 := by
  simp [size?, eq_comm]

/-- The mode of an instruction that is neither implied nor a branch decides its size. -/
theorem size?_eq_some_iff (directive : kind.isDirective = false) (jsr : kind ≠ .jsr)
    (implied : kind.isImplied = false) (branch : kind.isBranch = false) :
    kind.size? mode = some size ↔
      ∃ resolved code, mode = some resolved ∧ Opcode.encode kind (some resolved) = some code ∧
        size = 1 + resolved.operandLength := by
  unfold size?
  split
  · contradiction
  · contradiction
  · contradiction
  · contradiction
  · simp only [implied, branch, Bool.false_eq_true, if_false, Option.bind_eq_bind,
      Option.bind_eq_some_iff, Option.some.injEq, eq_comm (b := size)]
    constructor
    · rintro ⟨resolved, rfl, code, encoded, sized⟩
      exact ⟨resolved, code, rfl, encoded, sized⟩
    · rintro ⟨resolved, code, rfl, encoded, sized⟩
      exact ⟨resolved, rfl, code, encoded, sized⟩

/-- What has a size without a mode has it with every mode. -/
theorem size?_of_none (bare : kind.size? none = some size) : kind.size? mode = some size := by
  cases kind <;> first | exact bare | contradiction

/-- An exact size is one of those that were possible while the mode was open. -/
theorem size?_within (found : kind.size? mode = some size) :
    kind.sizeRange.1 ≤ size ∧ size ≤ kind.sizeRange.2 := by
  by_cases directive : kind.isDirective = true
  · cases kind <;> simp_all [size?, sizeRange, isDirective]
  by_cases jsr : kind = .jsr
  · subst jsr
    obtain ⟨-, rfl⟩ := size?_jsr_eq_some_iff.1 found
    exact ⟨Nat.le_refl 3, Nat.le_refl 3⟩
  by_cases implied : kind.isImplied = true
  · rw [size?_of_implied implied, Option.some.injEq] at found
    rw [sizeRange_of_implied implied, ← found]
    exact ⟨Nat.le_refl 1, Nat.le_refl 1⟩
  by_cases branch : kind.isBranch = true
  · rw [size?_of_branch branch, Option.some.injEq] at found
    rw [sizeRange_of_branch branch, ← found]
    exact ⟨Nat.le_refl 2, Nat.le_refl 2⟩
  rw [Bool.not_eq_true] at directive implied branch
  obtain ⟨resolved, code, rfl, encoded, rfl⟩ :=
    (size?_eq_some_iff directive jsr implied branch).1 found
  have short := resolved.operandLength_le
  rcases sizeRange_of_operand directive jsr implied branch with sizes | sizes
  · rw [sizes]
    dsimp only
    omega
  · -- A register as operand would be in a row whose smallest size is one.
    have long : resolved.operandLength ≠ 0 := by
      intro none
      have row := (Opcode.encode_eq_some_iff _ _ _).1 encoded
      rw [Opcode.canonical_of_operand jsr implied branch] at row
      have smallest := Opcode.sizeRange_of_register _ row resolved rfl
        ((Mode.operandLength_eq_zero_iff resolved).1 none)
      rw [sizes] at smallest
      contradiction
    rw [sizes]
    dsimp only
    omega

end Mnemonic
end Micro65
