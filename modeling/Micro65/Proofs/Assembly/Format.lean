import Micro65.Proofs.Assembly.Filling
import Micro65.Proofs.Layout.Emission
import Micro65.Proofs.Source.Operands

set_option autoImplicit false

/-!
The format of an instruction that has been laid out: the byte of its opcode, then the value of its
parameter in as many bytes as the mode has under which the processor knows it.
-/

namespace Micro65

namespace Instruction

variable {labels : Labels} {inst : Instruction}

/-- An instruction of the processor leaves its opcode and what its parameter says. -/
theorem Settled.opcode (settled : inst.Settled labels) (notBase : inst.kind ≠ .base)
    (notData : inst.kind ≠ .data) : ∃ code rest, Opcode.encode inst.kind inst.mode = some code ∧
      encode.operandBytes labels inst inst.param = .ok rest ∧ inst.bytes = code :: rest := by
  rcases encode_cases settled.encoded with ⟨base, -⟩ | ⟨data, -⟩ | ⟨-, -, found⟩
  · exact absurd base notBase
  · exact absurd data notData
  · exact found

/-- The mode under which the processor knows an instruction. -/
def fetchedMode (inst : Instruction) : Option Mode :=
  if inst.kind.isImplied then none
  else if inst.kind = .jsr ∧ inst.mode = some .zpg then some .abs
  else inst.mode

theorem canonical_eq (branch : inst.kind.isBranch = false) :
    Opcode.canonical inst.kind inst.mode = ⟨inst.kind, inst.fetchedMode⟩ := by
  unfold Opcode.canonical fetchedMode
  rw [branch, Bool.or_false]
  split
  · rfl
  · split <;> rfl

/-- The size of an instruction with an operand is the one that its mode has for the processor. -/
theorem fetchedMode_eq_some {mode : Mode} (directive : inst.kind.isDirective = false)
    (implied : inst.kind.isImplied = false) (branch : inst.kind.isBranch = false)
    (moded : inst.mode = some mode) (sized : inst.kind.size? inst.mode = some inst.size) :
    ∃ fetched, inst.fetchedMode = some fetched ∧ fetched.isRegister = mode.isRegister ∧
      inst.size = 1 + fetched.operandLength := by
  unfold fetchedMode
  rw [implied, if_neg Bool.false_ne_true]
  by_cases jsr : inst.kind = .jsr
  · rw [jsr, Mnemonic.size?_jsr_eq_some_iff, moded, Option.some.injEq, Option.some.injEq] at sized
    obtain ⟨rfl | rfl, size⟩ := sized
    · exact ⟨.abs, by simp [moded], rfl, size⟩
    · exact ⟨.abs, by simp [moded, jsr], rfl, size⟩
  · obtain ⟨resolved, _, same, -, size⟩ :=
      (Mnemonic.size?_eq_some_iff directive jsr implied branch).1 sized
    rw [moded, Option.some.injEq] at same
    subst same
    exact ⟨mode, by simp [jsr, moded], rfl, size⟩

/-- A parameter leaves the bytes of its value in a mode that has room for them. -/
theorem operandBytes_eq {mode fetched : Mode} {operand : Expr} {rest : List UInt8}
    (branch : inst.kind.isBranch = false) (notData : inst.kind ≠ .data)
    (chosen : operand.mode labels = .ok (mode, inst.param))
    (alike : fetched.isRegister = mode.isRegister) (size : inst.size = 1 + fetched.operandLength)
    (encoded : encode.operandBytes labels inst inst.param = .ok rest) :
    ∃ value : UInt16,
      (∀ expr, inst.param = some expr → expr.range labels = .ok (.point value.toNat)) ∧
      rest = fetched.bytes value ∧ (fetched.operandLength = 1 → value < 0x100) := by
  have zero := fetched.operandLength_eq_zero_iff
  have bound := fetched.operandLength_le
  rcases operandBytes_cases chosen encoded with ⟨-, register, bare, rfl⟩ |
    ⟨-, register, expr, value, given, evaluated, encoded⟩
  · have empty := zero.2 (alike.trans register)
    exact ⟨0, by simp [bare], (Mode.bytes_of_zero 0 empty).symm, by simp [empty]⟩
  · rw [alike, register, eq_false Bool.false_ne_true, iff_false] at zero
    have bounds : 0 ≤ value ∧ value ≤ 0xFFFF ∧ (fetched.operandLength = 1 → value < 0x100) ∧
        rest = fetched.bytes value.toNat.toUInt16 := by
      rcases valueBytes_cases encoded with ⟨branch', -⟩ | ⟨-, low, small, short, rfl⟩ |
        ⟨-, low, high, long, rfl⟩
      · rw [branch] at branch'
        contradiction
      · have one : fetched.operandLength = 1 := by
          have two := short.resolve_left notData
          omega
        exact ⟨low, by omega, fun _ => small, (Mode.bytes_of_one _ one).symm⟩
      · have two : fetched.operandLength = 2 := by
          have large := (long.resolve_left fun data => notData data.1).2
          omega
        exact ⟨low, high, by omega, (Mode.bytes_of_two _ two).symm⟩
    obtain ⟨low, high, small, bytes⟩ := bounds
    have same := toNat_toUInt16_of_bounded low high
    refine ⟨value.toNat.toUInt16, ?_, bytes, fun one => ?_⟩
    · intro other given'
      rw [given, Option.some.injEq] at given'
      rw [← given', same, evaluated]
    · have bound := small one
      rw [UInt16.lt_iff_toNat_lt]
      change _ < 256
      omega

/-- The format of an instruction that is no directive and no branch: its opcode, and the value of its
parameter in the bytes that its mode has for it. -/
theorem Settled.format (settled : inst.Settled labels) (complete : inst.Complete)
    (directive : inst.kind.isDirective = false) (branch : inst.kind.isBranch = false) :
    ∃ (code : UInt8) (value : UInt16), Opcode.encode inst.kind inst.mode = some code ∧
      (∀ expr, inst.param = some expr → expr.range labels = .ok (.point value.toNat)) ∧
      inst.bytes = code :: inst.fetchedMode.elim [] (·.bytes value) ∧
      inst.size = inst.bytes.length ∧
      ∀ mode, inst.fetchedMode = some mode → mode.operandLength = 1 → value < 0x100 := by
  obtain ⟨-, notBase, notData⟩ := (Mnemonic.isDirective_eq_false_iff _).1 directive
  obtain ⟨code, rest, encodes, encoded, bytes⟩ := settled.opcode notBase notData
  have sized := (settled.measured.exact notBase notData).1
  by_cases implied : inst.kind.isImplied = true
  · have missing : inst.operand = none := by
      rw [← Option.not_isSome_iff_eq_none, complete, Mnemonic.takesOperand, implied]
      decide
    have bare := settled.bare missing
    have fetched : inst.fetchedMode = none := if_pos implied
    rw [Mnemonic.size?_of_implied implied, Option.some.injEq] at sized
    rcases (operandBytes_eq_ok_iff _ _ _ _).1 encoded with ⟨-, rfl⟩ | ⟨expr, -, given, -⟩
    · refine ⟨code, 0, encodes, by simp [bare], ?_, ?_, by simp [fetched]⟩
      · rw [bytes, fetched]
        rfl
      · rw [bytes, ← sized]
        rfl
    · rw [bare] at given
      contradiction
  · rw [Bool.not_eq_true] at implied
    have takes : inst.operand.isSome = true := by
      rw [complete, Mnemonic.takesOperand, implied]
      rfl
    obtain ⟨operand, given⟩ := Option.isSome_iff_exists.1 takes
    obtain ⟨mode, chosen, moded⟩ := settled.moded notBase notData operand given
    obtain ⟨fetched, same, alike, size⟩ := fetchedMode_eq_some directive implied branch moded sized
    obtain ⟨value, evaluated, rfl, short⟩ :=
      operandBytes_eq branch notData chosen alike size encoded
    refine ⟨code, value, encodes, evaluated, by rw [bytes, same]; rfl, ?_, ?_⟩
    · rw [bytes, List.length_cons, Mode.length_bytes, size, Nat.add_comm]
    · rw [same]
      rintro _ ⟨⟩
      exact short

end Instruction

/-- In a program of parsed sources that is laid out every instruction has the operand that it takes. -/
theorem Assembly.forall_complete {files : List SourceFile} {program : List Instruction}
    (parsed : ∀ file ∈ files, ∃ name text, SourceFile.parse name text = .ok file)
    (code : program.map Layout.unplaced =
      (laidOut (files.flatMap SourceFile.instructions)).map Layout.unplaced) :
    ∀ inst ∈ program, inst.Complete ∧ inst.kind ≠ .start := by
  refine Layout.forall_of_code code Iff.rfl ?_
  intro inst member
  obtain ⟨member, kind⟩ := List.mem_filter.1 member
  obtain ⟨file, fileMember, member⟩ := List.mem_flatMap.1 member
  obtain ⟨name, text, parsed⟩ := parsed file fileMember
  exact ⟨SourceFile.parse_complete parsed inst member, by simpa using kind⟩

end Micro65
