import Micro65.Proofs.Expr.Modes
import Micro65.Proofs.Layout.Settled

set_option autoImplicit false

/-!
The bytes of an instruction. Encoding an operand takes one byte or two, by its value and by the size
that has been laid out; which of the two it is agrees with the size unless a branch has no parameter.
-/

namespace Micro65

namespace Instruction

variable {labels : Labels} {inst : Instruction} {bytes : List UInt8}

theorem pointValue_eq_ok_iff (labels : Labels) (expr : Expr) (value : Int) :
    pointValue labels expr = .ok value ↔ expr.range labels = .ok (.point value) := by
  unfold pointValue
  cases evaluated : expr.range labels with
  | error failure => simp [bind, Except.bind]
  | ok range =>
    simp only [bind, Except.bind, Except.ok.injEq]
    rw [← Interval.value?_eq_some_iff]
    cases range.value? <;> simp [pure, Except.pure, throw, throwThe, MonadExceptOf.throw]

theorem operandBytes_eq_ok_iff (labels : Labels) (inst : Instruction) (param : Option Expr)
    (bytes : List UInt8) : encode.operandBytes labels inst param = .ok bytes ↔
      (param = none ∧ bytes = []) ∨
      ∃ expr value, param = some expr ∧ expr.range labels = .ok (.point value) ∧
        inst.valueBytes value = .ok bytes := by
  cases param with
  | none => simp [encode.operandBytes, eq_comm]
  | some expr =>
    have one : encode.operandBytes labels inst (some expr) = .ok bytes ↔
        ∃ value, pointValue labels expr = .ok value ∧ inst.valueBytes value = .ok bytes :=
      except_bind_eq_ok_iff _ _ _
    simp [one, pointValue_eq_ok_iff]

/-- Nothing follows the opcode for a register, and else what the value of the parameter leaves. -/
theorem operandBytes_cases {mode : Mode} {operand : Expr}
    (chosen : operand.mode labels = .ok (mode, inst.param))
    (encoded : encode.operandBytes labels inst inst.param = .ok bytes) :
    ((∃ which, operand = .register which) ∧ mode.isRegister = true ∧ inst.param = none ∧
      bytes = []) ∨
    ((∀ which, operand ≠ .register which) ∧ mode.isRegister = false ∧ ∃ expr value,
      inst.param = some expr ∧ expr.range labels = .ok (.point value) ∧
      inst.valueBytes value = .ok bytes) := by
  rcases Expr.mode_param chosen with ⟨which, bare, register⟩ | ⟨other, carried, register⟩
  · rcases (operandBytes_eq_ok_iff _ _ _ _).1 encoded with ⟨-, empty⟩ | ⟨expr, -, given, -⟩
    · exact .inl ⟨which, register, bare, empty⟩
    · rw [bare] at given
      contradiction
  · rcases (operandBytes_eq_ok_iff _ _ _ _).1 encoded with ⟨missing, -⟩ | found
    · rw [missing] at carried
      contradiction
    · exact .inr ⟨other, register, found⟩

/-- Everything but `BASE` and `DATA` starts with the byte of its mnemonic and its mode. -/
theorem encode_cases (encoded : inst.encode labels = .ok bytes) :
    (inst.kind = .base ∧ bytes = []) ∨
    (inst.kind = .data ∧ encode.operandBytes labels inst inst.operand = .ok bytes) ∨
    (inst.kind ≠ .base ∧ inst.kind ≠ .data ∧ ∃ code rest,
      Opcode.encode inst.kind inst.mode = some code ∧
      encode.operandBytes labels inst inst.param = .ok rest ∧ bytes = code :: rest) := by
  unfold encode at encoded
  split at encoded
  next kind => exact .inl ⟨kind, (Except.ok.inj encoded).symm⟩
  next kind => exact .inr (.inl ⟨kind, encoded⟩)
  next notBase notData =>
    split at encoded
    · contradiction
    next code found =>
      rw [except_bind_eq_ok_iff] at encoded
      obtain ⟨rest, operand, done⟩ := encoded
      exact .inr (.inr ⟨notBase, notData, code, rest, found, operand, (Except.ok.inj done).symm⟩)

theorem valueBytes_cases {value : Int} (encoded : inst.valueBytes value = .ok bytes) :
    (inst.kind.isBranch = true ∧ ∃ offset, branchOffset inst.address value = .ok offset ∧
      bytes = [offset]) ∨
    (inst.kind.isBranch = false ∧ 0 ≤ value ∧ value < 0x100 ∧ (inst.kind = .data ∨ inst.size = 2) ∧
      bytes = [value.toNat.toUInt16.toUInt8]) ∨
    (inst.kind.isBranch = false ∧ 0 ≤ value ∧ value ≤ 0xFFFF ∧
      (inst.kind = .data ∧ 0x100 ≤ value ∨ inst.kind ≠ .data ∧ inst.size ≠ 2) ∧
      bytes = littleEndian value.toNat.toUInt16) := by
  unfold valueBytes at encoded
  split at encoded
  next branch =>
    rw [except_bind_eq_ok_iff] at encoded
    obtain ⟨offset, reached, done⟩ := encoded
    exact .inl ⟨branch, offset, reached, (Except.ok.inj done).symm⟩
  next notBranch =>
    rw [Bool.not_eq_true] at notBranch
    split at encoded
    · contradiction
    next bounded =>
      rw [Decidable.not_not] at bounded
      dsimp only at encoded
      split at encoded
      next short =>
        exact .inr (.inl ⟨notBranch, bounded.1, short.1, short.2, (Except.ok.inj encoded).symm⟩)
      next notShort =>
        split at encoded
        · contradiction
        next notSingle =>
          refine .inr (.inr ⟨notBranch, bounded.1, bounded.2, ?_, (Except.ok.inj encoded).symm⟩)
          by_cases data : inst.kind = .data
          · exact .inl ⟨data, by simpa [data] using notShort⟩
          · exact .inr ⟨data, by simpa [data] using notSingle⟩

theorem valueBytes_length_of_branch {value : Int} (branch : inst.kind.isBranch = true)
    (encoded : inst.valueBytes value = .ok bytes) : bytes.length = 1 := by
  rcases valueBytes_cases encoded with ⟨-, offset, -, rfl⟩ | ⟨other, -⟩ | ⟨other, -⟩
  · rfl
  · rw [branch] at other
    contradiction
  · rw [branch] at other
    contradiction

/-- What follows the opcode of an instruction that is no branch. -/
theorem valueBytes_length {value : Int} (branch : inst.kind.isBranch = false)
    (encoded : inst.valueBytes value = .ok bytes) :
    (inst.kind = .data → bytes.length = if value < 0x100 then 1 else 2) ∧
      (inst.kind ≠ .data → bytes.length = if inst.size = 2 then 1 else 2) := by
  rcases valueBytes_cases encoded with ⟨branch', -⟩ | ⟨-, -, small, short, rfl⟩ | ⟨-, -, -, long, rfl⟩
  · rw [branch] at branch'
    contradiction
  · refine ⟨fun _ => (if_pos small).symm, fun notData => ?_⟩
    rw [if_pos (short.resolve_left notData)]
    rfl
  · rcases long with ⟨data, large⟩ | ⟨notData, large⟩
    · refine ⟨fun _ => ?_, fun notData => absurd data notData⟩
      rw [if_neg (by omega)]
      rfl
    · refine ⟨fun data => absurd data notData, fun _ => ?_⟩
      rw [if_neg large]
      rfl

theorem Settled.bytes_eq_nil (settled : inst.Settled labels) (base : inst.kind = .base) :
    inst.bytes = [] := by
  rcases encode_cases settled.encoded with ⟨-, empty⟩ | ⟨data, -⟩ | ⟨notBase, -⟩
  · exact empty
  · rw [base] at data
    contradiction
  · contradiction

theorem Settled.data (settled : inst.Settled labels) (data : inst.kind = .data) :
    ∃ operand value, inst.operand = some operand ∧ operand.range labels = .ok (.point value) ∧
      0 ≤ value ∧ value ≤ 0xFFFF ∧ inst.size = (if value < 0x100 then 1 else 2) ∧
      inst.sizeRange = .point inst.size ∧ inst.bytes.length = inst.size := by
  obtain ⟨operand, range, given, evaluated, bounded, sizes⟩ :=
    (dataSize_eq_ok_iff _ _ _).1 (settled.fits data)
  rcases encode_cases settled.encoded with ⟨base, -⟩ | ⟨-, encoded⟩ | ⟨-, notData, -⟩
  · rw [data] at base
    contradiction
  · rcases (operandBytes_eq_ok_iff _ _ _ _).1 encoded with ⟨missing, -⟩ |
      ⟨expr, value, given', evaluated', encoded⟩
    · rw [given] at missing
      contradiction
    · rw [given, Option.some.injEq] at given'
      subst given'
      rw [evaluated', Except.ok.injEq] at evaluated
      subst evaluated
      rw [Interval.within_iff] at bounded
      have width : inst.sizeRange = .point (dataWidth value) := sizes
      have sized := settled.sized.dataBytes data
      rw [width, dataBytes, if_pos (Interval.isPoint_point _)] at sized
      have size : inst.size = if value < 0x100 then 1 else 2 := by
        rw [← sized, Interval.point, dataWidth]
        split <;> rfl
      refine ⟨operand, value, given, evaluated', bounded.1, bounded.2, size, ?_, ?_⟩
      · rw [width, size, dataWidth]
        split <;> rfl
      · rw [(valueBytes_length (by rw [data]; rfl) encoded).1 data, size]
  · contradiction

/-- Sizes are exact, and small. -/
theorem Settled.width (settled : inst.Settled labels) (notBase : inst.kind ≠ .base) :
    inst.sizeRange = .point inst.size ∧ inst.size ≤ 3 := by
  by_cases data : inst.kind = .data
  · obtain ⟨_, value, -, -, -, -, size, width, -⟩ := settled.data data
    refine ⟨width, ?_⟩
    split at size <;> omega
  · obtain ⟨found, width⟩ := settled.measured.exact notBase data
    refine ⟨width, Nat.le_trans (Mnemonic.size?_within found).2 ?_⟩
    cases inst.kind <;> decide

end Instruction
end Micro65
