import Micro65.Proofs.Cpu.Step

set_option autoImplicit false

/-!
The next instruction as memory has it. Where reading changes nothing, the byte at the program counter
gives the operation, the bytes behind it give the operand, and nothing of the step depends on how they
are read.
-/

namespace Micro65

/-! ### Values behind an opcode -/

namespace Mode

variable (mode : Mode) (memory : UInt16 → UInt8) (address : UInt16)

/-- The value that an instruction at `address` carries. -/
def valueAt : UInt16 :=
  match mode.operandLength with
  | 0 => 0
  | 1 => (memory (address + 1)).toUInt16
  | _ => wordOf (memory (address + 1)) (memory (address + 2))

theorem valueAt_lt (one : mode.operandLength = 1) : mode.valueAt memory address < 0x100 := by
  simp only [valueAt, one]
  rw [UInt16.lt_iff_toNat_lt, UInt8.toNat_toUInt16]
  exact UInt8.toNat_lt _

theorem carries_valueAt :
    Exec.Carries memory (address + 1) (mode.bytes (mode.valueAt memory address)) := by
  by_cases zero : mode.operandLength = 0
  · rw [bytes_of_zero _ zero]
    trivial
  by_cases one : mode.operandLength = 1
  · simp only [bytes_of_one _ one, valueAt, one]
    exact ⟨(UInt8.toUInt8_toUInt16 _).symm, trivial⟩
  have two : mode.operandLength = 2 := by
    have bound := mode.operandLength_le
    omega
  simp only [bytes_of_two _ two, valueAt, two, littleEndian_wordOf]
  exact ⟨rfl, congrArg memory (UInt16.add_assoc address 1 1), trivial⟩

end Mode

/-! ### Operations -/

namespace Operation

/-- The operation of an opcode. -/
def ofCode (code : UInt8) : Operation := (ofCode? code).getD undefined

/-- An operation is in the table, with its declared cycles, or undefined. -/
theorem ofCode_cases {motive : Operation → Prop}
    (rows : ∀ row ∈ Opcode.table, motive ⟨row.1, row.1.cycles⟩) (none : motive undefined)
    (code : UInt8) : motive (ofCode code) := by
  rw [ofCode, ofCode?_eq]
  cases decoded : Opcode.decode code with
  | none => exact none
  | some shape => exact rows _ ((Opcode.decode_eq_some_iff _ _).1 decoded)

/-- The operation whose opcode is stored at an address. -/
def stored (memory : UInt16 → UInt8) (address : UInt16) : Operation := ofCode (memory address)

/-- Neither implied instructions nor branches have a mode. -/
theorem mode_of_plain (memory : UInt16 → UInt8) (address : UInt16) :
    (stored memory address).shape.kind.isImplied = true ∨
        (stored memory address).shape.kind.isBranch = true →
      (stored memory address).shape.mode = none := by
  unfold stored
  exact ofCode_cases (motive := fun operation => operation.shape.kind.isImplied = true ∨
    operation.shape.kind.isBranch = true → operation.shape.mode = none) (by decide +kernel)
    (fun _ => rfl) (memory address)

/-- Where an operation at the program counter has its operand. Without a mode this is the accumulator. -/
def place (operation : Operation) (memory : UInt16 → UInt8) (regs : Registers) : Place :=
  match operation.shape.mode with
  | some mode => mode.place memory regs regs.pc (mode.valueAt memory regs.pc)
  | none => .a

/-- What finding the operand costs. -/
def operandPenalty (operation : Operation) (memory : UInt16 → UInt8) (regs : Registers) : Nat :=
  match operation.shape.mode with
  | some mode => mode.penalty memory regs regs.pc (mode.valueAt memory regs.pc)
  | none => 0

/-- Bytes of an operation that is no branch. -/
def length (operation : Operation) : Nat :=
  1 + (operation.shape.mode.map Mode.operandLength).getD 0

end Operation

namespace Exec

variable {δ μ : Type} [Device δ] {core : Core δ μ} {memory : UInt16 → UInt8}

theorem run_fetchOperation_of_holds (holds : core.board.Holds memory) :
    (fetchOperation : Exec δ μ Operation).run core = (.stored memory core.regs.pc, core.past 1) := by
  rw [run_fetchOperation, run_fetch holds]
  rfl

/-- The operand of the stored operation is found where memory says, at the cost that memory says. -/
theorem run_operandOf_stored (holds : core.board.Holds memory) :
    let operation := Operation.stored memory core.regs.pc
    (operandOf operation : Exec δ μ (Place × Nat)).run (core.past 1) =
      ((operation.place memory core.regs, operation.operandPenalty memory core.regs),
        core.past (UInt16.ofNat operation.length)) := by
  have plain := Operation.mode_of_plain memory core.regs.pc
  dsimp only
  generalize Operation.stored memory core.regs.pc = operation at plain
  unfold Operation.place Operation.operandPenalty Operation.length
  cases shaped : operation.shape.mode with
  | none => exact run_operandOf_none shaped _
  | some mode =>
    have implied : operation.shape.kind.isImplied = false := by
      rw [← Bool.not_eq_true]
      intro implied
      rw [plain (.inl implied)] at shaped
      contradiction
    have past : core.past (UInt16.ofNat (1 + mode.operandLength)) =
        (core.past 1).past (UInt16.ofNat mode.operandLength) := by
      rw [Core.past_past, UInt16.ofNat_add, UInt16.ofNat_one]
    have holdsPast : (core.past 1).board.Holds memory := holds
    have next : (core.past 1).regs.pc = core.regs.pc + 1 := rfl
    have found := run_operand holdsPast (mode.valueAt_lt memory core.regs.pc) next
      (mode.carries_valueAt memory core.regs.pc)
    simp only [operandOf, implied, Bool.false_eq_true, if_false, shaped]
    exact found.trans (congrArg _ past.symm)

variable [Monitor μ]

/-- A step that is no branch performs the stored operation behind its last byte. -/
theorem run_step_stored (holds : core.board.Holds memory)
    (branch : (Operation.stored memory core.regs.pc).shape.kind.isBranch = false) :
    let operation := Operation.stored memory core.regs.pc
    (step : Exec δ μ (Mnemonic × Nat)).run core =
      (do
        let penalty ← perform operation.shape (operation.place memory core.regs)
        return (operation.shape.kind,
          operation.cycles + operation.operandPenalty memory core.regs + penalty) :
        Exec δ μ (Mnemonic × Nat)).run (core.past (UInt16.ofNat operation.length)) :=
  run_step branch (run_fetchOperation_of_holds holds) (run_operandOf_stored holds)

end Exec
end Micro65
