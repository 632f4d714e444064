import Micro65.Cpu.Execute
import Micro65.Proofs.Cpu.Operand

set_option autoImplicit false

/-!
One step of the processor in its parts. An operation is fetched; a branch is taken or not, and of every
other operation the operand is found and the operation performed on it.
-/

namespace Micro65

namespace Exec

variable {δ μ : Type} [Device δ]

/-- The operation that the byte at the program counter stands for. -/
def fetchOperation : Exec δ μ Operation := do
  let code ← fetch
  return (Operation.ofCode? code).getD .undefined

theorem run_fetchOperation (core : Core δ μ) :
    (fetchOperation : Exec δ μ Operation).run core =
      ((Operation.ofCode? ((fetch : Exec δ μ UInt8).run core).1).getD .undefined,
        ((fetch : Exec δ μ UInt8).run core).2) := by
  unfold fetchOperation
  rw [run_bind, run_pure]

/-- The operand of an operation that is no branch. -/
def operandOf (operation : Operation) : Exec δ μ (Place × Nat) :=
  if operation.shape.kind.isImplied then pure (.a, 0) else operand operation.shape.mode

/-- An operation without a mode has the accumulator as its operand. -/
theorem run_operandOf_none {operation : Operation} (mode : operation.shape.mode = none)
    (core : Core δ μ) :
    (operandOf operation : Exec δ μ (Place × Nat)).run core = ((.a, 0), core) := by
  unfold operandOf
  split
  · rfl
  · rw [mode]
    rfl

theorem run_operandOf_some {core : Core δ μ} {memory : UInt16 → UInt8} {operation : Operation}
    {mode : Mode} {address value : UInt16} (holds : core.board.Holds memory)
    (implied : operation.shape.kind.isImplied = false) (shaped : operation.shape.mode = some mode)
    (short : mode.operandLength = 1 → value < 0x100) (pc : core.regs.pc = address + 1)
    (carries : Carries memory core.regs.pc (mode.bytes value)) :
    ∃ extra, (operandOf operation : Exec δ μ (Place × Nat)).run core =
      ((mode.place memory core.regs address value, extra),
        core.past (UInt16.ofNat mode.operandLength)) := by
  refine ⟨mode.penalty memory core.regs address value, ?_⟩
  simp only [operandOf, implied, Bool.false_eq_true, if_false, shaped]
  exact run_operand holds short pc carries

variable [Monitor μ]

/-- A step fetches an operation, finds its operand and performs it. -/
theorem run_step {core fetched found : Core δ μ} {operation : Operation} {place : Place} {extra : Nat}
    (branch : operation.shape.kind.isBranch = false)
    (first : (fetchOperation : Exec δ μ Operation).run core = (operation, fetched))
    (second : (operandOf operation : Exec δ μ (Place × Nat)).run fetched = ((place, extra), found)) :
    (step : Exec δ μ (Mnemonic × Nat)).run core =
      (do
        let penalty ← perform operation.shape place
        return (operation.shape.kind, operation.cycles + extra + penalty) :
        Exec δ μ (Mnemonic × Nat)).run found := by
  have code : (Operation.ofCode? ((fetch : Exec δ μ UInt8).run core).1).getD .undefined = operation :=
    (Prod.mk.inj first).1
  have rest : ((fetch : Exec δ μ UInt8).run core).2 = fetched := (Prod.mk.inj first).2
  unfold step
  rw [run_bind, code, rest]
  dsimp only
  rw [branch, if_neg Bool.false_ne_true]
  unfold operandOf at second
  by_cases implied : operation.shape.kind.isImplied = true
  · rw [if_pos implied] at second ⊢
    rw [run_bind, second]
  · rw [if_neg implied] at second ⊢
    rw [run_bind, second]

/-- A step that fetches a branch takes it or not. -/
theorem run_step_of_branch {core fetched : Core δ μ} {operation : Operation}
    (branches : operation.shape.kind.isBranch = true)
    (first : (fetchOperation : Exec δ μ Operation).run core = (operation, fetched)) :
    (step : Exec δ μ (Mnemonic × Nat)).run core =
      (do return (operation.shape.kind, operation.cycles + (← branch operation.shape.kind)) :
        Exec δ μ (Mnemonic × Nat)).run fetched := by
  have code : (Operation.ofCode? ((fetch : Exec δ μ UInt8).run core).1).getD .undefined = operation :=
    (Prod.mk.inj first).1
  have rest : ((fetch : Exec δ μ UInt8).run core).2 = fetched := (Prod.mk.inj first).2
  unfold step
  rw [run_bind, code, rest]
  dsimp only
  rw [branches, if_pos rfl]

/-- The answer of a step names what has been fetched. -/
theorem run_step_kind (core : Core δ μ) :
    ((step : Exec δ μ (Mnemonic × Nat)).run core).1.1 =
      ((fetchOperation : Exec δ μ Operation).run core).1.shape.kind := by
  have fetched := (Prod.eta ((fetchOperation : Exec δ μ Operation).run core)).symm
  generalize ((fetchOperation : Exec δ μ Operation).run core).1 = operation at fetched
  by_cases branches : operation.shape.kind.isBranch = true
  · rw [run_step_of_branch branches fetched]
    rfl
  · rw [Bool.not_eq_true] at branches
    rw [run_step branches fetched (Prod.eta _).symm]
    rfl

end Exec
end Micro65
