import Micro65.Proofs.Assembly.Format
import Micro65.Proofs.Cpu.Step
import Micro65.Proofs.Devices.FlatMemory

set_option autoImplicit false

/-!
The processor on assembled instructions. What the assembler has written for an instruction the
processor takes up again, mnemonic, mode and operand, and it stands behind the last byte when it has
found the operand.
-/

namespace Micro65

namespace Exec

variable {δ μ : Type} [Device δ] [Monitor μ]

/-- The processor takes up an instruction as it was assembled. -/
structure TakesUp (labels : Labels) (memory : UInt16 → UInt8) (inst : Instruction) (core : Core δ μ)
    (operation : Operation) (value : UInt16) (place : Place) (extra : Nat) : Prop where
  /-- The first byte is looked up as the mnemonic and its mode. -/
  lookup : Operation.ofCode? (memory inst.address) = some operation
  shape : operation.shape = ⟨inst.kind, inst.fetchedMode⟩
  fetched : (fetchOperation : Exec δ μ Operation).run core = (operation, core.past 1)
  /-- With the operand found the program counter is past all bytes, and nothing else has changed. -/
  found : (operandOf operation : Exec δ μ (Place × Nat)).run (core.past 1) =
    ((place, extra), core.past (UInt16.ofNat inst.size))
  carried : ∀ expr, inst.param = some expr → expr.range labels = .ok (.point value.toNat)
  placed : ∀ mode, inst.fetchedMode = some mode →
    place = mode.place memory core.regs inst.address value
  /-- The cell of an immediate operand holds the value. -/
  immediate : inst.fetchedMode = some .imm → (memory (inst.address + 1)).toUInt16 = value
  /-- What is left of the step is to perform the operation. -/
  performed : (step : Exec δ μ (Mnemonic × Nat)).run core =
    (do
      let penalty ← perform operation.shape place
      return (operation.shape.kind, operation.cycles + extra + penalty) :
      Exec δ μ (Mnemonic × Nat)).run (core.past (UInt16.ofNat inst.size))

variable {labels : Labels} {memory : UInt16 → UInt8} {inst : Instruction} {core : Core δ μ}

/-- An instruction that has been laid out is taken up from any memory that carries its bytes. -/
theorem takesUp_of_carries (settled : inst.Settled labels) (complete : inst.Complete)
    (directive : inst.kind.isDirective = false) (branch : inst.kind.isBranch = false)
    (holds : core.board.Holds memory) (pc : core.regs.pc = inst.address)
    (carries : Carries memory inst.address inst.bytes) :
    ∃ operation value place extra, TakesUp labels memory inst core operation value place extra := by
  obtain ⟨code, value, encodes, evaluated, bytes, size, short⟩ :=
    settled.format complete directive branch
  rw [bytes] at carries
  obtain ⟨opcode, carries⟩ := carries
  have decoded := (Opcode.decode_encode_iff _ _ _).1 encodes
  rw [Instruction.canonical_eq branch] at decoded
  let shape : Shape := ⟨inst.kind, inst.fetchedMode⟩
  let operation : Operation := ⟨shape, shape.cycles⟩
  have lookup : Operation.ofCode? (memory inst.address) = some operation := by
    rw [opcode, Operation.ofCode?_eq, decoded]
    rfl
  have fetched : (fetchOperation : Exec δ μ Operation).run core = (operation, core.past 1) := by
    simp only [fetchOperation, run_bind, run_fetch holds, run_pure, pc, lookup, Option.getD_some]
  have holdsPast : (core.past 1).board.Holds memory := holds
  have next : (core.past 1).regs.pc = inst.address + 1 := by rw [Core.past_pc, pc]
  have operand : ∃ place extra,
      (operandOf operation : Exec δ μ (Place × Nat)).run (core.past 1) =
        ((place, extra), core.past (UInt16.ofNat inst.size)) ∧
      ∀ mode, inst.fetchedMode = some mode →
        place = mode.place memory core.regs inst.address value := by
    cases mode : inst.fetchedMode with
    | none =>
      -- Without a mode the operand is the accumulator, and the opcode is the only byte.
      have one : inst.size = 1 := by
        rw [size, bytes, mode]
        rfl
      refine ⟨.a, 0, ?_, by simp⟩
      rw [one, UInt16.ofNat_one]
      exact run_operandOf_none mode _
    | some fetchedMode =>
      have implied : inst.kind.isImplied = false := by
        by_contra implied
        rw [Bool.not_eq_false] at implied
        rw [Instruction.fetchedMode, if_pos implied] at mode
        cases mode
      rw [mode] at carries
      have found : ∃ extra, (operandOf operation : Exec δ μ (Place × Nat)).run (core.past 1) =
          ((fetchedMode.place memory core.regs inst.address value, extra),
            (core.past 1).past (UInt16.ofNat fetchedMode.operandLength)) :=
        run_operandOf_some holdsPast implied mode (short fetchedMode mode) next (next ▸ carries)
      obtain ⟨extra, found⟩ := found
      refine ⟨_, extra, ?_, by rintro _ ⟨⟩; rfl⟩
      have past : UInt16.ofNat inst.size = 1 + UInt16.ofNat fetchedMode.operandLength := by
        rw [size, bytes, mode, List.length_cons, Nat.add_comm, UInt16.ofNat_add, UInt16.ofNat_one]
        exact congrArg _ (congrArg _ (fetchedMode.length_bytes value))
      rw [past, ← Core.past_past]
      exact found
  obtain ⟨place, extra, found, placed⟩ := operand
  refine ⟨operation, value, place, extra, lookup, rfl, fetched, found, evaluated, placed, ?_,
    run_step branch fetched found⟩
  intro immediate
  rw [immediate] at carries
  exact (congrArg UInt8.toUInt16 carries.1).trans (toUInt16_toUInt8 (short .imm immediate rfl))

end Exec
/-- The processor takes up every assembled instruction that is no branch, from memory with any other
contents, with any registers, and under any monitor. -/
theorem takesUp_assembled {μ : Type} [Monitor μ] {files : List SourceFile} {asm : Assembly}
    (parsed : ∀ file ∈ files, ∃ name text, SourceFile.parse name text = .ok file)
    (done : assemble files = .ok asm) {inst : Instruction} (member : inst ∈ asm.instructions)
    (directive : inst.kind.isDirective = false) (branch : inst.kind.isBranch = false)
    {block : Block} (full : block.span.Full) {core : Core Peripheral μ}
    (memory : core.board.bus.devices = [.ram (block.put (addressed inst.address inst.bytes))])
    (pc : core.regs.pc = inst.address) :
    ∃ operation value place extra, Exec.TakesUp asm.labels
      (fun address => ((block.put (addressed inst.address inst.bytes)).get? address).getD 0x00) inst
      core operation value place extra := by
  obtain ⟨layout, settled, -, labels, program, code, -⟩ := assemble_settled done
  obtain ⟨complete, -⟩ := Assembly.forall_complete parsed code inst member
  have all : inst.Settled asm.labels := labels ▸ settled.settled inst (program ▸ member)
  have fits : inst.bytes.length ≤ 0x10000 := by
    obtain ⟨_, _, -, -, -, size, -⟩ := all.format complete directive branch
    obtain ⟨-, notBase, -⟩ := (Mnemonic.isDirective_eq_false_iff _).1 directive
    have small := (all.width notBase).2
    omega
  exact Exec.takesUp_of_carries all complete directive branch (Board.holds_of_memory memory) pc
    (Block.carries_put full fits)

/-- The whole address space. -/
def Span.whole : Span := ⟨0x0000, 0xFFFF, by decide⟩

theorem takesUp_assembled_or : ∃ file asm inst,
    SourceFile.parse "or.asm" "START $00\nORA [#$10] + Y\n" = .ok file ∧ assemble [file] = .ok asm ∧
    inst ∈ asm.instructions ∧
    ∃ operation value place extra, Exec.TakesUp asm.labels
      (fun address => (((Block.empty .whole).put (addressed inst.address inst.bytes)).get?
        address).getD 0x00) inst
      (⟨{ pc := inst.address }, { bus := { devices :=
        [.ram ((Block.empty .whole).put (addressed inst.address inst.bytes))] }, monitor := .silent }⟩ :
        Core Peripheral Silent) operation value place extra := by
  have assembled : ∃ file,
      SourceFile.parse "or.asm" "START $00\nORA [#$10] + Y\n" = .ok file ∧
      ∃ asm, assemble [file] = .ok asm ∧ ∃ inst ∈ asm.instructions, inst.kind = .ora := by
    decide +kernel
  obtain ⟨file, parsed, asm, done, inst, member, kind⟩ := assembled
  have parsedAll := SourceFile.exists_parse_of_mem_singleton parsed
  exact ⟨file, asm, inst, parsed, done, member, takesUp_assembled parsedAll done member
    (by rw [kind]; rfl) (by rw [kind]; rfl) ⟨rfl, rfl⟩ rfl rfl⟩

end Micro65
