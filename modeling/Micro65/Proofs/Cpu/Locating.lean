import Micro65.Proofs.Cpu.Stack
import Micro65.Proofs.Cpu.Writes

set_option autoImplicit false

/-!
Steps on one byte. The operand of an instruction is found by reads alone, and of the registers only the
program counter moves. With the byte that is found there an addition changes accumulator and flags; a
change in place leaves its result where the operand was, if that is a register or memory.
-/

namespace Micro65

variable {δ μ α β : Type} [Device δ]

theorem Core.Shows.still {allowed : Access → Prop} {core other : Core δ μ}
    (same : other.devices = core.devices) : core.Shows allowed other :=
  ⟨[], nofun, same.trans (List.map_id' _).symm⟩

namespace Exec

/-- An action without writes shows nothing but reads to the devices. -/
theorem Writes.reads [Monitor μ] {program : Exec δ μ α} (quiet : program.Writes 0 0) (core : Core δ μ) :
    core.Shows Access.IsRead (program.run core).2 := by
  suffices all : ∀ {low high : Nat} {α : Type} {program : Exec δ μ α}, program.Writes low high →
      high = 0 → ∀ core : Core δ μ, core.Shows Access.IsRead (program.run core).2 from all quiet rfl core
  intro low high α program writes none
  induction writes with
  | pure | regs | update => exact fun core => .still rfl
  | read address => exact fun core => .single (.read address) trivial (read_devices core address)
  | write address data => contradiction
  | bind first rest inductionHypothesis inductionHypothesis' =>
    intro core
    obtain ⟨none, none'⟩ := Nat.add_eq_zero_iff.1 none
    exact (inductionHypothesis none core).trans (inductionHypothesis' _ none' _)
  | mono low high fewer more writes inductionHypothesis =>
    exact inductionHypothesis (Nat.le_zero.1 (none ▸ more))

theorem write_devices [Monitor μ] (core : Core δ μ) (address : UInt16) (data : UInt8) :
    ((write address data : Exec δ μ Unit).run core).2.devices =
      core.devices.map (Device.after · (.write address data)) :=
  Bus.writeDevices_fst address data core.devices

theorem load_regs (place : Place) (core : Core δ μ) :
    ((load place : Exec δ μ UInt8).run core).2.regs = core.regs := by
  cases place <;> rfl

/-! ### Operands -/

/-- Finds the operand of the instruction at the program counter. -/
def locate : Exec δ μ Place := do
  let operation ← fetchOperation
  let (place, _) ← operandOf operation
  return place

theorem writes_locate [Monitor μ] : (locate : Exec δ μ Place).Writes 0 0 :=
  (writes_fetch.after fun _ => .pure _).after fun _ => (writes_operandOf _).after fun _ => .pure _

theorem operandOf_regs (operation : Operation) (core : Core δ μ) :
    ∃ pc, ((operandOf operation : Exec δ μ (Place × Nat)).run core).2.regs = { core.regs with pc } := by
  obtain ⟨⟨kind, mode⟩, cycles⟩ := operation
  unfold operandOf
  split
  · exact ⟨_, rfl⟩
  cases mode with
  | none => exact ⟨_, rfl⟩
  | some mode => cases mode <;> exact ⟨_, rfl⟩

theorem run_locate (core : Core δ μ) :
    let fetched := (fetchOperation : Exec δ μ Operation).run core
    let found := (operandOf fetched.1 : Exec δ μ (Place × Nat)).run fetched.2
    (locate : Exec δ μ Place).run core = (found.1.1, found.2) := by
  unfold locate
  rw [run_bind, run_bind, run_pure]

theorem locate_regs (core : Core δ μ) :
    ∃ pc, ((locate : Exec δ μ Place).run core).2.regs = { core.regs with pc } := by
  have opened : ((fetchOperation : Exec δ μ Operation).run core).2 =
      ((fetch : Exec δ μ UInt8).run core).2 := by
    rw [run_fetchOperation]
  rw [run_locate]
  dsimp only
  rw [opened]
  obtain ⟨pc, moved⟩ := operandOf_regs ((fetchOperation : Exec δ μ Operation).run core).1
    ((fetch : Exec δ μ UInt8).run core).2
  exact ⟨pc, moved.trans (by rw [fetch_regs])⟩

end Exec

namespace Core

variable (core : Core δ μ)

/-- Where the next instruction has its operand. -/
def place : Place := ((Exec.locate : Exec δ μ Place).run core).1

/-- The core when it has found the operand of its next instruction. -/
def located : Core δ μ := ((Exec.locate : Exec δ μ Place).run core).2

/-- The operand of the next instruction. -/
def operandByte : UInt8 := ((Exec.load core.place : Exec δ μ UInt8).run core.located).1

/-- What the next instruction leaves in the place of its operand. -/
def result [Monitor μ] (core : Core δ μ) : UInt8 :=
  ((Exec.load core.place : Exec δ μ UInt8).run core.next).1

instance [Monitor μ] (core : Core δ μ) (kind : Mnemonic) : Decidable (core.Executes kind) :=
  inferInstanceAs (Decidable (_ = kind))

/-- The operand of the next instruction is in a register or in memory. -/
def Keeps (ram : Block → δ) : Prop :=
  ∀ address, core.place = .memory address → ∃ value, Serves ram address value core.devices

end Core

/-! ### Steps -/

namespace Mnemonic

/-- What is added to the accumulator, with the carry, by an operand. -/
def addend? : Mnemonic → Option (UInt8 → UInt8)
  | .adc => some id
  | .sbc => some (~~~·)
  | _ => none

/-- How an operand is changed in place. -/
def change? : Mnemonic → Option Change
  | .asl => some .shiftLeft
  | .lsr => some .shiftRight
  | .rol => some .rotateLeft
  | .ror => some .rotateRight
  | .inc => some .increment
  | .dec => some .decrement
  | _ => none

theorem isBranch_of_addend? {kind : Mnemonic} {addend : UInt8 → UInt8} (adds : kind.addend? = some addend) :
    kind.isBranch = false := by
  cases kind <;> first | rfl | contradiction

theorem isBranch_of_change? {kind : Mnemonic} {change : Change} (changes : kind.change? = some change) :
    kind.isBranch = false := by
  cases kind <;> first | rfl | contradiction

end Mnemonic

namespace Exec

variable [Monitor μ] {kind : Mnemonic}

theorem perform_of_addend {addend : UInt8 → UInt8} (adds : kind.addend? = some addend)
    (mode : Option Mode) (place : Place) (found : Core δ μ) :
    ((perform ⟨kind, mode⟩ place : Exec δ μ Nat).run found).2.regs =
      found.regs.add (addend ((load place : Exec δ μ UInt8).run found).1) := by
  rw [← load_regs place found]
  cases kind with
  | adc | sbc =>
    cases adds
    rfl
  | _ => contradiction

theorem perform_of_change {change : Change} (changes : kind.change? = some change)
    (mode : Option Mode) (place : Place) (found : Core δ μ) :
    ((perform ⟨kind, mode⟩ place : Exec δ μ Nat).run found).2 =
      ((Exec.change place change : Exec δ μ Unit).run found).2 := by
  cases kind with
  | asl | lsr | rol | ror | inc | dec =>
    cases changes
    rfl
  | _ => contradiction

theorem change_result {ram : Block → δ} (isRam : IsRam ram) (kind : Change) (place : Place)
    (found : Core δ μ)
    (keeps : ∀ address, place = .memory address → ∃ value, Serves ram address value found.devices) :
    let after := ((change place kind : Exec δ μ Unit).run found).2
    let changed := kind.apply found.regs.p ((load place : Exec δ μ UInt8).run found).1
    ((load place : Exec δ μ UInt8).run after).1 = changed.1 ∧
      after.regs.p = changed.2.follow changed.1 := by
  cases place with
  | a | x | y => exact ⟨rfl, rfl⟩
  | memory address =>
    obtain ⟨value, serves⟩ := keeps address rfl
    refine ⟨read_answer _ isRam ?_, rfl⟩
    let loaded := ((read address : Exec δ μ UInt8).run found).2
    have kept : Serves ram address value loaded.devices := by
      rw [read_devices]
      exact serves.after_read isRam address
    have written := kept.after_write isRam address (kind.apply found.regs.p
      ((load (.memory address) : Exec δ μ UInt8).run found).1).1
    rw [if_pos rfl] at written
    exact (write_devices loaded address _).symm ▸ written

variable {core : Core δ μ}

/-- A step that is no branch performs its instruction on the operand that it finds. -/
theorem next_of_located (executes : core.Executes kind) (branch : kind.isBranch = false) :
    ∃ mode, core.next = ((perform ⟨kind, mode⟩ core.place : Exec δ μ Nat).run core.located).2 := by
  rw [Core.Executes, run_step_kind] at executes
  rw [Core.place, Core.located, run_locate]
  cases fetched : (fetchOperation : Exec δ μ Operation).run core with
  | mk operation opened =>
    rw [fetched] at executes
    obtain rfl : operation.shape.kind = kind := executes
    refine ⟨operation.shape.mode, ?_⟩
    rw [Core.next, run_step branch fetched (Prod.eta _).symm]
    rfl

/-- An addition takes the operand to the accumulator. -/
theorem next_of_addend {addend : UInt8 → UInt8} (executes : core.Executes kind)
    (adds : kind.addend? = some addend) :
    let sum := core.regs.add (addend core.operandByte)
    core.next.regs.a = sum.a ∧ core.next.regs.p = sum.p := by
  obtain ⟨mode, next⟩ := next_of_located executes (Mnemonic.isBranch_of_addend? adds)
  obtain ⟨pc, moved⟩ := locate_regs core
  have located : core.located.regs = { core.regs with pc } := by rw [Core.located, moved]
  rw [next, perform_of_addend adds, located]
  exact ⟨rfl, rfl⟩

/-- A change in place leaves its result where the operand was. The flags come from the status before, but
for zero and negative, which follow the result. -/
theorem next_of_change {ram : Block → δ} (isRam : IsRam ram) {change : Change}
    (executes : core.Executes kind) (changes : kind.change? = some change) (keeps : core.Keeps ram) :
    let changed := change.apply core.regs.p core.operandByte
    core.result = changed.1 ∧ core.next.regs.p = changed.2.follow changed.1 := by
  obtain ⟨mode, next⟩ := next_of_located executes (Mnemonic.isBranch_of_change? changes)
  have reads : core.Shows Access.IsRead core.located := writes_locate.reads core
  obtain ⟨pc, moved⟩ := locate_regs core
  have status : core.located.regs.p = core.regs.p := by rw [Core.located, moved]
  rw [Core.result, next, perform_of_change changes, ← status]
  refine change_result isRam change core.place core.located fun address place => ?_
  obtain ⟨value, serves⟩ := keeps address place
  exact ⟨value, reads.serves isRam serves⟩

end Exec
end Micro65
