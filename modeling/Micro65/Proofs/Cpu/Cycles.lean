import Micro65.Proofs.Cpu.Decoding
import Micro65.Proofs.Cpu.Locating
import Micro65.Proofs.Cpu.Ticks
import Micro65.Proofs.Devices.FlatMemory

set_option autoImplicit false

/-!
What instructions and interrupt sequences cost. The tick that starts one of them sets the counter to the
cycles that the table declares and the penalties of index, decimal mode and branch; every tick after it
takes one off and does nothing else. The counter never holds more than seven.
-/

namespace Micro65

/-! ### Costs -/

namespace Operation

/-- The operation adds to the accumulator, which decimal mode makes longer. -/
def adds (operation : Operation) : Bool :=
  operation.shape.kind == .adc || operation.shape.kind == .sbc

def decimalPenalty (operation : Operation) (regs : Registers) : Nat :=
  if operation.adds = true ∧ regs.p.has .decimal = true then 1 else 0

/-- A branch that is taken costs one cycle, and another if its target and the instruction behind it lie
on different pages. -/
def branchPenalty (operation : Operation) (memory : UInt16 → UInt8) (regs : Registers) : Nat :=
  let next := regs.pc + 2
  let target := next + (memory (regs.pc + 1)).toInt8.toInt16.toUInt16
  if operation.shape.kind.isBranch = true ∧ regs.p.branches operation.shape.kind = true then
    if pageOf next = pageOf target then 1 else 2
  else 0

/-- Ticks of an operation at the program counter after the first one. -/
def cost (operation : Operation) (memory : UInt16 → UInt8) (regs : Registers) : Nat :=
  operation.cycles + operation.operandPenalty memory regs + operation.decimalPenalty regs +
    operation.branchPenalty memory regs

theorem decimalPenalty_le (operation : Operation) (regs : Registers) :
    operation.decimalPenalty regs ≤ operation.adds.toNat := by
  unfold decimalPenalty
  split
  next both =>
    rw [both.1]
    decide
  next => exact Nat.zero_le _

/-- No branch adds. -/
theorem decimalPenalty_of_branch {operation : Operation} (regs : Registers)
    (branches : operation.shape.kind.isBranch = true) : operation.decimalPenalty regs = 0 := by
  obtain ⟨⟨kind, mode⟩, cycles⟩ := operation
  cases kind <;> first | rfl | contradiction

/-- The most that finding the operand can cost. -/
def mostPenalty (operation : Operation) : Nat :=
  match operation.shape.mode with
  | some .absX | some .absY | some .indY => 1
  | _ => 0

/-- With all penalties no operation of the table takes more than seven ticks after the first. -/
theorem most_le (code : UInt8) :
    (ofCode code).cycles + (ofCode code).mostPenalty + (ofCode code).adds.toNat +
      2 * (ofCode code).shape.kind.isBranch.toNat ≤ 7 :=
  ofCode_cases (motive := fun operation => operation.cycles + operation.mostPenalty +
    operation.adds.toNat + 2 * operation.shape.kind.isBranch.toNat ≤ 7) (by decide +kernel)
    (by decide) code

end Operation

theorem Effective.extra_indexed_le (base : UInt16) (index : UInt8) : (indexed base index).extra ≤ 1 := by
  rw [extra_indexed]
  split <;> decide

variable {δ μ : Type} [Device δ]

namespace Exec

/-- What performing an instruction costs: nothing, but for additions in decimal mode. -/
theorem perform_answer [Monitor μ] (operation : Operation) (place : Place) (core : Core δ μ) :
    ((perform operation.shape place : Exec δ μ Nat).run core).1 =
      operation.decimalPenalty core.regs := by
  obtain ⟨⟨kind, mode⟩, cycles⟩ := operation
  have loaded := load_regs place core
  cases kind with
  | adc | sbc =>
    change Registers.addPenalty ((load place : Exec δ μ UInt8).run core).2.regs = _
    rw [loaded, Registers.addPenalty, Operation.decimalPenalty]
    simp [Operation.adds]
  | jmp | jsr => cases place <;> rfl
  | _ => rfl

/-- A branch answers with its penalty, here for any byte at the program counter. -/
theorem branch_answer (kind : Mnemonic) (core : Core δ μ) :
    let fetched := (fetch : Exec δ μ UInt8).run core
    let target := fetched.2.regs.pc + fetched.1.toInt8.toInt16.toUInt16
    ((branch kind : Exec δ μ Nat).run core).1 =
      if fetched.2.regs.p.branches kind = true then
        if pageOf fetched.2.regs.pc = pageOf target then 1 else 2
      else 0 := by
  intro fetched target
  have opened : (branch kind : Exec δ μ Nat).run core =
      (if fetched.2.regs.p.branches kind = true then do
        update fun regs => { regs with pc := target }
        return 1 + if crosses fetched.2.regs.pc target then 1 else 0
      else return 0 : Exec δ μ Nat).run fetched.2 := rfl
  rw [opened]
  by_cases taken : fetched.2.regs.p.branches kind = true
  · rw [if_pos taken, if_pos taken, run_bind, run_pure]
    by_cases same : pageOf fetched.2.regs.pc = pageOf target
    · rw [if_pos same, if_neg fun other => (crosses_iff _ _).1 other same]
    · rw [if_neg same, if_pos ((crosses_iff _ _).2 same)]
  · rw [if_neg taken, if_neg taken, run_pure]

section Stored

variable {memory : UInt16 → UInt8} {core : Core δ μ}

/-- A step answers with the cost of the stored operation. -/
theorem step_cost [Monitor μ] (holds : core.board.Holds memory) :
    ((step : Exec δ μ (Mnemonic × Nat)).run core).1.2 =
      (Operation.stored memory core.regs.pc).cost memory core.regs := by
  have plain := Operation.mode_of_plain memory core.regs.pc
  have first := run_fetchOperation_of_holds holds
  have performed := run_step_stored holds
  dsimp only at performed
  generalize Operation.stored memory core.regs.pc = operation at plain first performed ⊢
  unfold Operation.cost Operation.branchPenalty
  by_cases branches : operation.shape.kind.isBranch = true
  · have holdsPast : (core.past 1).board.Holds memory := holds
    have answer := branch_answer operation.shape.kind (core.past 1)
    have next : core.regs.pc + 1 + 1 = core.regs.pc + 2 := UInt16.add_assoc _ 1 1
    have bare : operation.operandPenalty memory core.regs = 0 := by
      rw [Operation.operandPenalty, plain (.inr branches)]
    rw [run_fetch holdsPast, Core.past_past] at answer
    dsimp only [Core.past_pc] at answer
    rw [run_step_of_branch branches first, run_bind, run_pure, answer, bare,
      Operation.decimalPenalty_of_branch _ branches]
    simp only [branches, true_and]
    rfl
  · have penalty := perform_answer operation (operation.place memory core.regs)
      (core.past (UInt16.ofNat operation.length))
    rw [performed (Bool.eq_false_iff.2 branches), run_bind, run_pure, penalty,
      if_neg fun both => branches both.1]
    rfl

/-- The ticks that are left when something has been started. -/
theorem start_cost [Monitor μ] (nmiEdge : Bool) (holds : core.board.Holds memory) :
    ((start nmiEdge : Exec δ μ (Sequence × Nat)).run core).1.2 =
      if core.board.bus.resetLine then 5
      else if nmiEdge then 6
      else if core.board.bus.irq && !core.regs.p.has .irqDisable then 6
      else (Operation.stored memory core.regs.pc).cost memory core.regs := by
  have cost := step_cost holds
  rw [run_start]
  split
  · rfl
  split
  · rfl
  split
  · rfl
  · dsimp only
    exact cost

end Stored

/-! ### Bounds -/

/-- On any devices finding an operand costs no more than its mode allows. -/
theorem operandOf_answer_le (operation : Operation) (core : Core δ μ) :
    ((operandOf operation : Exec δ μ (Place × Nat)).run core).1.2 ≤ operation.mostPenalty := by
  obtain ⟨⟨kind, mode⟩, cycles⟩ := operation
  unfold operandOf
  split
  · exact Nat.zero_le _
  cases mode with
  | none => exact Nat.le_refl 0
  | some mode =>
    cases mode with
    | absX | absY | indY => exact Effective.extra_indexed_le _ _
    | _ => exact Nat.le_refl 0

theorem branch_answer_le (kind : Mnemonic) (core : Core δ μ) :
    ((branch kind : Exec δ μ Nat).run core).1 ≤ 2 := by
  rw [branch_answer]
  split
  · split <;> decide
  · decide

variable [Monitor μ]

theorem step_answer_le (core : Core δ μ) :
    ((step : Exec δ μ (Mnemonic × Nat)).run core).1.2 ≤ 7 := by
  have most := Operation.most_le ((fetch : Exec δ μ UInt8).run core).1
  have first := run_fetchOperation core
  change _ = (Operation.ofCode ((fetch : Exec δ μ UInt8).run core).1, _) at first
  generalize Operation.ofCode ((fetch : Exec δ μ UInt8).run core).1 = operation at most first
  generalize ((fetch : Exec δ μ UInt8).run core).2 = fetched at first
  by_cases branches : operation.shape.kind.isBranch = true
  · have answer := branch_answer_le operation.shape.kind fetched
    rw [run_step_of_branch branches first, run_bind, run_pure]
    rw [branches, Bool.toNat_true] at most
    dsimp only
    omega
  · rw [Bool.not_eq_true] at branches
    obtain ⟨place, extra, located, found⟩ : ∃ place extra located,
      (operandOf operation : Exec δ μ (Place × Nat)).run fetched = ((place, extra), located) :=
      ⟨_, _, _, rfl⟩
    have operand := operandOf_answer_le operation fetched
    have decimal := operation.decimalPenalty_le located.regs
    rw [found] at operand
    rw [run_step branches first found, run_bind, run_pure, perform_answer]
    dsimp only at operand ⊢
    omega

theorem start_answer_le (nmiEdge : Bool) (core : Core δ μ) :
    ((start nmiEdge : Exec δ μ (Sequence × Nat)).run core).1.2 ≤ 7 := by
  have stepped := step_answer_le core
  rw [run_start]
  split
  · exact Nat.le_of_ble_eq_true rfl
  split
  · exact Nat.le_of_ble_eq_true rfl
  split
  · exact Nat.le_of_ble_eq_true rfl
  · dsimp only
    exact stepped

end Exec

/-! ### Ticks -/

/-- Reading depends on the bus alone. -/
theorem Board.Holds.of_bus {memory : UInt16 → UInt8} {board other : Board δ μ}
    (holds : board.Holds memory) (bus : other.bus = board.bus) : other.Holds memory := by
  intro address
  have same : board.bus.read address = (memory address, board.bus) :=
    congrArg (fun found : UInt8 × Board δ μ => (found.1, found.2.bus)) (holds address)
  rw [← bus] at same
  change ((other.bus.read address).1, Board.mk (other.bus.read address).2 _ _) = _
  rw [same]

namespace Cpu

variable [Monitor μ]

/-- The ticks of what starts at an instruction boundary, after the first one. -/
def cost (cpu : Cpu) (board : Board δ μ) (memory : UInt16 → UInt8) : Nat :=
  if board.bus.resetLine then 5
  else if board.bus.nmi && !cpu.lastNmi then 6
  else if board.bus.irq && !cpu.regs.p.has .irqDisable then 6
  else (Operation.stored memory cpu.regs.pc).cost memory cpu.regs

/-- Ticks, before each of which the board may change in any way: whether they ask for a halt, and what
they leave. -/
def ticks (cpu : Cpu) (board : Board δ μ) : List (Board δ μ → Board δ μ) → List Bool × Cpu × Board δ μ
  | [] => ([], cpu, board)
  | change :: rest =>
    let (halt, cpu, board) := cpu.tick (change board)
    let (halts, cpu, board) := ticks cpu board rest
    (halt :: halts, cpu, board)

/-- The states that a processor can be in: new, powered up or after a tick, on any boards, and with
registers that are set from outside at any time. -/
inductive Reachable (δ μ : Type) [Device δ] [Monitor μ] : Cpu → Prop where
  | new : Reachable δ μ {}
  | set {cpu : Cpu} (regs : Registers) (reachable : Reachable δ μ cpu) :
      Reachable δ μ { cpu with regs }
  | powerup {cpu : Cpu} (board : Board δ μ) (reachable : Reachable δ μ cpu) :
      Reachable δ μ (cpu.powerup board).1
  | tick {cpu : Cpu} (board : Board δ μ) (reachable : Reachable δ μ cpu) :
      Reachable δ μ (cpu.tick board).2.1

variable {cpu : Cpu} {board : Board δ μ}

theorem tick_of_busy (busy : cpu.remaining ≠ 0) :
    cpu.tick board = (false, { cpu with remaining := cpu.remaining - 1 }, board) :=
  if_pos busy

/-- The tick at an instruction boundary sets the counter to what it has started. -/
theorem tick_remaining {memory : UInt16 → UInt8} (idle : cpu.busy = false)
    (passes : (board.ask (.nextInstruction cpu.regs.pc)).1 = false) (holds : board.Holds memory) :
    (cpu.tick board).2.1.remaining = cpu.cost board memory := by
  have asked : (board.ask (.nextInstruction cpu.regs.pc)).2.Holds memory := holds.of_bus rfl
  have ticked := cpu.ticked board
  generalize cpu.starts board = starts, cpu.tick board = after at ticked
  cases ticked with
  | counted busy =>
    rw [idle] at busy
    contradiction
  | refused idle halts =>
    rw [passes] at halts
    contradiction
  | started idle passes run =>
    let core : Core δ μ := ⟨cpu.regs, (board.ask (.nextInstruction cpu.regs.pc)).2⟩
    have holdsCore : core.board.Holds memory := asked
    have cost := Exec.start_cost (board.bus.nmi && !cpu.lastNmi) holdsCore
    rw [run] at cost
    exact cost

/-- While the counter lasts, ticks take from it, and that is all they do. -/
theorem ticks_of_short (changes : List (Board δ μ → Board δ μ)) (short : changes.length ≤ cpu.remaining) :
    cpu.ticks board changes = (changes.map fun _ => false,
      { cpu with remaining := cpu.remaining - changes.length },
      changes.foldl (fun board change => change board) board) := by
  induction changes generalizing cpu board with
  | nil => rfl
  | cons change rest inductionHypothesis =>
    rw [List.length_cons] at short
    have busy : cpu.remaining ≠ 0 := by omega
    have counted : rest.length ≤ ({ cpu with remaining := cpu.remaining - 1 } : Cpu).remaining :=
      Nat.le_sub_of_add_le short
    have later := @inductionHypothesis { cpu with remaining := cpu.remaining - 1 } (change board) counted
    have left : cpu.remaining - 1 - rest.length = cpu.remaining - (rest.length + 1) := by omega
    unfold ticks
    rw [tick_of_busy busy]
    dsimp only
    rw [later, left]
    rfl

/-- The counter is never above seven. -/
theorem Reachable.remaining_le (reachable : Reachable δ μ cpu) : cpu.remaining ≤ 7 := by
  induction reachable with
  | new | powerup => exact Nat.zero_le 7
  | set regs reachable inductionHypothesis => exact inductionHypothesis
  | @tick cpu board reachable inductionHypothesis =>
    have ticked := cpu.ticked board
    generalize cpu.starts board = starts, cpu.tick board = after at ticked
    cases ticked with
    | counted busy => exact Nat.le_trans (Nat.sub_le _ 1) inductionHypothesis
    | refused idle halts => exact inductionHypothesis
    | started idle passes run =>
      have most := Exec.start_answer_le (board.bus.nmi && !cpu.lastNmi)
        ⟨cpu.regs, (board.ask (.nextInstruction cpu.regs.pc)).2⟩
      rw [run] at most
      exact most

/-- At a boundary that the monitor does not refuse, the processor is busy for as many ticks after the
first one as what has started costs. These ticks ask nothing, tell nothing and touch neither registers nor
board, whatever changes between them. In no state are more than seven ticks left. -/
theorem takes_its_cycles {memory : UInt16 → UInt8} (idle : cpu.busy = false)
    (passes : (board.ask (.nextInstruction cpu.regs.pc)).1 = false) (holds : board.Holds memory) :
    (∀ changes : List (Board δ μ → Board δ μ), changes.length ≤ cpu.cost board memory →
      let started := (cpu.tick board).2
      let later := started.1.ticks started.2 changes
      (later.2.1.busy = true ↔ changes.length < cpu.cost board memory) ∧
      later.2.1.regs = started.1.regs ∧
      later.2.2 = changes.foldl (fun board change => change board) started.2 ∧
      ∀ halt ∈ later.1, halt = false) ∧
    ∀ reached : Cpu, Reachable δ μ reached → reached.remaining ≤ 7 := by
  constructor
  · intro changes short started later
    have remaining : started.1.remaining = cpu.cost board memory := tick_remaining idle passes holds
    have counted : later = _ := ticks_of_short changes (remaining ▸ short)
    rw [counted]
    refine ⟨?_, rfl, rfl, by simp⟩
    rw [busy, bne_iff_ne, remaining]
    dsimp only
    omega
  · intro reached reachable
    exact reachable.remaining_le

/-- A rotation in memory whose index leads to another page. An interrupt request comes up while it is
under way. -/
theorem takes_its_cycles_rol :
    let span : Span := ⟨0x0000, 0x0002, by decide⟩
    let block : Block := ⟨span, Block.fill (.replicate _ 0) 0 [0x3E, 0xFF, 0x12]⟩
    let board : Board Peripheral Silent := { bus := { devices := [.ram block] }, monitor := .silent }
    let cpu : Cpu := { regs := { x := 0x01 } }
    let memory := fun address => (block.get? address).getD 0x00
    let request := fun board : Board Peripheral Silent =>
      { board with bus := { board.bus with irqLine := true } }
    let started := (cpu.tick board).2
    let last := started.1.ticks started.2 (.replicate 6 request)
    let idle := started.1.ticks started.2 (.replicate 7 request)
    cpu.cost board memory = 7 ∧ last.2.1.busy = true ∧ idle.2.1.busy = false ∧
    idle.2.1.regs = started.1.regs ∧ idle.2.2.bus.irqLine = true := by
  intro span block board cpu memory request
  have boundary : cpu.busy = false := rfl
  have passes : (board.ask (.nextInstruction cpu.regs.pc)).1 = false := rfl
  have holds : board.Holds memory := Board.holds_of_memory rfl
  have cost : cpu.cost board memory = 7 := by decide +kernel
  obtain ⟨counts, -⟩ := takes_its_cycles boundary passes holds
  have sixth := counts (.replicate 6 request)
  have seventh := counts (.replicate 7 request)
  rw [cost, List.length_replicate] at sixth seventh
  generalize (cpu.tick board).2 = started at sixth seventh ⊢
  obtain ⟨busy, -⟩ := sixth (by decide)
  obtain ⟨done, regs, after, -⟩ := seventh (by decide)
  have rests : ¬(started.1.ticks started.2 (.replicate 7 request)).2.1.busy = true := by
    rw [done]
    decide
  exact ⟨cost, busy.2 (by decide), Bool.eq_false_iff.2 rests, regs, by rw [after]; rfl⟩

end Cpu
end Micro65
