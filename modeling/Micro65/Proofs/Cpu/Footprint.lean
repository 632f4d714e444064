import Micro65.Proofs.Cpu.Decoding
import Micro65.Proofs.Cpu.Interruption
import Micro65.Proofs.Devices.FlatMemory

set_option autoImplicit false

/-!
What an instruction writes. Each opcode has its footprint, the cells that it writes to in their order; a
step on memory makes these writes and no others, so the rest of memory stays as it is. The stack pointer
moves by the bytes that are pushed or pulled.
-/

namespace Micro65

/-! ### Footprints -/

/-- A place in memory is one cell. -/
def Place.cells : Place → List UInt16
  | .memory address => [address]
  | .a | .x | .y => []

/-- The cells that an instruction writes to, by the place of its operand and the stack pointer. -/
def Mnemonic.footprint (kind : Mnemonic) (place : Place) (s : UInt8) : List UInt16 :=
  match kind with
  | .sta | .stx | .sty | .asl | .lsr | .rol | .ror | .inc | .dec => place.cells
  | .pha | .php | .phx => [stackCell s]
  | .jsr => [stackCell s, stackCell (s - 1)]
  | .brk => pushedCells s
  | _ => []

/-- The stack pointer after an instruction. -/
def Mnemonic.stackAfter (kind : Mnemonic) (regs : Registers) : UInt8 :=
  match kind with
  | .pha | .php | .phx => regs.s - 1
  | .jsr => regs.s - 2
  | .brk => regs.s - 3
  | .pla | .plx | .ply | .plp => regs.s + 1
  | .rts => regs.s + 2
  | .rti => regs.s + 3
  | .txs => regs.x
  | _ => regs.s

/-- Branches write nothing and leave the stack alone. -/
theorem Mnemonic.marks_of_branch (kind : Mnemonic) (branches : kind.isBranch = true) (place : Place)
    (regs : Registers) : kind.footprint place regs.s = [] ∧ kind.stackAfter regs = regs.s := by
  cases kind <;> first | exact ⟨rfl, rfl⟩ | contradiction

/-- The cells that an operation at the program counter writes to. -/
def Operation.footprint (operation : Operation) (memory : UInt16 → UInt8) (regs : Registers) :
    List UInt16 :=
  operation.shape.kind.footprint (operation.place memory regs) regs.s

/-- Subroutines are called at an address. -/
theorem Operation.place_jsr {memory : UInt16 → UInt8} {regs : Registers}
    (calls : (stored memory regs.pc).shape.kind = .jsr) :
    ∃ address, (stored memory regs.pc).place memory regs = .memory address := by
  have absolute : (stored memory regs.pc).shape.kind = .jsr →
      (stored memory regs.pc).shape.mode = some .abs := by
    unfold stored
    exact ofCode_cases (motive := fun operation => operation.shape.kind = .jsr →
      operation.shape.mode = some .abs) (by decide +kernel) nofun (memory regs.pc)
  rw [place, absolute calls]
  exact ⟨_, rfl⟩

/-! ### Writes to a board -/

namespace Board

variable {δ μ : Type} [Device δ] [Monitor μ]

/-- Makes writes one after the other. -/
def writeEach (board : Board δ μ) (writes : List (UInt16 × UInt8)) : Board δ μ :=
  writes.foldl (fun board (address, data) => board.write address data) board

theorem devices_writeEach {board : Board Peripheral μ} {block : Block}
    (ram : board.bus.devices = [.ram block]) (writes : List (UInt16 × UInt8)) :
    (board.writeEach writes).bus.devices = [.ram (block.put writes)] := by
  induction writes generalizing board block with
  | nil => exact ram
  | cons first rest inductionHypothesis =>
    refine inductionHypothesis ((Bus.writeDevices_fst first.1 first.2 _).trans ?_)
    rw [ram]
    rfl

end Board

/-! ### Actions -/

variable {δ μ α : Type} [Device δ] [Monitor μ]

/-- From one core to the other there have been writes to these cells, one after the other. -/
def Core.Marks (cells : List UInt16) (core other : Core δ μ) : Prop :=
  ∃ writes : List (UInt16 × UInt8), writes.map (·.1) = cells ∧
    other.board = core.board.writeEach writes

theorem Core.Marks.trans {cells later : List UInt16} {core middle other : Core δ μ}
    (first : Marks cells core middle) (second : Marks later middle other) :
    Marks (cells ++ later) core other := by
  obtain ⟨writes, marked, made⟩ := first
  obtain ⟨writes', marked', made'⟩ := second
  refine ⟨writes ++ writes', ?_, ?_⟩
  · rw [List.map_append, marked, marked']
  · rw [made', made]
    exact (List.foldl_append ..).symm

theorem Core.Marks.none {core other : Core δ μ} (same : other.board = core.board) :
    Marks [] core other :=
  ⟨[], rfl, same⟩

namespace Exec

section Reads

variable {δ μ : Type} [Device δ] {core : Core δ μ} {memory : UInt16 → UInt8}

theorem load_of_holds (holds : core.board.Holds memory) (place : Place) :
    ((load place : Exec δ μ UInt8).run core).2 = core := by
  cases place with
  | memory address => exact congrArg Prod.snd (run_read holds address)
  | a | x | y => rfl

theorem readWord_of_holds (holds : core.board.Holds memory) (address : UInt16) :
    ((readWord address : Exec δ μ UInt16).run core).2 = core := by
  simp only [readWord, run_bind, run_read holds, run_pure]

theorem pull_of_holds (holds : core.board.Holds memory) :
    let after := ((pull : Exec δ μ UInt8).run core).2
    after.board = core.board ∧ after.regs.s = core.regs.s + 1 :=
  ⟨congrArg Prod.snd (holds (stackCell (core.regs.s + 1))), rfl⟩

theorem pullWord_of_holds (holds : core.board.Holds memory) :
    let after := ((pullWord : Exec δ μ UInt16).run core).2
    after.board = core.board ∧ after.regs.s = core.regs.s + 2 := by
  let low := ((pull : Exec δ μ UInt8).run core).2
  have kept : low.board = core.board := (pull_of_holds holds).1
  have holdsLow : low.board.Holds memory := kept ▸ holds
  have two : core.regs.s + 1 + 1 = core.regs.s + 2 := by grind
  exact ⟨(pull_of_holds holdsLow).1.trans kept, two⟩

theorem branch_of_holds (holds : core.board.Holds memory) (kind : Mnemonic) :
    let after := ((branch kind : Exec δ μ Nat).run core).2
    after.board = core.board ∧ after.regs.s = core.regs.s := by
  unfold branch
  rw [run_bind, run_fetch holds, run_bind, run_regs]
  dsimp only
  split <;> exact ⟨rfl, rfl⟩

end Reads

variable {core : Core δ μ} {memory : UInt16 → UInt8}

theorem store_marks (place : Place) (value : UInt8) (core : Core δ μ) :
    let after := ((store place value : Exec δ μ Unit).run core).2
    core.Marks place.cells after ∧ after.regs.s = core.regs.s := by
  cases place with
  | memory address => exact ⟨⟨[(address, value)], rfl, rfl⟩, rfl⟩
  | a | x | y => exact ⟨.none rfl, rfl⟩

/-- A change in place writes once, after it has read. -/
theorem change_marks (holds : core.board.Holds memory) (place : Place) (kind : Change) :
    let after := ((change place kind : Exec δ μ Unit).run core).2
    core.Marks place.cells after ∧ after.regs.s = core.regs.s := by
  have loaded := load_of_holds holds place
  let result := kind.apply core.regs.p ((load place : Exec δ μ UInt8).run core).1
  let found : Core δ μ := { core with regs := { core.regs with p := result.2.follow result.1 } }
  have stored : (change place kind : Exec δ μ Unit).run core =
      (store place result.1 : Exec δ μ Unit).run found := by
    unfold change
    rw [run_bind, run_bind, run_regs, run_bind, run_update, loaded]
  rw [stored]
  exact store_marks place result.1 found

theorem perform_change_marks (holds : core.board.Holds memory) {kind : Mnemonic} {change : Change}
    (changes : kind.change? = some change) (mode : Option Mode) (place : Place) :
    let after := ((perform ⟨kind, mode⟩ place : Exec δ μ Nat).run core).2
    core.Marks place.cells after ∧ after.regs.s = core.regs.s := by
  rw [perform_of_change changes]
  exact change_marks holds place change

theorem push_marks (value : UInt8) (core : Core δ μ) :
    let after := ((push value : Exec δ μ Unit).run core).2
    core.Marks [stackCell core.regs.s] after ∧ after.regs.s = core.regs.s - 1 :=
  ⟨⟨[(stackCell core.regs.s, value)], rfl, rfl⟩, rfl⟩

theorem pushWord_marks (value : UInt16) (core : Core δ μ) :
    let after := ((pushWord value : Exec δ μ Unit).run core).2
    core.Marks [stackCell core.regs.s, stackCell (core.regs.s - 1)] after ∧
      after.regs.s = core.regs.s - 2 := by
  let first := (push (value >>> 8).toUInt8 : Exec δ μ Unit).run core
  have two : core.regs.s - 1 - 1 = core.regs.s - 2 := by grind
  exact ⟨(push_marks (value >>> 8).toUInt8 core).1.trans (push_marks value.toUInt8 first.2).1, two⟩

/-- A return address and the status are pushed. -/
theorem saved_marks (core : Core δ μ) :
    core.Marks (pushedCells core.regs.s) (saved core) ∧ (saved core).regs.s = core.regs.s - 3 := by
  obtain ⟨word, two⟩ := pushWord_marks core.regs.pc core
  obtain ⟨status, one⟩ :=
    push_marks core.regs.p.byte ((pushWord core.regs.pc : Exec δ μ Unit).run core).2
  have three : core.regs.s - 2 - 1 = core.regs.s - 3 := by grind
  rw [two] at status one
  exact ⟨word.trans status, one.trans three⟩

/-! ### Steps on memory -/

section Memory

variable {core : Core Peripheral μ} {block : Block}

/-- The vector is read from memory that the pushes have changed. -/
theorem enter_marks (ram : core.board.bus.devices = [.ram block]) (vector : UInt16) :
    let after := ((enter vector : Exec Peripheral μ Unit).run core).2
    core.Marks (pushedCells core.regs.s) after ∧ after.regs.s = core.regs.s - 3 := by
  obtain ⟨⟨writes, marked, made⟩, three⟩ := saved_marks core
  have ramSaved : (saved core).board.bus.devices = [.ram (block.put writes)] := by
    rw [made]
    exact Board.devices_writeEach ram writes
  have read := readWord_of_holds (Board.holds_of_memory ramSaved) vector
  have entered := run_enter core vector
  dsimp only at entered ⊢
  rw [entered, read]
  exact ⟨⟨writes, marked, made⟩, three⟩

theorem perform_marks (ram : core.board.bus.devices = [.ram block]) (shape : Shape) {place : Place}
    (calls : shape.kind = .jsr → ∃ address, place = .memory address) :
    let after := ((perform shape place : Exec Peripheral μ Nat).run core).2
    core.Marks (shape.kind.footprint place core.regs.s) after ∧
      after.regs.s = shape.kind.stackAfter core.regs := by
  obtain ⟨kind, mode⟩ := shape
  have holds := Board.holds_of_memory ram
  have loaded := load_of_holds holds place
  have board : ((load place : Exec Peripheral μ UInt8).run core).2.board = core.board := by rw [loaded]
  have s : ((load place : Exec Peripheral μ UInt8).run core).2.regs.s = core.regs.s := by rw [loaded]
  have pulled := pull_of_holds holds
  cases kind with
  | adc | sbc | and | ora | eor | cmp | cpx | cpy | bit | lda | ldx | ldy =>
    exact ⟨.none board, s⟩
  | asl | lsr | rol | ror | inc | dec => exact perform_change_marks holds (by rfl) mode place
  | sta | stx | sty => exact store_marks place _ core
  | jmp => cases place <;> exact ⟨.none rfl, rfl⟩
  | jsr =>
    obtain ⟨address, rfl⟩ := calls rfl
    exact pushWord_marks (core.regs.pc - 1) core
  | rts =>
    obtain ⟨board, two⟩ := pullWord_of_holds holds
    exact ⟨.none board, two⟩
  | rti =>
    let status := ((pull : Exec Peripheral μ UInt8).run core).2
    have holdsStatus : status.board.Holds _ := pulled.1 ▸ holds
    obtain ⟨board, two⟩ := pullWord_of_holds holdsStatus
    have three : core.regs.s + 1 + 2 = core.regs.s + 3 := by grind
    exact ⟨.none (board.trans pulled.1), two.trans three⟩
  | brk =>
    let past : Core Peripheral μ := { core with regs := { core.regs with pc := core.regs.pc + 1 } }
    have ramPast : past.board.bus.devices = [.ram block] := ram
    exact enter_marks ramPast irqVector
  | pha | php | phx => exact push_marks _ core
  | pla | plx | ply | plp => exact ⟨.none pulled.1, pulled.2⟩
  | _ => exact ⟨.none rfl, rfl⟩

/-- A step writes to the footprint of the stored operation. -/
theorem step_marks (ram : core.board.bus.devices = [.ram block]) :
    let memory := fun address => (block.get? address).getD 0x00
    let operation := Operation.stored memory core.regs.pc
    let after := ((step : Exec Peripheral μ (Mnemonic × Nat)).run core).2
    core.Marks (operation.footprint memory core.regs) after ∧
      after.regs.s = operation.shape.kind.stackAfter core.regs := by
  intro memory
  have holds : core.board.Holds memory := Board.holds_of_memory ram
  have first := run_fetchOperation_of_holds holds
  have performed := run_step_stored holds
  have calls := @Operation.place_jsr memory core.regs
  dsimp only at performed ⊢
  generalize Operation.stored memory core.regs.pc = operation at first performed calls ⊢
  by_cases branches : operation.shape.kind.isBranch = true
  · have holdsPast : (core.past 1).board.Holds memory := holds
    obtain ⟨board, s⟩ := branch_of_holds holdsPast operation.shape.kind
    obtain ⟨footprint, stack⟩ := operation.shape.kind.marks_of_branch branches
      (operation.place memory core.regs) core.regs
    rw [run_step_of_branch branches first, Operation.footprint, footprint, stack]
    exact ⟨.none board, s⟩
  · rw [performed (Bool.eq_false_iff.2 branches)]
    have ramPast : (core.past (UInt16.ofNat operation.length)).board.bus.devices = [.ram block] := ram
    exact perform_marks ramPast operation.shape calls

/-- A step on memory makes the writes of the footprint of its opcode, in this order, and leaves all other
memory and the board apart from these writes as it is. The stack pointer moves by what is pushed and
pulled. -/
theorem step_writes_footprint (ram : core.board.bus.devices = [.ram block]) :
    let memory := fun address => (block.get? address).getD 0x00
    let operation := Operation.stored memory core.regs.pc
    let footprint := operation.footprint memory core.regs
    let after := ((step : Exec Peripheral μ (Mnemonic × Nat)).run core).2
    (∃ writes : List (UInt16 × UInt8), writes.map (·.1) = footprint ∧
      after.board = core.board.writeEach writes ∧
      after.board.bus.devices = [.ram (block.put writes)] ∧
      ∀ address, address ∉ footprint → (block.put writes).get? address = block.get? address) ∧
    after.regs.s = operation.shape.kind.stackAfter core.regs := by
  have marks := step_marks ram
  dsimp only at marks ⊢
  obtain ⟨⟨writes, marked, made⟩, stack⟩ := marks
  refine ⟨⟨writes, marked, made, ?_, fun address outside => ?_⟩, stack⟩
  · rw [made]
    exact Board.devices_writeEach ram writes
  · exact Block.get?_put_of_not_mem (marked ▸ outside)

/-- A call with the stack pointer at the foot of the page, whose second write wraps to the top. -/
theorem step_writes_footprint_jsr :
    let block := (Block.empty ⟨0x0000, 0xFFFF, by decide⟩).put
      [(0x0000, 0x20), (0x0001, 0x34), (0x0002, 0x12)]
    let core : Core Peripheral Silent :=
      { regs := { s := 0x00 }, board := { bus := { devices := [.ram block] }, monitor := .silent } }
    let after := ((step : Exec Peripheral Silent (Mnemonic × Nat)).run core).2
    ∃ writes : List (UInt16 × UInt8), writes.map (·.1) = [0x0100, 0x01FF] ∧
      after.board = core.board.writeEach writes ∧ after.regs.s = 0xFE ∧
      (block.put writes).get? 0x0002 = some 0x12 := by
  intro block core
  have ram : core.board.bus.devices = [.ram block] := rfl
  have outcome := step_writes_footprint ram
  dsimp only at outcome
  have footprint : (Operation.stored (fun address => (block.get? address).getD 0x00)
      core.regs.pc).footprint (fun address => (block.get? address).getD 0x00) core.regs =
    [0x0100, 0x01FF] := by decide +kernel
  have kind : (Operation.stored (fun address => (block.get? address).getD 0x00)
      core.regs.pc).shape.kind = .jsr := by decide +kernel
  have wrapped : Mnemonic.jsr.stackAfter core.regs = 0xFE := rfl
  rw [footprint, kind, wrapped] at outcome
  generalize ((step : Exec Peripheral Silent (Mnemonic × Nat)).run core).2 = after at outcome ⊢
  obtain ⟨⟨writes, marked, made, -, kept⟩, stack⟩ := outcome
  have operand : block.get? 0x0002 = some 0x12 := by decide +kernel
  exact ⟨writes, marked, made, stack, (kept 0x0002 (by decide)).trans operand⟩

end Memory

end Exec
end Micro65
