import Micro65.Proofs.Assembly.Fetching
import Micro65.Proofs.Assembly.Pages
import Micro65.Proofs.Cpu.Stack

set_option autoImplicit false

/-!
Branches, from the assembler to the processor. The assembler writes the distance from the next
instruction as a signed byte, where it is one; the processor adds that byte to the program counter, and
so arrives at the target wherever branch and target lie, also across the end of memory.
-/

namespace Micro65

/-! ### Conditions -/

/-- The flag that a branch looks at, and how it has to stand. `BRA` looks at none. -/
def Mnemonic.condition? : Mnemonic → Option (Flag × Bool)
  | .bcc => some (.carry, false)
  | .bcs => some (.carry, true)
  | .bne => some (.zero, false)
  | .beq => some (.zero, true)
  | .bpl => some (.negative, false)
  | .bmi => some (.negative, true)
  | .bvc => some (.overflow, false)
  | .bvs => some (.overflow, true)
  | _ => none

/-- The condition of a branch holds. -/
def Status.Meets (status : Status) (kind : Mnemonic) : Prop :=
  ∀ flag on, kind.condition? = some (flag, on) → status.has flag = on

theorem Status.branches_iff (status : Status) (kind : Mnemonic) :
    status.branches kind = true ↔ status.Meets kind := by
  cases kind <;> simp [branches, Meets, Mnemonic.condition?]

/-! ### Distances -/

/-- A signed byte, widened to a word, is the number that it was made of. -/
theorem widened_ofInt {distance : Int} (low : -128 ≤ distance) (high : distance ≤ 127) :
    (UInt8.ofInt distance).toInt8.toInt16.toUInt16 = UInt16.ofInt distance := by
  have byte : (UInt8.ofInt distance).toBitVec = BitVec.ofInt 8 distance := by
    apply BitVec.eq_of_toNat_eq
    rw [BitVec.toNat_ofInt, UInt8.toNat_toBitVec, UInt8.ofInt, UInt8.toNat_ofNat']
    omega
  have word : (UInt16.ofInt distance).toBitVec = BitVec.ofInt 16 distance := by
    apply BitVec.eq_of_toNat_eq
    rw [BitVec.toNat_ofInt, UInt16.toNat_toBitVec, UInt16.ofInt, UInt16.toNat_ofNat']
    omega
  rw [← UInt16.toBitVec_inj, word]
  change (UInt8.ofInt distance).toBitVec.signExtend 16 = _
  rw [byte, BitVec.signExtend, BitVec.toInt_ofInt, Int.bmod_eq_of_le (by omega) (by omega)]

/-- The target lies its distance behind the next instruction, modulo the size of memory. -/
theorem behind_add_distance (address target : UInt16) :
    address + 1 + 1 + UInt16.ofInt (target.toNat - (address.toNat + 2)) = target := by
  have bound := target.toNat_lt
  rw [← UInt16.toNat_inj, UInt16.toNat_add, UInt16.toNat_add, UInt16.toNat_add, UInt16.toNat_one,
    UInt16.ofInt, UInt16.toNat_ofNat']
  omega

theorem branchOffset_eq (address target : UInt16) :
    branchOffset address target.toNat =
      let distance : Int := target.toNat - (address.toNat + 2)
      if -128 ≤ distance ∧ distance ≤ 127 then .ok (UInt8.ofInt distance)
      else .error (.branchOffsetOutOfRange distance) := by
  have near : saturate (target.toNat - (address.toNat + 2)) = target.toNat - (address.toNat + 2) := by
    have low := address.toNat_lt
    have high := target.toNat_lt
    apply saturate_of_bounded
    · unfold leastBound
      omega
    · unfold greatestBound
      omega
  unfold branchOffset
  rw [near]

/-! ### Encoding -/

namespace Mnemonic

theorem encode_of_branch : ∀ kind ∈ all, kind.isBranch = true →
    (Opcode.encode kind none).isSome = true ∧ (⟨kind, none⟩ : Shape).cycles = 1 := by decide +kernel

/-- A branch has one opcode, whatever mode its target has. -/
theorem exists_opcode_of_branch {kind : Mnemonic} (branch : kind.isBranch = true) (mode : Option Mode) :
    ∃ code, Opcode.encode kind mode = some code ∧
      Operation.ofCode? code = some ⟨⟨kind, none⟩, 1⟩ := by
  have canonical (mode : Option Mode) : Opcode.canonical kind mode = ⟨kind, none⟩ := by
    unfold Opcode.canonical
    rw [branch, Bool.or_true, if_pos rfl]
  obtain ⟨encodes, cycles⟩ := encode_of_branch kind kind.mem_all branch
  obtain ⟨code, encodes⟩ := Option.isSome_iff_exists.1 encodes
  have decodes := (Opcode.decode_encode_iff _ _ _).1 encodes
  refine ⟨code, (Opcode.decode_encode_iff _ _ _).2 ?_, ?_⟩
  · rw [decodes, canonical, canonical]
  · rw [Operation.ofCode?_eq, decodes, canonical, Option.map_some, cycles]

end Mnemonic

/-- A branch leaves its opcode and the byte of its offset. -/
theorem Instruction.encode_branch {labels : Labels} {inst : Instruction} {expr : Expr} {target : UInt16}
    (branch : inst.kind.isBranch = true) (param : inst.param = some expr)
    (value : expr.range labels = .ok (.point target.toNat)) :
    ∃ code, Operation.ofCode? code = some ⟨⟨inst.kind, none⟩, 1⟩ ∧
      inst.encode labels = (branchOffset inst.address target.toNat).map fun offset => [code, offset] := by
  obtain ⟨code, encodes, operation⟩ := Mnemonic.exists_opcode_of_branch branch inst.mode
  obtain ⟨-, notBase, notData⟩ :=
    (Mnemonic.isDirective_eq_false_iff _).1 (Mnemonic.isDirective_of_branch branch)
  have point := (pointValue_eq_ok_iff labels expr target.toNat).2 value
  refine ⟨code, operation, ?_⟩
  rw [encode_of_opcode notBase notData encodes, param]
  unfold encode.operandBytes
  dsimp only
  rw [point]
  change (do return code :: (← inst.valueBytes target.toNat)) = _
  unfold valueBytes
  rw [if_pos branch]
  cases branchOffset inst.address target.toNat <;> rfl

/-! ### Execution -/

section Execution

variable {δ μ : Type} [Device δ] {core : Core δ μ} {memory : UInt16 → UInt8}

theorem Exec.run_branch (holds : core.board.Holds memory) (kind : Mnemonic) :
    ((branch kind : Exec δ μ Nat).run core).2 =
      if core.regs.p.branches kind = true then
        core.past (1 + (memory core.regs.pc).toInt8.toInt16.toUInt16)
      else core.past 1 := by
  unfold branch
  rw [run_bind, run_fetch holds, run_bind, run_regs]
  dsimp only
  have same : (core.past 1).regs.p = core.regs.p := rfl
  rw [same]
  split
  · rw [← Core.past_past]
    rfl
  · rfl

/-- A step on the two bytes of a branch goes behind them, and on from there if the condition holds. -/
theorem Exec.next_of_branch [Monitor μ] (holds : core.board.Holds memory) {kind : Mnemonic}
    {code offset : UInt8} (branch : kind.isBranch = true)
    (operation : Operation.ofCode? code = some ⟨⟨kind, none⟩, 1⟩) (carries : Carries memory core.regs.pc [code, offset]) :
    core.Executes kind ∧ core.next =
      if core.regs.p.branches kind = true then core.past (1 + (1 + offset.toInt8.toInt16.toUInt16))
      else core.past 2 := by
  have fetched : (fetchOperation : Exec δ μ Operation).run core = (⟨⟨kind, none⟩, 1⟩, core.past 1) := by
    rw [run_fetchOperation, run_fetch holds, carries.1, operation]
    rfl
  have holdsPast : (core.past 1).board.Holds memory := holds
  have step := run_step_of_branch branch fetched
  constructor
  · rw [Core.Executes, step]
    rfl
  · rw [Core.next, step]
    change ((Exec.branch kind : Exec δ μ Nat).run (core.past 1)).2 = _
    rw [run_branch holdsPast, Core.past_pc, carries.2.1]
    rw [Core.past_past, Core.past_past]
    rfl

/-- With the distance of a target as its offset a branch leads there. -/
theorem Exec.next_toward [Monitor μ] {kind : Mnemonic} {code : UInt8} {address target : UInt16}
    {distance : Int} (between : distance = target.toNat - (address.toNat + 2)) (low : -128 ≤ distance)
    (high : distance ≤ 127) (branch : kind.isBranch = true)
    (operation : Operation.ofCode? code = some ⟨⟨kind, none⟩, 1⟩) (holds : core.board.Holds memory)
    (pc : core.regs.pc = address) (carries : Carries memory address [code, UInt8.ofInt distance]) :
    core.Executes kind ∧
      (core.regs.p.Meets kind → core.next = { core with regs := { core.regs with pc := target } }) ∧
      (¬core.regs.p.Meets kind →
        core.next = { core with regs := { core.regs with pc := address + 2 } }) := by
  obtain ⟨executes, next⟩ := next_of_branch holds branch operation (pc ▸ carries)
  refine ⟨executes, fun meets => ?_, fun fails => ?_⟩
  · have arrives : address + (1 + (1 + UInt16.ofInt distance)) = target := by
      rw [← UInt16.add_assoc, ← UInt16.add_assoc, between]
      exact behind_add_distance address target
    rw [next, if_pos ((Status.branches_iff _ _).2 meets), widened_ofInt low high, Core.past, pc, arrives]
  · rw [next, if_neg (mt (Status.branches_iff _ _).1 fails), Core.past, pc]

end Execution

/-- Assembling a branch and executing it are inverse. To a target of one word there are two bytes where
the distance from the next instruction is a signed byte, and the error with the distance elsewhere. The two
bytes, executed from a memory with any other contents, lead to the target if the flag of the branch
stands as it has to, and behind the branch if not; nothing but the program counter changes. -/
theorem branch_reaches_target {labels : Labels} {inst : Instruction} {expr : Expr} {target : UInt16}
    (branch : inst.kind.isBranch = true) (param : inst.param = some expr)
    (value : expr.range labels = .ok (.point target.toNat)) :
    let distance : Int := target.toNat - (inst.address.toNat + 2)
    ((∃ code offset, inst.encode labels = .ok [code, offset]) ↔ -128 ≤ distance ∧ distance ≤ 127) ∧
    (¬(-128 ≤ distance ∧ distance ≤ 127) →
      inst.encode labels = .error (.branchOffsetOutOfRange distance)) ∧
    ∀ bytes, inst.encode labels = .ok bytes →
      ∀ {μ : Type} [Monitor μ] {block : Block} {core : Core Peripheral μ}, block.span.Full →
      core.board.bus.devices = [.ram (block.put (addressed inst.address bytes))] →
      core.regs.pc = inst.address →
      core.Executes inst.kind ∧
        (core.regs.p.Meets inst.kind →
          core.next = { core with regs := { core.regs with pc := target } }) ∧
        (¬core.regs.p.Meets inst.kind →
          core.next = { core with regs := { core.regs with pc := inst.address + 2 } }) := by
  intro distance
  obtain ⟨code, operation, encoded⟩ := Instruction.encode_branch branch param value
  rw [branchOffset_eq] at encoded
  change inst.encode labels = (if -128 ≤ distance ∧ distance ≤ 127 then .ok (UInt8.ofInt distance)
    else .error (.branchOffsetOutOfRange distance) : Except AsmError UInt8).map _ at encoded
  by_cases near : -128 ≤ distance ∧ distance ≤ 127
  · rw [if_pos near] at encoded
    refine ⟨⟨fun _ => near, fun _ => ⟨code, _, encoded⟩⟩, fun far => absurd near far, ?_⟩
    intro bytes emitted μ _ block core full memory pc
    obtain rfl : [code, UInt8.ofInt distance] = bytes := Except.ok.inj (encoded.symm.trans emitted)
    exact Exec.next_toward rfl near.1 near.2 branch operation (Board.holds_of_memory memory) pc
      (Block.carries_put full (Nat.le_of_ble_eq_true rfl))
  · rw [if_neg near] at encoded
    have failed {bytes : List UInt8} (emitted : inst.encode labels = .ok bytes) : False := by
      rw [encoded] at emitted
      cases emitted
    exact ⟨⟨fun ⟨_, _, emitted⟩ => (failed emitted).elim, fun within => absurd within near⟩,
      fun _ => encoded, fun _ emitted => (failed emitted).elim⟩

/-- A branch in the last cell and the first one, to a target before it: the program counter wraps twice. -/
theorem branch_reaches_target_wrapping :
    let inst : Instruction :=
      { position := ⟨"wrap.asm", 1⟩, label := none, spelling := "BNE", kind := .bne, operand := none,
        address := 0xFFFF, param := some (.literal 0xFFF0) }
    let core : Core Peripheral Silent :=
      { regs := { pc := 0xFFFF, p := ⟨0xFD⟩ }
        board :=
          { bus := { devices := [.ram ((Block.empty .whole).put (addressed 0xFFFF [0xD0, 0xEF]))] }
            monitor := .silent } }
    inst.encode .empty = .ok [0xD0, 0xEF] ∧ core.regs.p.Meets .bne ∧ core.Executes .bne ∧
      core.next = { core with regs := { core.regs with pc := 0xFFF0 } } := by
  intro inst core
  have bytes : inst.encode .empty = .ok [0xD0, 0xEF] := by decide +kernel
  have meets : core.regs.p.Meets .bne := (Status.branches_iff _ _).1 (by decide)
  have branch : inst.kind.isBranch = true := rfl
  have value : (Expr.literal 0xFFF0).range .empty = .ok (.point (0xFFF0 : UInt16).toNat) := rfl
  have full : (Block.empty .whole).span.Full := ⟨rfl, rfl⟩
  have memory : core.board.bus.devices =
      [.ram ((Block.empty .whole).put (addressed inst.address [0xD0, 0xEF]))] := rfl
  obtain ⟨-, -, executed⟩ := branch_reaches_target branch rfl value
  obtain ⟨executes, taken, -⟩ := executed _ bytes full memory rfl
  exact ⟨bytes, meets, executes, taken meets⟩

end Micro65
