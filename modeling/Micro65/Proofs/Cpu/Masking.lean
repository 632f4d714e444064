import Micro65.Cpu.Clock
import Micro65.Devices.Peripheral
import Micro65.Proofs.Cpu.Step

set_option autoImplicit false

/-!
Masked interrupt requests. Of all that the processor does, only `CLI`, `PLP` and `RTI` can clear the mask;
every other instruction keeps it, and every interrupt sequence sets it. So between the time when the mask
is set and the next request that is taken, one of the three has been executed, whatever the lines, the
devices and the monitor do.
-/

namespace Micro65

/-! ### Flags -/

namespace Flag

theorem mask_and_mask {flag other : Flag} (different : flag ≠ other) :
    flag.mask &&& other.mask = 0 := by
  cases flag <;> cases other <;> first | contradiction | rfl

theorem not_mask_and_mask {flag other : Flag} (different : flag ≠ other) :
    ~~~flag.mask &&& other.mask = other.mask := by
  cases flag <;> cases other <;> first | contradiction | rfl

theorem not_mask_and_self (flag : Flag) : ~~~flag.mask &&& flag.mask = 0 := by
  cases flag <;> rfl

theorem mask_ne_zero (flag : Flag) : flag.mask ≠ 0 := by
  cases flag <;> decide

end Flag

namespace Status

variable (status : Status)

@[simp] theorem has_set_self (flag : Flag) (on : Bool) : (status.set flag on).has flag = on := by
  unfold has set
  cases on with
  | false =>
    rw [if_neg Bool.false_ne_true, UInt8.and_assoc, flag.not_mask_and_self, UInt8.and_zero]
    rfl
  | true =>
    have absorbed : (status.byte ||| flag.mask) &&& flag.mask = flag.mask := by
      rw [← UInt8.toBitVec_inj, UInt8.toBitVec_and, UInt8.toBitVec_or]
      ext position inside
      simp only [BitVec.getElem_and, BitVec.getElem_or]
      exact Bool.and_eq_right_iff_imp.2 fun set => by rw [set, Bool.or_true]
    rw [if_pos rfl, absorbed, bne_iff_ne]
    exact flag.mask_ne_zero

/-- Flags do not touch one another. -/
theorem has_set_of_ne {flag other : Flag} (different : flag ≠ other) (on : Bool) :
    (status.set flag on).has other = status.has other := by
  unfold has set
  cases on with
  | false =>
    rw [if_neg Bool.false_ne_true, UInt8.and_assoc, Flag.not_mask_and_mask different]
  | true =>
    have apart : (status.byte ||| flag.mask) &&& other.mask =
        status.byte &&& other.mask ||| flag.mask &&& other.mask := by
      simp only [← UInt8.toBitVec_inj, UInt8.toBitVec_and, UInt8.toBitVec_or,
        BitVec.and_or_distrib_right]
    rw [if_pos rfl, apart, Flag.mask_and_mask different, UInt8.or_zero]

/-! No arithmetic touches the mask. -/

@[simp] theorem follow_irqDisable (result : UInt8) :
    (status.follow result).has .irqDisable = status.has .irqDisable := by
  rw [follow, has_set_of_ne _ (by decide), has_set_of_ne _ (by decide)]

@[simp] theorem compare_irqDisable (left right : UInt8) :
    (status.compare left right).has .irqDisable = status.has .irqDisable := by
  rw [compare, has_set_of_ne _ (by decide), has_set_of_ne _ (by decide),
    has_set_of_ne _ (by decide)]

@[simp] theorem testBits_irqDisable (a m : UInt8) (immediate : Bool) :
    (status.testBits a m immediate).has .irqDisable = status.has .irqDisable := by
  unfold testBits
  cases immediate with
  | true => exact has_set_of_ne _ (by decide) _
  | false =>
    change (((status.set .zero _).set .negative _).set .overflow _).has .irqDisable = _
    rw [has_set_of_ne _ (by decide), has_set_of_ne _ (by decide), has_set_of_ne _ (by decide)]

@[simp] theorem apply_irqDisable (change : Change) (value : UInt8) :
    (change.apply status value).2.has .irqDisable = status.has .irqDisable := by
  cases change with
  | increment | decrement => rfl
  | _ => exact has_set_of_ne _ (by decide) _

end Status

namespace Registers

/-- Interrupt requests are masked. -/
def Masked (regs : Registers) : Prop := regs.p.has .irqDisable = true

instance (regs : Registers) : Decidable regs.Masked := inferInstanceAs (Decidable (_ = true))

variable {regs : Registers}

theorem Masked.setFlag (masked : regs.Masked) {flag : Flag} (other : flag ≠ .irqDisable) (on : Bool) :
    (regs.setFlag flag on).Masked :=
  (regs.p.has_set_of_ne other on).trans masked

theorem masked_setFlag_irqDisable (regs : Registers) : (regs.setFlag .irqDisable true).Masked :=
  regs.p.has_set_self _ _

theorem add_irqDisable (regs : Registers) (m : UInt8) :
    (regs.add m).p.has .irqDisable = regs.p.has .irqDisable := by
  refine (Status.follow_irqDisable _ _).trans ?_
  rw [Status.has_set_of_ne _ (by decide), Status.has_set_of_ne _ (by decide)]

end Registers

/-! ### Instructions -/

/-- The three instructions that can clear the mask. -/
def Mnemonic.unmasks : Mnemonic → Bool
  | .cli | .plp | .rti => true
  | _ => false

namespace Exec

variable {δ μ α β : Type}

theorem run_get (core : Core δ μ) : (get : Exec δ μ (Core δ μ)).run core = (core, core) := rfl

/-- Requests that were masked before are masked after. -/
def KeepsMask (program : Exec δ μ α) : Prop :=
  ∀ core : Core δ μ, core.regs.Masked → (program.run core).2.regs.Masked

/-- Requests are masked after, whether they were before or not. -/
def Masks (program : Exec δ μ α) : Prop :=
  ∀ core : Core δ μ, (program.run core).2.regs.Masked

theorem KeepsMask.pure (value : α) : (Pure.pure value : Exec δ μ α).KeepsMask :=
  fun _ masked => masked

theorem KeepsMask.bind {program : Exec δ μ α} {next : α → Exec δ μ β} (first : program.KeepsMask)
    (rest : ∀ value, (next value).KeepsMask) : (program >>= next).KeepsMask :=
  fun core masked => rest _ _ (first core masked)

theorem Masks.keeps {program : Exec δ μ α} (masks : program.Masks) : program.KeepsMask :=
  fun core _ => masks core

/-- Setting the mask counts at the end of a sequence of actions. -/
theorem Masks.after (program : Exec δ μ α) {next : α → Exec δ μ β} (rest : ∀ value, (next value).Masks) :
    (program >>= next).Masks :=
  fun _ => rest _ _

theorem Masks.bind {program : Exec δ μ α} {next : α → Exec δ μ β} (first : program.Masks)
    (rest : ∀ value, (next value).KeepsMask) : (program >>= next).Masks :=
  fun core => rest _ _ (first core)

theorem keepsMask_regs : (regs : Exec δ μ Registers).KeepsMask := fun _ masked => masked

theorem keepsMask_update {change : Registers → Registers}
    (kept : ∀ regs, (change regs).p.has .irqDisable = regs.p.has .irqDisable) :
    (update change : Exec δ μ Unit).KeepsMask :=
  fun core masked => (kept core.regs).trans masked

theorem masks_update {change : Registers → Registers} (set : ∀ regs, (change regs).Masked) :
    (update change : Exec δ μ Unit).Masks :=
  fun core => set core.regs

/-! Reading -/

section Reading

variable [Device δ]

theorem keepsMask_read (address : UInt16) : (read address : Exec δ μ UInt8).KeepsMask :=
  fun _ masked => masked

theorem keepsMask_fetch : (fetch : Exec δ μ UInt8).KeepsMask :=
  keepsMask_regs.bind fun _ => (keepsMask_read _).bind fun _ =>
    (keepsMask_update fun _ => by rfl).bind fun _ => .pure _

theorem keepsMask_fetchWord : (fetchWord : Exec δ μ UInt16).KeepsMask :=
  keepsMask_fetch.bind fun _ => keepsMask_fetch.bind fun _ => .pure _

theorem keepsMask_pull : (pull : Exec δ μ UInt8).KeepsMask :=
  (keepsMask_update fun _ => by rfl).bind fun _ => keepsMask_regs.bind fun _ => keepsMask_read _

theorem keepsMask_pullWord : (pullWord : Exec δ μ UInt16).KeepsMask :=
  keepsMask_pull.bind fun _ => keepsMask_pull.bind fun _ => .pure _

theorem keepsMask_zeroPagePointer (cell : UInt8) :
    (zeroPagePointer cell : Exec δ μ UInt16).KeepsMask :=
  (keepsMask_read _).bind fun _ => (keepsMask_read _).bind fun _ => .pure _

theorem keepsMask_effective (mode : Mode) :
    (effective mode : Exec δ μ (Option Effective)).KeepsMask := by
  cases mode with
  | imm =>
    exact keepsMask_regs.bind fun _ => (keepsMask_update fun _ => by rfl).bind fun _ => .pure _
  | abs => exact keepsMask_fetchWord.bind fun _ => .pure _
  | absX | absY => exact keepsMask_fetchWord.bind fun _ => keepsMask_regs.bind fun _ => .pure _
  | zpg => exact keepsMask_fetch.bind fun _ => .pure _
  | zpgX | zpgY => exact keepsMask_fetch.bind fun _ => keepsMask_regs.bind fun _ => .pure _
  | ind => exact keepsMask_fetch.bind fun _ => (keepsMask_zeroPagePointer _).bind fun _ => .pure _
  | indX =>
    exact keepsMask_fetch.bind fun _ => keepsMask_regs.bind fun _ =>
      (keepsMask_zeroPagePointer _).bind fun _ => .pure _
  | indY =>
    exact keepsMask_fetch.bind fun _ => (keepsMask_zeroPagePointer _).bind fun _ =>
      keepsMask_regs.bind fun _ => .pure _
  | acc | regX | regY => exact .pure _

theorem keepsMask_operand (mode : Option Mode) :
    (operand mode : Exec δ μ (Place × Nat)).KeepsMask := by
  cases mode with
  | none => exact .pure _
  | some mode =>
    refine (keepsMask_effective mode).bind fun found => ?_
    cases found with
    | some found => exact .pure _
    | none => cases mode <;> exact .pure _

theorem keepsMask_operandOf (operation : Operation) :
    (operandOf operation : Exec δ μ (Place × Nat)).KeepsMask := by
  unfold operandOf
  split
  · exact .pure _
  · exact keepsMask_operand _

theorem keepsMask_load (place : Place) : (load place : Exec δ μ UInt8).KeepsMask := by
  cases place with
  | memory address => exact keepsMask_read address
  | a | x | y => exact keepsMask_regs.bind fun _ => .pure _

theorem keepsMask_branch (kind : Mnemonic) : (branch kind : Exec δ μ Nat).KeepsMask := by
  refine keepsMask_fetch.bind fun offset => keepsMask_regs.bind fun regs => ?_
  by_cases taken : regs.p.branches kind = true
  · simp only [if_pos taken]
    exact (keepsMask_update fun _ => by rfl).bind fun _ => .pure _
  · simp only [if_neg taken]
    exact .pure _

end Reading

/-! Writing -/

section Writing

variable [Device δ] [Monitor μ]

theorem keepsMask_write (address : UInt16) (data : UInt8) :
    (write address data : Exec δ μ Unit).KeepsMask :=
  fun _ masked => masked

theorem keepsMask_push (value : UInt8) : (push value : Exec δ μ Unit).KeepsMask :=
  keepsMask_regs.bind fun _ => (keepsMask_write _ _).bind fun _ => keepsMask_update fun _ => by rfl

theorem keepsMask_pushWord (value : UInt16) : (pushWord value : Exec δ μ Unit).KeepsMask :=
  (keepsMask_push _).bind fun _ => keepsMask_push _

theorem keepsMask_store (place : Place) (value : UInt8) :
    (store place value : Exec δ μ Unit).KeepsMask := by
  cases place with
  | memory address => exact keepsMask_write address value
  | a | x | y => exact keepsMask_update fun _ => by rfl

/-- The status that is stored comes from the registers as they are after the operand was read. -/
theorem keepsMask_change (place : Place) (kind : Change) :
    (change place kind : Exec δ μ Unit).KeepsMask := by
  refine (keepsMask_load place).bind fun value => fun core masked => ?_
  refine keepsMask_store place _ _ ?_
  exact ((Status.follow_irqDisable _ _).trans (Status.apply_irqDisable _ _ _)).trans masked

theorem masks_interrupt (vector : UInt16) : (interrupt vector : Exec δ μ Unit).Masks :=
  Masks.after _ fun _ core => core.regs.masked_setFlag_irqDisable

/-- A `BRK` instruction masks requests as an interrupt sequence does. -/
theorem masks_perform_brk (mode : Option Mode) (place : Place) :
    (perform ⟨.brk, mode⟩ place : Exec δ μ Nat).Masks :=
  Masks.after _ fun _ => Masks.after _ fun _ => Masks.bind
    (fun core => (core.regs.masked_setFlag_irqDisable.setFlag (by decide) _).setFlag (by decide) _)
    fun _ => .pure _

theorem keepsMask_perform {shape : Shape} (kept : shape.kind.unmasks = false) (place : Place) :
    (perform shape place : Exec δ μ Nat).KeepsMask := by
  obtain ⟨kind, mode⟩ := shape
  cases kind with
  | cli | plp | rti => contradiction
  | brk => exact (masks_perform_brk mode place).keeps
  | adc | sbc =>
    exact (keepsMask_load place).bind fun _ => keepsMask_regs.bind fun _ =>
      (keepsMask_update fun _ => by exact Registers.add_irqDisable _ _).bind fun _ => .pure _
  | and | ora | eor | lda | ldx | ldy =>
    exact (keepsMask_load place).bind fun _ =>
      (keepsMask_update fun _ => by exact Status.follow_irqDisable _ _).bind fun _ => .pure _
  | cmp | cpx | cpy =>
    exact (keepsMask_load place).bind fun _ =>
      (keepsMask_update fun _ => by exact Status.compare_irqDisable _ _ _).bind fun _ =>
        .pure _
  | bit =>
    exact (keepsMask_load place).bind fun _ =>
      (keepsMask_update fun _ => by exact Status.testBits_irqDisable _ _ _ _).bind fun _ =>
        .pure _
  | asl | lsr | rol | ror | inc | dec => exact (keepsMask_change place _).bind fun _ => .pure _
  | sta | stx | sty =>
    exact keepsMask_regs.bind fun _ => (keepsMask_store place _).bind fun _ => .pure _
  | jmp =>
    cases place with
    | memory address => exact (keepsMask_update fun _ => by rfl).bind fun _ => .pure _
    | a | x | y => exact .pure _
  | jsr =>
    cases place with
    | memory address =>
      exact keepsMask_regs.bind fun _ => (keepsMask_pushWord _).bind fun _ =>
        (keepsMask_update fun _ => by rfl).bind fun _ => .pure _
    | a | x | y => exact .pure _
  | rts =>
    exact keepsMask_pullWord.bind fun _ => (keepsMask_update fun _ => by rfl).bind fun _ => .pure _
  | pha | php | phx => exact keepsMask_regs.bind fun _ => (keepsMask_push _).bind fun _ => .pure _
  | pla | plx | ply =>
    exact keepsMask_pull.bind fun _ => (keepsMask_update fun _ => by exact Status.follow_irqDisable _ _).bind fun _ =>
      .pure _
  | tax | tay | txa | tya | tsx =>
    exact (keepsMask_update fun _ => by exact Status.follow_irqDisable _ _).bind fun _ => .pure _
  | txs => exact (keepsMask_update fun _ => by rfl).bind fun _ => .pure _
  | clc | cld | clv | sec | sed =>
    exact (keepsMask_update fun _ => by exact Status.has_set_of_ne _ (by decide) _).bind fun _ => .pure _
  | sei =>
    exact (masks_update fun regs => by exact regs.masked_setFlag_irqDisable).keeps.bind fun _ => .pure _
  | _ => exact .pure _

/-- A step keeps the mask, unless it runs one of the three. -/
theorem masked_step {core : Core δ μ} (masked : core.regs.Masked)
    (kept : ((step : Exec δ μ (Mnemonic × Nat)).run core).1.1.unmasks = false) :
    ((step : Exec δ μ (Mnemonic × Nat)).run core).2.regs.Masked := by
  rw [run_step_kind] at kept
  have fetched := (Prod.eta ((fetchOperation : Exec δ μ Operation).run core)).symm
  have before : ((fetchOperation : Exec δ μ Operation).run core).2.regs.Masked :=
    keepsMask_fetch core masked
  generalize ((fetchOperation : Exec δ μ Operation).run core).1 = operation at fetched kept
  generalize ((fetchOperation : Exec δ μ Operation).run core).2 = after at fetched before
  by_cases branches : operation.shape.kind.isBranch = true
  · rw [run_step_of_branch branches fetched]
    exact keepsMask_branch _ after before
  · rw [Bool.not_eq_true] at branches
    rw [run_step branches fetched (Prod.eta _).symm]
    exact keepsMask_perform kept _ _ (keepsMask_operandOf operation after before)

/-- A step of a `BRK` instruction masks requests. -/
theorem masked_step_of_brk {core : Core δ μ}
    (brk : ((step : Exec δ μ (Mnemonic × Nat)).run core).1.1 = .brk) :
    ((step : Exec δ μ (Mnemonic × Nat)).run core).2.regs.Masked := by
  rw [run_step_kind] at brk
  have fetched := (Prod.eta ((fetchOperation : Exec δ μ Operation).run core)).symm
  generalize ((fetchOperation : Exec δ μ Operation).run core).1 = operation at fetched brk
  obtain ⟨⟨kind, mode⟩, cycles⟩ := operation
  cases brk
  rw [run_step rfl fetched (Prod.eta _).symm]
  exact masks_perform_brk mode .a _

end Writing

end Exec

/-! ### Sequences -/

/-- The sequences in which requests become masked. -/
def Sequence.masks : Sequence → Bool
  | .reset | .nmi | .irq | .instruction .brk => true
  | .instruction _ => false

/-- The sequences after which requests may be taken again. -/
def Sequence.unmasks : Sequence → Bool
  | .instruction kind => kind.unmasks
  | .reset | .nmi | .irq => false

theorem Sequence.masks_instruction_iff {kind : Mnemonic} :
    (instruction kind).masks = true ↔ kind = .brk := by
  cases kind <;> decide

theorem Sequence.unmasks_instruction (kind : Mnemonic) :
    (instruction kind).unmasks = kind.unmasks := rfl

variable {δ μ : Type} [Device δ] [Monitor μ]

namespace Exec

/-- What a starting tick starts, with what it leaves of the mask. -/
theorem start_cases (nmiEdge : Bool) (core : Core δ μ) :
    let started := (start nmiEdge : Exec δ μ (Sequence × Nat)).run core
    let stepped := (step : Exec δ μ (Mnemonic × Nat)).run core
    ((started.1.1 = .reset ∨ started.1.1 = .nmi) ∧ started.2.regs.Masked) ∨
      (started.1.1 = .irq ∧ ¬core.regs.Masked ∧ started.2.regs.Masked) ∨
      (started.1.1 = .instruction stepped.1.1 ∧ started.2 = stepped.2) := by
  unfold start
  rw [run_bind, run_get]
  dsimp only
  by_cases reset : core.board.bus.resetLine = true
  · -- The mask is set before the decimal flag is cleared.
    simp only [if_pos reset]
    exact .inl ⟨.inl rfl, (Masks.after _ fun _ => (masks_interrupt _).bind fun _ =>
      (keepsMask_update fun _ => by exact Status.has_set_of_ne _ (by decide) _).bind fun _ =>
        .pure _) core⟩
  simp only [if_neg reset]
  by_cases edge : nmiEdge = true
  · simp only [if_pos edge]
    exact .inl ⟨.inr rfl, ((masks_interrupt _).bind fun _ => .pure _) core⟩
  simp only [if_neg edge]
  by_cases request : (core.board.bus.irq && !core.regs.p.has .irqDisable) = true
  · simp only [if_pos request]
    rw [Bool.and_eq_true, Bool.not_eq_true'] at request
    exact .inr (.inl ⟨rfl, Bool.eq_false_iff.1 request.2, ((masks_interrupt _).bind fun _ => .pure _) core⟩)
  · simp only [if_neg request]
    rw [run_bind]
    generalize (step : Exec δ μ (Mnemonic × Nat)).run core = stepped
    exact .inr (.inr ⟨rfl, rfl⟩)

variable {nmiEdge : Bool} {core : Core δ μ}

theorem masked_start_of_masks
    (masks : ((start nmiEdge : Exec δ μ (Sequence × Nat)).run core).1.1.masks = true) :
    ((start nmiEdge : Exec δ μ (Sequence × Nat)).run core).2.regs.Masked := by
  obtain ⟨-, after⟩ | ⟨-, -, after⟩ | ⟨started, after⟩ := start_cases nmiEdge core
  · exact after
  · exact after
  · rw [after]
    rw [started] at masks
    exact masked_step_of_brk (Sequence.masks_instruction_iff.1 masks)

variable (nmiEdge core) in
/-- While requests are masked none is taken, and they stay masked but for the three instructions. -/
theorem start_of_masked (masked : core.regs.Masked) :
    let started := (start nmiEdge : Exec δ μ (Sequence × Nat)).run core
    started.1.1 ≠ .irq ∧ (started.1.1.unmasks = false → started.2.regs.Masked) := by
  dsimp only
  obtain ⟨started | started, after⟩ | ⟨-, unmasked, -⟩ | ⟨started, after⟩ := start_cases nmiEdge core
  · exact ⟨by rw [started]; exact Sequence.noConfusion, fun _ => after⟩
  · exact ⟨by rw [started]; exact Sequence.noConfusion, fun _ => after⟩
  · exact absurd masked unmasked
  · rw [started, after, Sequence.unmasks_instruction]
    exact ⟨Sequence.noConfusion, masked_step masked⟩

end Exec

/-! ### Runs -/

namespace Cpu

/-- What the next tick starts: nothing while a sequence is under way, and nothing where the monitor
asks for a halt. -/
def starts (cpu : Cpu) (board : Board δ μ) : Option Sequence :=
  if cpu.busy then none
  else
    match board.ask (.nextInstruction cpu.regs.pc) with
    | (true, _) => none
    | (false, board) =>
      some ((Exec.start (board.bus.nmi && !cpu.lastNmi) : Exec δ μ (Sequence × Nat)).run
        ⟨cpu.regs, board⟩).1.1

/-- The sequences that a run starts, in their order. Before each tick the lines, the devices, the
monitor and the terminal change in any way at all. -/
def started (cpu : Cpu) (board : Board δ μ) : List (Board δ μ → Board δ μ) → List Sequence
  | [] => []
  | change :: rest =>
    let after := (cpu.tick (change board)).2
    (cpu.starts (change board)).toList ++ started after.1 after.2 rest

variable {cpu : Cpu} {board : Board δ μ}

/-- A tick starts nothing and leaves the registers, or it is the tick that starts a sequence. -/
theorem tick_cases (cpu : Cpu) (board : Board δ μ) :
    (cpu.starts board = none ∧ (cpu.tick board).2.1.regs = cpu.regs) ∨
      ∃ nmiEdge asked,
        let started := (Exec.start nmiEdge : Exec δ μ (Sequence × Nat)).run ⟨cpu.regs, asked⟩
        cpu.starts board = some started.1.1 ∧ (cpu.tick board).2.1.regs = started.2.regs := by
  unfold starts tick busy
  by_cases idle : cpu.remaining = 0
  · rw [if_neg (by rw [idle]; decide), if_neg (fun busy => busy idle)]
    match board.ask (.nextInstruction cpu.regs.pc) with
    | (true, _) => exact .inl ⟨rfl, rfl⟩
    | (false, asked) => exact .inr ⟨asked.bus.nmi && !cpu.lastNmi, asked, rfl, rfl⟩
  · rw [if_pos (bne_iff_ne.2 idle), if_pos idle]
    exact .inl ⟨rfl, rfl⟩

theorem masked_tick_of_masks {sequence : Sequence} (begins : cpu.starts board = some sequence)
    (masks : sequence.masks = true) : (cpu.tick board).2.1.regs.Masked := by
  obtain ⟨idle, -⟩ | ⟨nmiEdge, asked, starts, regs⟩ := tick_cases cpu board
  · rw [idle] at begins
    contradiction
  · rw [starts, Option.some.injEq] at begins
    rw [regs]
    exact Exec.masked_start_of_masks (begins ▸ masks)

variable (board) in
/-- The step of the invariant: a masked processor takes no request in a tick, and is masked after it
unless the tick has started one of the three instructions. -/
theorem tick_of_masked (masked : cpu.regs.Masked) :
    cpu.starts board ≠ some .irq ∧
      ((∀ sequence ∈ cpu.starts board, sequence.unmasks = false) →
        (cpu.tick board).2.1.regs.Masked) := by
  obtain ⟨idle, regs⟩ | ⟨nmiEdge, asked, starts, regs⟩ := tick_cases cpu board
  · rw [idle, regs]
    exact ⟨nofun, fun _ => masked⟩
  · obtain ⟨irq, after⟩ := Exec.start_of_masked nmiEdge ⟨cpu.regs, asked⟩ masked
    rw [starts, regs]
    exact ⟨fun taken => irq (Option.some.inj taken), fun kept => after (kept _ rfl)⟩

/-- The invariant along a run. -/
theorem unmasks_before_irq (masked : cpu.regs.Masked) {changes : List (Board δ μ → Board δ μ)}
    {before after : List Sequence} (run : cpu.started board changes = before ++ .irq :: after) :
    ∃ sequence ∈ before, sequence.unmasks = true := by
  induction changes generalizing cpu board before with
  | nil =>
    rw [started, List.nil_eq_append_iff] at run
    exact absurd run.2 (List.cons_ne_nil _ _)
  | cons change rest inductionHypothesis =>
    obtain ⟨quiet, kept⟩ := tick_of_masked (change board) masked
    rw [started] at run
    cases starts : cpu.starts (change board) with
    | none =>
      rw [starts] at run kept
      exact inductionHypothesis (kept nofun) run
    | some sequence =>
      rw [starts] at run kept quiet
      cases before with
      | nil => exact absurd (congrArg some (List.cons.inj run).1) quiet
      | cons first later =>
        obtain ⟨rfl, tail⟩ := List.cons.inj run
        by_cases unmasks : sequence.unmasks = true
        · exact ⟨sequence, List.mem_cons_self, unmasks⟩
        · rw [Bool.not_eq_true] at unmasks
          obtain ⟨found, member, unmasks⟩ := inductionHypothesis (kept (by simpa using unmasks)) tail
          exact ⟨found, List.mem_cons_of_mem _ member, unmasks⟩

/-- What a run starts after a sequence is what the run from there on starts. -/
theorem started_after {changes : List (Board δ μ → Board δ μ)} {before after : List Sequence}
    {sequence : Sequence} (run : cpu.started board changes = before ++ sequence :: after) :
    ∃ (cpu' : Cpu) (board' : Board δ μ) (rest : List (Board δ μ → Board δ μ)),
      cpu'.starts board' = some sequence ∧
        (cpu'.tick board').2.1.started (cpu'.tick board').2.2 rest = after := by
  induction changes generalizing cpu board before with
  | nil =>
    rw [started, List.nil_eq_append_iff] at run
    exact absurd run.2 (List.cons_ne_nil _ _)
  | cons change rest inductionHypothesis =>
    rw [started] at run
    cases starts : cpu.starts (change board) with
    | none =>
      rw [starts] at run
      exact inductionHypothesis run
    | some first =>
      rw [starts] at run
      cases before with
      | nil =>
        obtain ⟨rfl, tail⟩ := List.cons.inj run
        exact ⟨cpu, change board, rest, starts, tail⟩
      | cons first later => exact inductionHypothesis (List.cons.inj run).2

/-- A masked processor takes no interrupt request before one of `CLI`, `PLP` and `RTI` has been
executed. It is masked when it has come up, and after every reset, NMI, IRQ and `BRK`; so two requests
are never taken without one of the three in between. -/
theorem irq_waits_for_unmasking (cpu : Cpu) (board : Board δ μ)
    (changes : List (Board δ μ → Board δ μ)) :
    (∀ before after, cpu.regs.Masked → cpu.started board changes = before ++ .irq :: after →
      ∃ sequence ∈ before, sequence.unmasks = true) ∧
    (∀ before masking between after, masking.masks = true →
      cpu.started board changes = before ++ masking :: (between ++ .irq :: after) →
      ∃ sequence ∈ between, sequence.unmasks = true) ∧
    (cpu.powerup board).1.regs.Masked ∧
    (∀ sequence, sequence.masks = true → cpu.starts board = some sequence →
      (cpu.tick board).2.1.regs.Masked) := by
  refine ⟨fun before after masked run => unmasks_before_irq masked run, ?_,
    cpu.regs.masked_setFlag_irqDisable.setFlag (by decide) _,
    fun sequence masks begins => masked_tick_of_masks begins masks⟩
  intro before masking between after masks run
  obtain ⟨cpu', board', rest, begins, run⟩ := started_after run
  exact unmasks_before_irq (masked_tick_of_masks begins masks) run

/-- The only memory cell holds a `CLI`, and every vector leads to it. A masked processor executes a `BRK`
where there is no memory, then the `CLI`, and takes the request on the line; then the same again but
for the `BRK`. -/
theorem irq_waits_for_unmasking_twice :
    let cpu : Cpu := { regs := { pc := 0xFFFF, p := ⟨0x04⟩ } }
    let memory : Block := ⟨⟨0x0000, 0x0000, by decide⟩, #v[0x58]⟩
    let board : Board Peripheral Silent :=
      { bus := { devices := [.ram memory], irqLine := true }, monitor := .silent }
    cpu.regs.Masked ∧
      cpu.started board (List.replicate 19 id) =
        [.instruction .brk, .instruction .cli] ++ .irq :: ([.instruction .cli] ++ .irq :: []) ∧
      (∃ sequence ∈ [Sequence.instruction .brk, .instruction .cli], sequence.unmasks = true) ∧
      (∃ sequence ∈ [Sequence.instruction .cli], sequence.unmasks = true) ∧
      cpu.starts board = some (.instruction .brk) ∧ (cpu.tick board).2.1.regs.Masked := by
  intro cpu memory board
  have masked : cpu.regs.Masked := by decide
  have run : cpu.started board (List.replicate 19 id) =
      [.instruction .brk, .instruction .cli] ++ .irq :: ([.instruction .cli] ++ .irq :: []) := by
    decide +kernel
  have starts : cpu.starts board = some (.instruction .brk) := by decide +kernel
  obtain ⟨first, next, -, after⟩ := irq_waits_for_unmasking cpu board (List.replicate 19 id)
  exact ⟨masked, run, first _ _ masked run, next _ .irq _ _ rfl run, starts, after _ rfl starts⟩

end Cpu

end Micro65
