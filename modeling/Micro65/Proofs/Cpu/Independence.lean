import Micro65.Cpu.Clock

set_option autoImplicit false

/-!
What the processor does whoever watches. Two cores agree if they differ in their monitors, their
terminals and requested halts only. Every action of the processor answers the same on cores that agree,
and leaves cores that agree.
-/

namespace Micro65

variable {δ μ ν : Type}

/-- The same devices under the same lines. -/
structure Bus.Agrees (bus other : Bus δ) : Prop where
  devices : bus.devices = other.devices
  irqLine : bus.irqLine = other.irqLine
  nmiLine : bus.nmiLine = other.nmiLine
  resetLine : bus.resetLine = other.resetLine

theorem Bus.Agrees.trans {bus middle other : Bus δ} (first : bus.Agrees middle)
    (second : middle.Agrees other) : bus.Agrees other :=
  ⟨first.devices.trans second.devices, first.irqLine.trans second.irqLine,
    first.nmiLine.trans second.nmiLine, first.resetLine.trans second.resetLine⟩

structure Core.Agrees (core : Core δ μ) (other : Core δ ν) : Prop where
  regs : core.regs = other.regs
  bus : core.board.bus.Agrees other.board.bus

namespace Bus.Agrees

variable [Device δ] {bus other : Bus δ}

theorem nmi (agrees : bus.Agrees other) : bus.nmi = other.nmi := by
  unfold Bus.nmi
  rw [agrees.nmiLine, agrees.devices]

theorem irq (agrees : bus.Agrees other) : bus.irq = other.irq := by
  unfold Bus.irq
  rw [agrees.irqLine, agrees.devices]

theorem read (agrees : bus.Agrees other) (address : UInt16) :
    (bus.read address).1 = (other.read address).1 ∧
      (bus.read address).2.Agrees (other.read address).2 := by
  unfold Bus.read
  dsimp only
  rw [agrees.devices]
  exact ⟨rfl, rfl, agrees.irqLine, agrees.nmiLine, agrees.resetLine⟩

theorem write (agrees : bus.Agrees other) (address : UInt16) (data : UInt8) :
    (bus.write address data).1.Agrees (other.write address data).1 := by
  unfold Bus.write
  dsimp only
  rw [agrees.devices]
  exact ⟨rfl, agrees.irqLine, agrees.nmiLine, agrees.resetLine⟩

theorem tick (agrees : bus.Agrees other) : bus.tick.Agrees other.tick :=
  ⟨congrArg (List.map Device.tick) agrees.devices, agrees.irqLine, agrees.nmiLine,
    agrees.resetLine⟩

end Bus.Agrees

namespace Exec

variable {α β : Type}

/-- The same action under one monitor and under another. -/
def Agrees (program : Exec δ μ α) (other : Exec δ ν α) : Prop :=
  ∀ (core : Core δ μ) (core' : Core δ ν), core.Agrees core' →
    (program.run core).1 = (other.run core').1 ∧
      (program.run core).2.Agrees (other.run core').2

theorem Agrees.pure (value : α) :
    Agrees (Pure.pure value : Exec δ μ α) (Pure.pure value : Exec δ ν α) :=
  fun _ _ agrees => ⟨rfl, agrees⟩

theorem Agrees.bind {program : Exec δ μ α} {other : Exec δ ν α} {next : α → Exec δ μ β}
    {next' : α → Exec δ ν β} (first : program.Agrees other)
    (rest : ∀ value, (next value).Agrees (next' value)) :
    (program >>= next).Agrees (other >>= next') := by
  intro core core' agrees
  obtain ⟨answer, after⟩ := first core core' agrees
  have later := rest (program.run core).1 _ _ after
  rw [answer] at later
  change ((next (program.run core).1).run (program.run core).2).1 =
      ((next' (other.run core').1).run (other.run core').2).1 ∧
    ((next (program.run core).1).run (program.run core).2).2.Agrees
      ((next' (other.run core').1).run (other.run core').2).2
  rw [answer]
  exact later

theorem Agrees.get_bind {next : Core δ μ → Exec δ μ α} {next' : Core δ ν → Exec δ ν α}
    (rest : ∀ core core', core.Agrees core' → (next core).Agrees (next' core')) :
    (get >>= next).Agrees (get >>= next') :=
  fun core core' agrees => rest core core' agrees core core' agrees

theorem agrees_regs : (regs : Exec δ μ Registers).Agrees (regs : Exec δ ν Registers) :=
  fun _ _ agrees => ⟨agrees.regs, agrees⟩

theorem agrees_update (change : Registers → Registers) :
    (update change : Exec δ μ Unit).Agrees (update change : Exec δ ν Unit) :=
  fun _ _ agrees => ⟨rfl, congrArg change agrees.regs, agrees.bus⟩

/-! ### Reading -/

section Reading

variable [Device δ]

theorem agrees_read (address : UInt16) :
    (read address : Exec δ μ UInt8).Agrees (read address : Exec δ ν UInt8) := by
  intro core core' agrees
  obtain ⟨answer, after⟩ := agrees.bus.read address
  exact ⟨answer, agrees.regs, after⟩

theorem agrees_readWord (address : UInt16) :
    (readWord address : Exec δ μ UInt16).Agrees (readWord address : Exec δ ν UInt16) :=
  (agrees_read _).bind fun _ => (agrees_read _).bind fun _ => .pure _

theorem agrees_fetch : (fetch : Exec δ μ UInt8).Agrees (fetch : Exec δ ν UInt8) :=
  agrees_regs.bind fun _ => (agrees_read _).bind fun _ => (agrees_update _).bind fun _ => .pure _

theorem agrees_fetchWord : (fetchWord : Exec δ μ UInt16).Agrees (fetchWord : Exec δ ν UInt16) :=
  agrees_fetch.bind fun _ => agrees_fetch.bind fun _ => .pure _

theorem agrees_pull : (pull : Exec δ μ UInt8).Agrees (pull : Exec δ ν UInt8) :=
  (agrees_update _).bind fun _ => agrees_regs.bind fun _ => agrees_read _

theorem agrees_pullWord : (pullWord : Exec δ μ UInt16).Agrees (pullWord : Exec δ ν UInt16) :=
  agrees_pull.bind fun _ => agrees_pull.bind fun _ => .pure _

theorem agrees_zeroPagePointer (cell : UInt8) :
    (zeroPagePointer cell : Exec δ μ UInt16).Agrees (zeroPagePointer cell : Exec δ ν UInt16) :=
  (agrees_read _).bind fun _ => (agrees_read _).bind fun _ => .pure _

theorem agrees_effective (mode : Mode) :
    (effective mode : Exec δ μ (Option Effective)).Agrees
      (effective mode : Exec δ ν (Option Effective)) := by
  cases mode with
  | imm => exact agrees_regs.bind fun _ => (agrees_update _).bind fun _ => .pure _
  | abs => exact agrees_fetchWord.bind fun _ => .pure _
  | absX => exact agrees_fetchWord.bind fun _ => agrees_regs.bind fun _ => .pure _
  | absY => exact agrees_fetchWord.bind fun _ => agrees_regs.bind fun _ => .pure _
  | zpg => exact agrees_fetch.bind fun _ => .pure _
  | zpgX => exact agrees_fetch.bind fun _ => agrees_regs.bind fun _ => .pure _
  | zpgY => exact agrees_fetch.bind fun _ => agrees_regs.bind fun _ => .pure _
  | ind => exact agrees_fetch.bind fun _ => (agrees_zeroPagePointer _).bind fun _ => .pure _
  | indX =>
    exact agrees_fetch.bind fun _ => agrees_regs.bind fun _ =>
      (agrees_zeroPagePointer _).bind fun _ => .pure _
  | indY =>
    exact agrees_fetch.bind fun _ => (agrees_zeroPagePointer _).bind fun _ =>
      agrees_regs.bind fun _ => .pure _
  | _ => exact .pure _

theorem agrees_operand (mode : Option Mode) :
    (operand mode : Exec δ μ (Place × Nat)).Agrees (operand mode : Exec δ ν (Place × Nat)) := by
  cases mode with
  | none => exact .pure _
  | some mode =>
    refine (agrees_effective mode).bind fun found => ?_
    cases found with
    | some found => exact .pure _
    | none => cases mode <;> exact .pure _

theorem agrees_load (place : Place) :
    (load place : Exec δ μ UInt8).Agrees (load place : Exec δ ν UInt8) := by
  cases place with
  | memory address => exact agrees_read address
  | _ => exact agrees_regs.bind fun _ => .pure _

theorem agrees_branch (kind : Mnemonic) :
    (branch kind : Exec δ μ Nat).Agrees (branch kind : Exec δ ν Nat) := by
  refine agrees_fetch.bind fun offset => agrees_regs.bind fun regs => ?_
  by_cases taken : regs.p.branches kind = true
  · simp only [if_pos taken]
    exact (agrees_update _).bind fun _ => .pure _
  · simp only [if_neg taken]
    exact .pure _

end Reading

/-! ### Writing -/

section Writing

variable [Device δ] [Monitor μ] [Monitor ν]

/-- What the monitor answers to a write is kept apart from the devices. -/
theorem agrees_write (address : UInt16) (data : UInt8) :
    (write address data : Exec δ μ Unit).Agrees (write address data : Exec δ ν Unit) := by
  intro core core' agrees
  have after := agrees.bus.write address data
  exact ⟨rfl, agrees.regs, after.devices, after.irqLine, after.nmiLine, after.resetLine⟩

theorem agrees_push (value : UInt8) :
    (push value : Exec δ μ Unit).Agrees (push value : Exec δ ν Unit) :=
  agrees_regs.bind fun _ => (agrees_write _ _).bind fun _ => agrees_update _

theorem agrees_pushWord (value : UInt16) :
    (pushWord value : Exec δ μ Unit).Agrees (pushWord value : Exec δ ν Unit) :=
  (agrees_push _).bind fun _ => agrees_push _

theorem agrees_store (place : Place) (value : UInt8) :
    (store place value : Exec δ μ Unit).Agrees (store place value : Exec δ ν Unit) := by
  cases place with
  | memory address => exact agrees_write address value
  | _ => exact agrees_update _

theorem agrees_change (place : Place) (kind : Change) :
    (change place kind : Exec δ μ Unit).Agrees (change place kind : Exec δ ν Unit) :=
  (agrees_load place).bind fun _ => agrees_regs.bind fun _ => (agrees_update _).bind fun _ =>
    agrees_store _ _

theorem agrees_enter (vector : UInt16) :
    (enter vector : Exec δ μ Unit).Agrees (enter vector : Exec δ ν Unit) :=
  agrees_regs.bind fun _ => (agrees_pushWord _).bind fun _ => agrees_regs.bind fun _ =>
    (agrees_push _).bind fun _ => (agrees_readWord _).bind fun _ => agrees_update _

theorem agrees_interrupt (vector : UInt16) :
    (interrupt vector : Exec δ μ Unit).Agrees (interrupt vector : Exec δ ν Unit) :=
  (agrees_enter vector).bind fun _ => agrees_update _

theorem agrees_perform (shape : Shape) (place : Place) :
    (perform shape place : Exec δ μ Nat).Agrees (perform shape place : Exec δ ν Nat) := by
  obtain ⟨kind, mode⟩ := shape
  unfold perform
  cases kind with
  | adc | sbc =>
    exact (agrees_load place).bind fun _ => agrees_regs.bind fun _ =>
      (agrees_update _).bind fun _ => .pure _
  | and | ora | eor | cmp | cpx | cpy | bit | lda | ldx | ldy =>
    exact (agrees_load place).bind fun _ => (agrees_update _).bind fun _ => .pure _
  | asl | lsr | rol | ror | inc | dec => exact (agrees_change place _).bind fun _ => .pure _
  | sta | stx | sty =>
    exact agrees_regs.bind fun _ => (agrees_store place _).bind fun _ => .pure _
  | jmp =>
    cases place with
    | memory address => exact (agrees_update _).bind fun _ => .pure _
    | _ => exact .pure _
  | jsr =>
    cases place with
    | memory address =>
      exact agrees_regs.bind fun _ => (agrees_pushWord _).bind fun _ =>
        (agrees_update _).bind fun _ => .pure _
    | _ => exact .pure _
  | rts => exact agrees_pullWord.bind fun _ => (agrees_update _).bind fun _ => .pure _
  | rti =>
    exact agrees_pull.bind fun _ => agrees_pullWord.bind fun _ => (agrees_update _).bind fun _ =>
      .pure _
  | brk =>
    exact (agrees_update _).bind fun _ => (agrees_enter _).bind fun _ =>
      (agrees_update _).bind fun _ => .pure _
  | pha | php | phx => exact agrees_regs.bind fun _ => (agrees_push _).bind fun _ => .pure _
  | pla | plx | ply | plp =>
    exact agrees_pull.bind fun _ => (agrees_update _).bind fun _ => .pure _
  | tax | tay | txa | tya | tsx | txs | clc | cld | cli | clv | sec | sed | sei =>
    exact (agrees_update _).bind fun _ => .pure _
  | _ => exact .pure _

theorem agrees_step :
    (step : Exec δ μ (Mnemonic × Nat)).Agrees (step : Exec δ ν (Mnemonic × Nat)) := by
  refine agrees_fetch.bind fun code => ?_
  dsimp only
  generalize (Operation.ofCode? code).getD .undefined = operation
  by_cases branches : operation.shape.kind.isBranch = true
  · simp only [if_pos branches]
    exact (agrees_branch _).bind fun _ => .pure _
  · simp only [if_neg branches]
    by_cases implied : operation.shape.kind.isImplied = true
    · simp only [if_pos implied]
      exact (Agrees.pure _).bind fun _ => (agrees_perform _ _).bind fun _ => .pure _
    · simp only [if_neg implied]
      exact (agrees_operand _).bind fun _ => (agrees_perform _ _).bind fun _ => .pure _

theorem agrees_start (nmiEdge : Bool) :
    (start nmiEdge : Exec δ μ (Sequence × Nat)).Agrees
      (start nmiEdge : Exec δ ν (Sequence × Nat)) := by
  refine Agrees.get_bind fun core core' agrees => ?_
  dsimp only
  rw [agrees.bus.resetLine, agrees.bus.irq, agrees.regs]
  by_cases reset : core'.board.bus.resetLine = true
  · simp only [if_pos reset]
    exact (agrees_update _).bind fun _ => (agrees_interrupt _).bind fun _ =>
      (agrees_update _).bind fun _ => .pure _
  · simp only [if_neg reset]
    by_cases edge : nmiEdge = true
    · simp only [if_pos edge]
      exact (agrees_interrupt _).bind fun _ => .pure _
    · simp only [if_neg edge]
      by_cases request : (core'.board.bus.irq && !core'.regs.p.has .irqDisable) = true
      · simp only [if_pos request]
        exact (agrees_interrupt _).bind fun _ => .pure _
      · simp only [if_neg request]
        exact agrees_step.bind fun _ => .pure _

end Writing
end Exec
end Micro65
