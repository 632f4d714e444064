import Micro65.Monitor.Trace
import Micro65.Proofs.Bus.Accesses
import Micro65.Proofs.Cpu.Ticks

set_option autoImplicit false

/-!
How often the processor writes. Every action of the processor is put together from reads, writes and
changes of the registers, so what it does to devices and monitor is settled by these; and how many writes
there are is bounded along the way. A sequence that enters a handler makes three, no instruction makes
more.
-/

namespace Micro65

/-- Where an access writes what. -/
def Access.write? : Access → Option (UInt16 × UInt8)
  | .read _ => none
  | .write address data => some (address, data)

/-- What a trace records of a write: the report before it, and the question after it. -/
def Event.ofWrite (write : UInt16 × UInt8) : List Event :=
  [.write write.1 write.2, .asked (.addressChanged write.1)]

theorem Trace.events_push (trace : Trace) (event : Event) :
    (trace.push event).events = trace.events ++ [event] := List.reverse_cons

variable {δ μ α β : Type} [Device δ]

namespace Exec

/-- The action is put together from reads, changes of the registers and, whatever course it takes, at
least `low` and at most `high` writes. -/
inductive Writes [Monitor μ] : Nat → Nat → {α : Type} → Exec δ μ α → Prop where
  | pure {α : Type} (value : α) : Writes 0 0 (Pure.pure value)
  | regs : Writes 0 0 regs
  | update (change : Registers → Registers) : Writes 0 0 (update change)
  | read (address : UInt16) : Writes 0 0 (read address)
  | write (address : UInt16) (data : UInt8) : Writes 1 1 (write address data)
  | bind {α β : Type} {low high low' high' : Nat} {program : Exec δ μ α} {next : α → Exec δ μ β}
      (first : Writes low high program) (rest : ∀ value, Writes low' high' (next value)) :
      Writes (low + low') (high + high') (program >>= next)
  | mono {α : Type} (low high : Nat) {low' high' : Nat} {program : Exec δ μ α} (fewer : low' ≤ low)
      (more : high ≤ high') (writes : Writes low high program) : Writes low' high' program

/-- Actions that write nothing do not count. -/
theorem Writes.after [Monitor μ] {low high : Nat} {program : Exec δ μ α} {next : α → Exec δ μ β}
    (quiet : Writes 0 0 program) (rest : ∀ value, Writes low high (next value)) :
    Writes low high (program >>= next) := by
  have both := quiet.bind rest
  rwa [Nat.zero_add, Nat.zero_add] at both

/-- A bound on the writes, where none are asked for. -/
theorem Writes.upTo [Monitor μ] {low high bound : Nat} {program : Exec δ μ α}
    (writes : Writes low high program) (more : high ≤ bound := by decide) : Writes 0 bound program :=
  .mono low high (Nat.zero_le low) more writes

/-! ### Actions -/

section Actions

variable [Monitor μ]

theorem writes_readWord (address : UInt16) : (readWord address : Exec δ μ UInt16).Writes 0 0 :=
  (Writes.read _).after fun _ => (Writes.read _).after fun _ => .pure _

theorem writes_fetch : (fetch : Exec δ μ UInt8).Writes 0 0 :=
  Writes.regs.after fun _ => (Writes.read _).after fun _ => (Writes.update _).after fun _ => .pure _

theorem writes_fetchWord : (fetchWord : Exec δ μ UInt16).Writes 0 0 :=
  writes_fetch.after fun _ => writes_fetch.after fun _ => .pure _

theorem writes_pull : (pull : Exec δ μ UInt8).Writes 0 0 :=
  (Writes.update _).after fun _ => Writes.regs.after fun _ => .read _

theorem writes_pullWord : (pullWord : Exec δ μ UInt16).Writes 0 0 :=
  writes_pull.after fun _ => writes_pull.after fun _ => .pure _

theorem writes_zeroPagePointer (cell : UInt8) :
    (zeroPagePointer cell : Exec δ μ UInt16).Writes 0 0 :=
  (Writes.read _).after fun _ => (Writes.read _).after fun _ => .pure _

theorem writes_effective (mode : Mode) :
    (effective mode : Exec δ μ (Option Effective)).Writes 0 0 := by
  cases mode with
  | imm => exact Writes.regs.after fun _ => (Writes.update _).after fun _ => .pure _
  | abs => exact writes_fetchWord.after fun _ => .pure _
  | absX | absY => exact writes_fetchWord.after fun _ => Writes.regs.after fun _ => .pure _
  | zpg => exact writes_fetch.after fun _ => .pure _
  | zpgX | zpgY => exact writes_fetch.after fun _ => Writes.regs.after fun _ => .pure _
  | ind => exact writes_fetch.after fun _ => (writes_zeroPagePointer _).after fun _ => .pure _
  | indX =>
    exact writes_fetch.after fun _ => Writes.regs.after fun _ =>
      (writes_zeroPagePointer _).after fun _ => .pure _
  | indY =>
    exact writes_fetch.after fun _ => (writes_zeroPagePointer _).after fun _ =>
      Writes.regs.after fun _ => .pure _
  | acc | regX | regY => exact .pure _

theorem writes_operand (mode : Option Mode) :
    (operand mode : Exec δ μ (Place × Nat)).Writes 0 0 := by
  cases mode with
  | none => exact .pure _
  | some mode =>
    refine (writes_effective mode).after fun found => ?_
    cases found with
    | some found => exact .pure _
    | none => cases mode <;> exact .pure _

theorem writes_operandOf (operation : Operation) :
    (operandOf operation : Exec δ μ (Place × Nat)).Writes 0 0 := by
  unfold operandOf
  split
  · exact .pure _
  · exact writes_operand _

theorem writes_load (place : Place) : (load place : Exec δ μ UInt8).Writes 0 0 := by
  cases place with
  | memory address => exact .read address
  | a | x | y => exact Writes.regs.after fun _ => .pure _

theorem writes_branch (kind : Mnemonic) : (branch kind : Exec δ μ Nat).Writes 0 0 := by
  refine writes_fetch.after fun offset => Writes.regs.after fun regs => ?_
  by_cases taken : regs.p.branches kind = true
  · simp only [if_pos taken]
    exact (Writes.update _).after fun _ => .pure _
  · simp only [if_neg taken]
    exact .pure _

theorem writes_push (value : UInt8) : (push value : Exec δ μ Unit).Writes 1 1 :=
  Writes.regs.after fun _ => (Writes.write _ _).bind fun _ => .update _

theorem writes_pushWord (value : UInt16) : (pushWord value : Exec δ μ Unit).Writes 2 2 :=
  (writes_push _).bind fun _ => writes_push _

theorem writes_store (place : Place) (value : UInt8) :
    (store place value : Exec δ μ Unit).Writes 0 1 := by
  unfold store
  cases place with
  | memory address => exact .upTo (.write _ _)
  | a | x | y => exact .upTo (.update _)

theorem writes_change (place : Place) (kind : Change) :
    (change place kind : Exec δ μ Unit).Writes 0 1 :=
  (writes_load place).after fun _ => Writes.regs.after fun _ => (Writes.update _).after fun _ =>
    writes_store _ _

theorem writes_enter (vector : UInt16) : (enter vector : Exec δ μ Unit).Writes 3 3 :=
  Writes.regs.after fun _ => (writes_pushWord _).bind fun _ => Writes.regs.after fun _ =>
    (writes_push _).bind fun _ => (writes_readWord _).after fun _ => .update _

theorem writes_interrupt (vector : UInt16) : (interrupt vector : Exec δ μ Unit).Writes 3 3 :=
  (writes_enter vector).bind fun _ => .update _

theorem writes_reset : (reset : Exec δ μ Unit).Writes 3 3 :=
  (Writes.update _).after fun _ => (writes_interrupt _).bind fun _ => .update _

theorem writes_perform_brk (mode : Option Mode) (place : Place) :
    (perform ⟨.brk, mode⟩ place : Exec δ μ Nat).Writes 3 3 :=
  (Writes.update _).after fun _ => (writes_enter _).bind fun _ => (Writes.update _).after fun _ => .pure _

/-- No instruction writes more than a `BRK` does. -/
theorem writes_perform (shape : Shape) (place : Place) :
    (perform shape place : Exec δ μ Nat).Writes 0 3 := by
  obtain ⟨kind, mode⟩ := shape
  cases kind with
  | adc | sbc =>
    exact .upTo <| (writes_load place).after fun _ => Writes.regs.after fun _ =>
      (Writes.update _).after fun _ => .pure _
  | and | ora | eor | cmp | cpx | cpy | bit | lda | ldx | ldy =>
    exact .upTo <| (writes_load place).after fun _ => (Writes.update _).after fun _ => .pure _
  | asl | lsr | rol | ror | inc | dec =>
    exact .upTo <| (writes_change place _).bind fun _ => .pure _
  | sta | stx | sty =>
    exact .upTo <| Writes.regs.after fun _ => (writes_store place _).bind fun _ => .pure _
  | jmp =>
    cases place with
    | memory address => exact .upTo <| (Writes.update _).after fun _ => .pure _
    | a | x | y => exact .upTo (.pure _)
  | jsr =>
    cases place with
    | memory address =>
      exact .upTo <| Writes.regs.after fun _ =>
        (writes_pushWord _).bind fun _ => (Writes.update _).after fun _ => .pure _
    | a | x | y => exact .upTo (.pure _)
  | rts =>
    exact .upTo <| writes_pullWord.after fun _ => (Writes.update _).after fun _ => .pure _
  | rti =>
    exact .upTo <| writes_pull.after fun _ => writes_pullWord.after fun _ =>
      (Writes.update _).after fun _ => .pure _
  | brk => exact .upTo (writes_perform_brk mode place)
  | pha | php | phx =>
    exact .upTo <| Writes.regs.after fun _ => (writes_push _).bind fun _ => .pure _
  | pla | plx | ply | plp =>
    exact .upTo <| writes_pull.after fun _ => (Writes.update _).after fun _ => .pure _
  | tax | tay | txa | tya | tsx | txs | clc | cld | cli | clv | sec | sed | sei =>
    exact .upTo <| (Writes.update _).after fun _ => .pure _
  | _ => exact .upTo (.pure _)

end Actions

end Exec

/-! ### What is written -/

/-- From one core to the other these writes have been made: the devices have been shown them among their
reads, and the trace has recorded them. -/
structure Core.Wrote (writes : List (UInt16 × UInt8)) (core other : Core δ Trace) : Prop where
  shown : ∃ accesses : List Access, accesses.filterMap Access.write? = writes ∧
    other.board.bus.devices = core.board.bus.devices.map (accesses.foldl Device.after ·)
  events : other.board.monitor.events = core.board.monitor.events ++ writes.flatMap Event.ofWrite
  flags : other.board.monitor.flags = core.board.monitor.flags

namespace Core.Wrote

variable {core middle other : Core δ Trace} {writes later : List (UInt16 × UInt8)}

theorem none (devices : other.board.bus.devices = core.board.bus.devices)
    (monitor : other.board.monitor = core.board.monitor) : Wrote [] core other :=
  ⟨⟨[], rfl, devices.trans (List.map_id' _).symm⟩, by rw [monitor]; exact (List.append_nil _).symm,
    by rw [monitor]⟩

theorem trans (first : Wrote writes core middle) (second : Wrote later middle other) :
    Wrote (writes ++ later) core other := by
  obtain ⟨⟨accesses, made, shown⟩, events, flags⟩ := first
  obtain ⟨⟨accesses', made', shown'⟩, events', flags'⟩ := second
  refine ⟨⟨accesses ++ accesses', ?_, ?_⟩, ?_, flags'.trans flags⟩
  · rw [List.filterMap_append, made, made']
  · rw [shown', shown, List.map_map]
    exact List.map_congr_left fun device _ => (List.foldl_append ..).symm
  · rw [events', events, List.append_assoc, List.flatMap_append]

end Core.Wrote

namespace Exec

theorem events_write (board : Board δ Trace) (address : UInt16) (data : UInt8) :
    (board.write address data).monitor.events =
      board.monitor.events ++ [(address, data)].flatMap Event.ofWrite := by
  change ((board.monitor.push (.write address data)).push (.asked (.addressChanged address))).events = _
  rw [Trace.events_push, Trace.events_push, List.append_assoc]
  rfl

/-- Under a trace the writes of an action are shown to the devices and recorded, each of them. -/
theorem Writes.recorded {low high : Nat} {program : Exec δ Trace α} (writes : program.Writes low high)
    (core : Core δ Trace) : ∃ made, low ≤ made.length ∧ made.length ≤ high ∧
      core.Wrote made (program.run core).2 := by
  induction writes generalizing core with
  | pure value => exact ⟨[], Nat.le_refl _, Nat.le_refl _, .none rfl rfl⟩
  | regs => exact ⟨[], Nat.le_refl _, Nat.le_refl _, .none rfl rfl⟩
  | update change => exact ⟨[], Nat.le_refl _, Nat.le_refl _, .none rfl rfl⟩
  | read address =>
    exact ⟨[], Nat.le_refl _, Nat.le_refl _, ⟨[.read address], rfl, Bus.readDevices_snd _ _⟩,
      (List.append_nil _).symm, rfl⟩
  | write address data =>
    exact ⟨[(address, data)], Nat.le_refl _, Nat.le_refl _,
      ⟨[.write address data], rfl, Bus.writeDevices_fst _ _ _⟩, events_write core.board address data, rfl⟩
  | bind first rest inductionHypothesis inductionHypothesis' =>
    obtain ⟨made, atLeast, atMost, wrote⟩ := inductionHypothesis core
    obtain ⟨later, atLeast', atMost', wrote'⟩ := inductionHypothesis' _ _
    refine ⟨made ++ later, ?_, ?_, wrote.trans wrote'⟩
    · rw [List.length_append]
      omega
    · rw [List.length_append]
      omega
  | mono low high fewer more writes inductionHypothesis =>
    obtain ⟨made, atLeast, atMost, wrote⟩ := inductionHypothesis core
    exact ⟨made, Nat.le_trans fewer atLeast, Nat.le_trans atMost more, wrote⟩

theorem Writes.unrecorded {program : Exec δ Trace α} (quiet : program.Writes 0 0)
    (core : Core δ Trace) : core.Wrote [] (program.run core).2 := by
  obtain ⟨made, -, none, wrote⟩ := quiet.recorded core
  rwa [List.eq_nil_of_length_eq_zero (Nat.le_zero.1 none)] at wrote

/-- A step makes three writes at most, and three if it runs a `BRK`. -/
theorem step_recorded (core : Core δ Trace) :
    let stepped := (step : Exec δ Trace (Mnemonic × Nat)).run core
    ∃ made, made.length ≤ 3 ∧ (stepped.1.1 = .brk → made.length = 3) ∧ core.Wrote made stepped.2 := by
  dsimp only
  rw [run_step_kind]
  have fetched := (Prod.eta ((fetchOperation : Exec δ Trace Operation).run core)).symm
  have fetching : (fetchOperation : Exec δ Trace Operation).Writes 0 0 :=
    writes_fetch.after fun _ => .pure _
  have wrote := fetching.unrecorded core
  generalize ((fetchOperation : Exec δ Trace Operation).run core).1 = operation at fetched
  generalize ((fetchOperation : Exec δ Trace Operation).run core).2 = after at fetched wrote
  by_cases branches : operation.shape.kind.isBranch = true
  · rw [run_step_of_branch branches fetched]
    refine ⟨[], Nat.zero_le 3, fun brk => ?_, wrote.trans ((writes_branch _).unrecorded after)⟩
    rw [brk] at branches
    exact absurd branches (by decide)
  · rw [Bool.not_eq_true] at branches
    rw [run_step branches fetched (Prod.eta _).symm]
    have found := (writes_operandOf operation).unrecorded after
    generalize ((operandOf operation : Exec δ Trace (Place × Nat)).run after).2 = core' at found ⊢
    generalize ((operandOf operation : Exec δ Trace (Place × Nat)).run after).1.1 = place
    by_cases brk : operation.shape.kind = .brk
    · obtain ⟨⟨kind, mode⟩, cycles⟩ := operation
      cases brk
      obtain ⟨made, atLeast, atMost, wrote'⟩ := (writes_perform_brk mode place).recorded core'
      exact ⟨made, atMost, fun _ => Nat.le_antisymm atMost atLeast, wrote.trans (found.trans wrote')⟩
    · obtain ⟨made, -, atMost, wrote'⟩ := (writes_perform operation.shape place).recorded core'
      exact ⟨made, atMost, fun same => absurd same brk, wrote.trans (found.trans wrote')⟩

/-- What is started makes three writes at most, and three if it enters a handler. -/
theorem start_recorded (nmiEdge : Bool) (core : Core δ Trace) :
    let started := (start nmiEdge : Exec δ Trace (Sequence × Nat)).run core
    ∃ made, made.length ≤ 3 ∧ (started.1.1.masks = true → made.length = 3) ∧
      core.Wrote made started.2 := by
  dsimp only
  have entering : ∀ {program : Exec δ Trace Unit} (sequence : Sequence), program.Writes 3 3 →
      ∃ made : List (UInt16 × UInt8), made.length ≤ 3 ∧ (sequence.masks = true → made.length = 3) ∧
        core.Wrote made (program.run core).2 := by
    intro program sequence writes
    obtain ⟨made, atLeast, atMost, wrote⟩ := writes.recorded core
    exact ⟨made, atMost, fun _ => Nat.le_antisymm atMost atLeast, wrote⟩
  rw [run_start]
  split
  · exact entering .reset writes_reset
  split
  · exact entering .nmi (writes_interrupt nmiVector)
  split
  · exact entering .irq (writes_interrupt irqVector)
  · have stepped := step_recorded core
    generalize (step : Exec δ Trace (Mnemonic × Nat)).run core = result at stepped ⊢
    obtain ⟨made, few, three, wrote⟩ := stepped
    exact ⟨made, few, fun masks => three (Sequence.masks_instruction_iff.1 masks), wrote⟩

end Exec
end Micro65
