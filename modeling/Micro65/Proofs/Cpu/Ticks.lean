import Micro65.Machine.Basic
import Micro65.Proofs.Cpu.Masking

set_option autoImplicit false

/-!
All that one tick of the processor can do. It counts down, or the monitor refuses it, or it starts a
reset, an NMI, an interrupt request or an instruction, and the monitor is told the registers afterwards.
-/

namespace Micro65

/-! ### Questions and reports -/

namespace Board

variable {δ μ : Type} [Monitor μ] (board : Board δ μ)

theorem ask_bus (query : Query) : (board.ask query).2.bus = board.bus := rfl

theorem tellAll_bus (reports : List Report) : (board.tellAll reports).bus = board.bus := by
  induction reports generalizing board with
  | nil => rfl
  | cons report rest inductionHypothesis => exact inductionHypothesis (board.tell report)

variable {board} in
/-- After a sequence the monitor is asked once or twice, so what every question keeps is kept. -/
theorem askAfter_keeps {motive : Board δ μ → Prop}
    (asks : ∀ board query, motive board → motive (board.ask query).2) (kept : motive board)
    (sequence : Sequence) : motive (board.askAfter sequence).2 := by
  cases sequence with
  | instruction kind =>
    cases kind with
    | brk =>
      have between := asks board .brk kept
      unfold askAfter
      dsimp only
      split
      next asked => rwa [asked] at between
      next next asked =>
        rw [asked] at between
        exact asks next .afterInstruction between
    | _ => exact asks board .afterInstruction kept
  | reset => exact asks board .reset kept
  | nmi => exact asks board .nmi kept
  | irq => exact asks board .irq kept

theorem askAfter_bus (sequence : Sequence) : (board.askAfter sequence).2.bus = board.bus :=
  askAfter_keeps (motive := fun asked => asked.bus = board.bus) (fun _ _ kept => kept) rfl sequence

theorem reportStatus_bus [Device δ] (regs : Registers) :
    (board.reportStatus regs).bus = board.bus := board.tellAll_bus _

end Board

/-! ### Ticks -/

variable {δ μ : Type} [Device δ] [Monitor μ]

namespace Exec

/-- What a reset does. -/
def reset : Exec δ μ Unit := do
  update fun regs => { regs with s := 0xFF }
  interrupt resetVector
  update (·.setFlag .decimal false)

theorem run_start (nmiEdge : Bool) (core : Core δ μ) :
    (start nmiEdge : Exec δ μ (Sequence × Nat)).run core =
      if core.board.bus.resetLine then ((.reset, 5), ((reset : Exec δ μ Unit).run core).2)
      else if nmiEdge then ((.nmi, 6), ((interrupt nmiVector : Exec δ μ Unit).run core).2)
      else if core.board.bus.irq && !core.regs.p.has .irqDisable then
        ((.irq, 6), ((interrupt irqVector : Exec δ μ Unit).run core).2)
      else
        let stepped := (step : Exec δ μ (Mnemonic × Nat)).run core
        ((.instruction stepped.1.1, stepped.1.2), stepped.2) := by
  unfold start
  rw [run_bind, run_get]
  dsimp only
  split
  · rfl
  split
  · rfl
  split
  · rfl
  · rw [run_bind]
    generalize (step : Exec δ μ (Mnemonic × Nat)).run core = stepped
    rfl

/-- An NMI is started for a new edge only. -/
theorem nmiEdge_of_start {nmiEdge : Bool} {core : Core δ μ}
    (nmi : ((start nmiEdge : Exec δ μ (Sequence × Nat)).run core).1.1 = .nmi) : nmiEdge = true := by
  rw [run_start] at nmi
  split at nmi
  · contradiction
  split at nmi
  next edge => exact edge
  split at nmi <;> contradiction

end Exec

namespace Cpu

/-- The outcomes of a tick: what it starts, and what it answers and leaves. -/
inductive Ticked (cpu : Cpu) (board : Board δ μ) :
    Option Sequence → Bool × Cpu × Board δ μ → Prop where
  | counted (busy : cpu.busy = true) :
      Ticked cpu board none (false, { cpu with remaining := cpu.remaining - 1 }, board)
  | refused (idle : cpu.busy = false)
      (halts : (board.ask (.nextInstruction cpu.regs.pc)).1 = true) :
      Ticked cpu board none (true, cpu, (board.ask (.nextInstruction cpu.regs.pc)).2)
  | started {sequence : Sequence} {remaining : Nat} {after : Core δ μ} (idle : cpu.busy = false)
      (passes : (board.ask (.nextInstruction cpu.regs.pc)).1 = false)
      (run : (Exec.start (board.bus.nmi && !cpu.lastNmi) : Exec δ μ (Sequence × Nat)).run
        ⟨cpu.regs, (board.ask (.nextInstruction cpu.regs.pc)).2⟩ = ((sequence, remaining), after)) :
      Ticked cpu board (some sequence)
        (((after.board.reportStatus after.regs).askAfter sequence).1,
          { regs := after.regs, remaining, lastNmi := board.bus.nmi },
          ((after.board.reportStatus after.regs).askAfter sequence).2)

theorem ticked (cpu : Cpu) (board : Board δ μ) :
    cpu.Ticked board (cpu.starts board) (cpu.tick board) := by
  cases busy : cpu.busy with
  | true =>
    have starts : cpu.starts board = none := if_pos busy
    have tick : cpu.tick board = (false, { cpu with remaining := cpu.remaining - 1 }, board) :=
      if_pos (bne_iff_ne.1 busy)
    rw [starts, tick]
    exact .counted busy
  | false =>
    have idle : ¬cpu.remaining ≠ 0 := fun left => absurd (bne_iff_ne.2 left) (Bool.eq_false_iff.1 busy)
    unfold starts tick
    rw [if_neg (Bool.eq_false_iff.1 busy), if_neg idle]
    cases halts : (board.ask (.nextInstruction cpu.regs.pc)).1 with
    | true =>
      rw [show board.ask (.nextInstruction cpu.regs.pc) =
        (true, (board.ask (.nextInstruction cpu.regs.pc)).2) from Prod.ext halts rfl]
      exact .refused busy halts
    | false =>
      rw [show board.ask (.nextInstruction cpu.regs.pc) =
        (false, (board.ask (.nextInstruction cpu.regs.pc)).2) from Prod.ext halts rfl]
      exact .started busy halts (Prod.eta _).symm

end Cpu

theorem Machine.tick_snd (machine : Machine δ μ) : machine.tick.2 =
    ⟨(machine.cpu.tick (machine.mapBus Bus.tick).board).2.1,
      (machine.cpu.tick (machine.mapBus Bus.tick).board).2.2⟩ := rfl

end Micro65
