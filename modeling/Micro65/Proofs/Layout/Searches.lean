import Micro65.Proofs.Layout.Settled

set_option autoImplicit false

/-!
The two searches of a run. Each is a row of complete passes, the first from what discovery leaves and
the second from what `measure` leaves: the solution of the first, with modes and sizes chosen under it.
-/

namespace Micro65

namespace Layout

variable {layout after : Layout}

/-- All that a run does before it searches for sizes. -/
def measure : Stage Unit := do
  discover
  let addressPasses ← fixpoint addressStep
  modify fun layout => { layout with addressPasses }
  updateProgram Instruction.resolveMode
  updateProgram fun _ => Instruction.resolveSize

theorem run_eq_measure :
    run = (do
      measure
      let sizePasses ← fixpoint sizeStep
      modify fun layout => { layout with sizePasses }
      updateProgram fun _ => Instruction.resolveAddress
      updateProgram Instruction.emit
      (← get).startAddress) := by
  simp only [run, settle, measure, bind_assoc]

/-- `Passes step layout count after`: so many complete passes lead from one layout to the other. -/
inductive Passes (step : Step) (layout : Layout) : Nat → Layout → Prop where
  | none : Passes step layout 0 layout
  | next {count before after changed} :
      Passes step layout count before → (pass step).apply before = (.ok changed, after) →
      Passes step layout (count + 1) after

/-- What holds of the first pass, and of each pass if it holds of the one before, holds of all. -/
theorem Passes.pairs {step : Step} (Near : Layout → Layout → Prop) {start : Layout}
    (first : ∀ {after changed}, (pass step).apply start = (.ok changed, after) → Near after start)
    (later : ∀ {before middle after changed changed'},
      (pass step).apply before = (.ok changed, middle) → Near middle before →
      (pass step).apply middle = (.ok changed', after) → Near after middle)
    {count : Nat} {before after : Layout} {changed : Bool} (passes : Passes step start count before)
    (once : (pass step).apply before = (.ok changed, after)) : Near after before := by
  induction passes generalizing after changed with
  | none => exact first once
  | next _ done inductionHypothesis => exact later done (inductionHypothesis done) once

/-- A layout whose modes and sizes have been chosen under the solution `first`. -/
structure Measured (first layout : Layout) : Prop where
  distinct : first.labels.Distinct
  named : ∀ inst ∈ first.program, inst.Named first.labels.names
  placed : Placed first.labels (.point 0) first.program
  narrowed : first.Narrowed layout
  labels : layout.labels = first.labels
  shrunk : List.Forall₂ Instruction.Shrunk first.program layout.program

/-- Modes and sizes are chosen without a change of the labels, the addresses and the `DATA` lines. -/
theorem resolve_shrunk {first middle layout : Layout} {answer answer' : Unit}
    (moded : (updateProgram Instruction.resolveMode).apply first = (.ok answer, middle))
    (measured :
      (updateProgram fun _ => Instruction.resolveSize).apply middle = (.ok answer', layout)) :
    layout.labels = first.labels ∧
      List.Forall₂ Instruction.Shrunk first.program layout.program := by
  obtain ⟨program, chosen, rfl⟩ := (updateProgram_eq_ok_iff _ _ _ _).1 moded
  obtain ⟨program', sizes, rfl⟩ := (updateProgram_eq_ok_iff _ _ _ _).1 measured
  refine ⟨rfl, forall₂_trans ?_ chosen sizes⟩
  intro inst middle last moded measured
  obtain ⟨-, choice, -⟩ := Instruction.resolveMode_eq_ok moded
  obtain ⟨-, size, same⟩ := Instruction.resolveSize_eq_ok measured
  refine ⟨by rw [size, choice], ?_, fun data => ?_⟩
  · rw [size, choice]
    exact Interval.inside_refl _
  · rw [same (.inr (by rw [choice]; exact data)), choice]
    exact Interval.inside_refl _

theorem measure_eq_ok_iff (layout after : Layout) :
    measure.apply layout = (.ok (), after) ↔
      ∃ found addressPasses first moded, discover.apply layout = (.ok (), found) ∧
        (fixpoint addressStep).apply found = (.ok addressPasses, first) ∧
        (updateProgram Instruction.resolveMode).apply { first with addressPasses } =
          (.ok (), moded) ∧
        (updateProgram fun _ => Instruction.resolveSize).apply moded = (.ok (), after) := by
  simp only [measure, Stage.bind_eq_ok_iff, Stage.apply_modify]
  constructor
  · rintro ⟨_, found, discovered, addressPasses, first, addresses, _, _, ⟨⟩, ⟨⟩, moded, chosen, sizes⟩
    exact ⟨found, addressPasses, first, moded, discovered, addresses, chosen, sizes⟩
  · rintro ⟨found, addressPasses, first, moded, discovered, addresses, chosen, sizes⟩
    exact ⟨(), found, discovered, addressPasses, first, addresses, (), _, rfl, (), moded, chosen, sizes⟩

/-- The search for sizes starts from a solution for ranges of sizes. -/
theorem measure_measured (done : measure.apply layout = (.ok (), after)) :
    ∃ found first, discover.apply layout = (.ok (), found) ∧ found.Keeps first ∧
      first.Measured after := by
  obtain ⟨found, addressPasses, first, moded, discovered, addresses, chosen, sizes⟩ :=
    (measure_eq_ok_iff layout after).1 done
  have known := discover_discovered discovered
  obtain ⟨keeps, proper, opened, placed⟩ :=
    addressFixpoint_placed known.distinct known.named known.unknown.proper known.opened addresses
  -- The modes are chosen on the layout with its count of passes, which decides nothing.
  let counted : Layout := { first with addressPasses }
  have openedCounted : ∀ inst ∈ counted.program, inst.Open := opened
  obtain ⟨labels, shrunk⟩ := resolve_shrunk chosen sizes
  have narrowed : counted.Narrowed after := resolve_narrowed proper openedCounted chosen sizes
  exact ⟨found, counted, discovered, ⟨keeps.names, keeps.code, keeps.start⟩,
    keeps.distinct known.distinct, keeps.named known.named, placed, narrowed, labels, shrunk⟩

end Layout
end Micro65
