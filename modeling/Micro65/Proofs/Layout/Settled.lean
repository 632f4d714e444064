import Micro65.Proofs.Layout.Discovery
import Micro65.Proofs.Layout.Resolution

set_option autoImplicit false

/-!
Where a layout that succeeds ends. The search for addresses leaves a program in place for intervals of
sizes; modes and sizes are chosen there, and the search for sizes stays within that first solution. So
the choices still hold at its end, where every instruction is in place with its exact size.
-/

namespace Micro65

namespace Layout

theorem unplaced_open (inst : Instruction) : (unplaced inst).Open := ⟨rfl, rfl⟩

theorem Discovered.opened {before after : Layout} (discovered : before.Discovered after) :
    ∀ inst ∈ after.program, inst.Open := by
  rw [discovered.program]
  intro inst member
  obtain ⟨original, -, rfl⟩ := List.mem_map.1 member
  exact unplaced_open original

theorem unplaced_moved {inst inst' : Instruction} (moved : inst.Moved inst') :
    unplaced inst' = unplaced inst := by
  rw [moved.rest]
  rfl

theorem map_unplaced_of_forall₂ {program program' : List Instruction}
    (same : List.Forall₂ (fun inst inst' => unplaced inst' = unplaced inst) program program') :
    program'.map unplaced = program.map unplaced := by
  induction same with
  | nil => rfl
  | cons here _ inductionHypothesis => rw [List.map_cons, List.map_cons, here, inductionHypothesis]

theorem sameCode_of_unplaced {inst other : Instruction} (same : unplaced inst = unplaced other) :
    inst.SameCode other :=
  ⟨(congrArg Instruction.kind same :), (congrArg Instruction.label same :),
    (congrArg Instruction.operand same :)⟩

theorem forall₂_sameCode {program program' : List Instruction}
    (same : program'.map unplaced = program.map unplaced) :
    List.Forall₂ Instruction.SameCode program program' := by
  rw [← List.forall₂_eq_eq_eq, List.forall₂_map_left_iff, List.forall₂_map_right_iff] at same
  exact same.flip.imp fun _ _ same => sameCode_of_unplaced same.symm

/-- A property that only the code decides holds of every program with the same code. -/
theorem forall_of_code {program program' : List Instruction}
    (same : program'.map unplaced = program.map unplaced) {Holds : Instruction → Prop}
    (code : ∀ {inst}, Holds (unplaced inst) ↔ Holds inst) (holds : ∀ inst ∈ program, Holds inst) :
    ∀ inst ∈ program', Holds inst := by
  intro inst member
  have unplacedMember : unplaced inst ∈ program'.map unplaced := List.mem_map_of_mem member
  rw [same] at unplacedMember
  obtain ⟨original, originalMember, same⟩ := List.mem_map.1 unplacedMember
  rw [← code, ← same, code]
  exact holds original originalMember

/-- What no pass and no update touches: the names of the labels, the code and the start. -/
structure Keeps (before after : Layout) : Prop where
  names : after.labels.names = before.labels.names
  code : after.program.map unplaced = before.program.map unplaced
  start : after.start = before.start

namespace Keeps

variable {before middle after : Layout}

theorem refl (layout : Layout) : layout.Keeps layout := ⟨rfl, rfl, rfl⟩

theorem trans (first : before.Keeps middle) (second : middle.Keeps after) : before.Keeps after :=
  ⟨second.names.trans first.names, second.code.trans first.code, second.start.trans first.start⟩

theorem distinct (keeps : before.Keeps after) (distinct : before.labels.Distinct) :
    after.labels.Distinct := by
  unfold Labels.Distinct
  rw [keeps.names]
  exact distinct

theorem named (keeps : before.Keeps after)
    (named : ∀ inst ∈ before.program, inst.Named before.labels.names) :
    ∀ inst ∈ after.program, inst.Named after.labels.names := by
  rw [keeps.names]
  exact forall_of_code keeps.code Iff.rfl named

end Keeps

/-! ### The search for addresses -/

variable {layout after : Layout}

theorem addressPass_keeps {changed : Bool} (proper : layout.labels.Proper)
    (opened : ∀ inst ∈ layout.program, inst.Open)
    (done : (pass addressStep).apply layout = (.ok changed, after)) :
    layout.Keeps after ∧ after.labels.Proper ∧ ∀ inst ∈ after.program, inst.Open := by
  obtain ⟨walk, program, swept, -, rfl⟩ := (pass_eq_ok_iff _ _ _ _).1 done
  obtain ⟨sound, became⟩ := Sweeps.invariant (Walk.Sound layout.labels.names)
    (fun inst inst' => unplaced inst' = unplaced inst ∧ inst'.Open)
    (fun sound opened done => by
      rw [addressStep_moved done]
      exact ⟨addressStep_sound sound (Instruction.Open.proper opened) done, rfl, opened.sizes,
        opened.param⟩)
    swept ⟨rfl, proper, Interval.proper_point 0⟩ opened
  refine ⟨⟨sound.names, map_unplaced_of_forall₂ (became.imp fun _ _ both => both.1), rfl⟩,
    sound.labels, ?_⟩
  exact forall_of_forall₂ became fun both => both.2

theorem addressPass_placed (distinct : layout.labels.Distinct)
    (named : ∀ inst ∈ layout.program, inst.Named layout.labels.names)
    (done : (pass addressStep).apply layout = (.ok false, after)) :
    Placed after.labels (.point 0) after.program := by
  obtain ⟨walk, program, swept, unchanged, rfl⟩ := (pass_eq_ok_iff _ _ _ _).1 done
  obtain ⟨labels, rfl, placed⟩ :=
    addressPass_unchanged distinct named swept unchanged
  rw [← labels] at placed
  exact placed

/-- The search for addresses ends with every instruction in place for its interval of sizes. -/
theorem addressFixpoint_placed {count : Nat} (distinct : layout.labels.Distinct)
    (named : ∀ inst ∈ layout.program, inst.Named layout.labels.names)
    (proper : layout.labels.Proper) (opened : ∀ inst ∈ layout.program, inst.Open)
    (done : (fixpoint addressStep).apply layout = (.ok count, after)) :
    layout.Keeps after ∧ after.labels.Proper ∧ (∀ inst ∈ after.program, inst.Open) ∧
      Placed after.labels (.point 0) after.program := by
  obtain ⟨last, ⟨keeps, proper, opened⟩, once⟩ := fixpoint_induction
    (fun other => layout.Keeps other ∧ other.labels.Proper ∧
      ∀ inst ∈ other.program, inst.Open)
    (fun ⟨keeps, proper, opened⟩ done => by
      obtain ⟨keeps', kept⟩ := addressPass_keeps proper opened done
      exact ⟨keeps.trans keeps', kept⟩)
    ⟨.refl layout, proper, opened⟩ done
  obtain ⟨keeps', proper', opened'⟩ := addressPass_keeps proper opened once
  exact ⟨keeps.trans keeps', proper', opened',
    addressPass_placed (keeps.distinct distinct) (keeps.named named) once⟩

/-! ### The search for sizes -/

/-- A layout within the solution that the search for addresses has found. -/
structure Narrowed (first layout : Layout) : Prop where
  keeps : first.Keeps layout
  proper : layout.labels.Proper
  within : layout.labels.Within first.labels
  refines : List.Forall₂ Instruction.Refines layout.program first.program
  resolved : ∀ inst ∈ layout.program, inst.Resolved first.labels

theorem resolve_narrowed {first middle layout : Layout} {answer answer' : Unit}
    (proper : first.labels.Proper) (opened : ∀ inst ∈ first.program, inst.Open)
    (moded : (updateProgram Instruction.resolveMode).apply first = (.ok answer, middle))
    (measured :
      (updateProgram fun _ => Instruction.resolveSize).apply middle = (.ok answer', layout)) :
    first.Narrowed layout := by
  obtain ⟨program, chosen, rfl⟩ := (updateProgram_eq_ok_iff _ _ _ _).1 moded
  obtain ⟨program', sizes, rfl⟩ := (updateProgram_eq_ok_iff _ _ _ _).1 measured
  have self : List.Forall₂ (fun inst inst' => inst = inst' ∧ inst.Open) first.program
      first.program := List.forall₂_same.2 fun inst member => ⟨rfl, opened inst member⟩
  have openChosen : List.Forall₂ (fun inst middle => inst.Open ∧
      inst.resolveMode first.labels = .ok middle) first.program program := by
    refine forall₂_trans ?_ self chosen
    rintro inst _ middle ⟨rfl, opened⟩ moded
    exact ⟨opened, moded⟩
  have resolved : List.Forall₂ (fun inst inst' => unplaced inst' = unplaced inst ∧
      inst'.Resolved first.labels ∧ inst'.Refines inst) first.program program' := by
    refine forall₂_trans ?_ openChosen sizes
    rintro inst middle last ⟨opened, moded⟩ measured
    refine ⟨?_, Instruction.resolve_refines opened moded measured⟩
    rw [(Instruction.resolveSize_eq_ok measured).2.1, (Instruction.resolveMode_eq_ok moded).2.1]
    rfl
  refine ⟨⟨rfl, map_unplaced_of_forall₂ (resolved.imp fun _ _ all => all.1), rfl⟩, proper,
    .refl _, (resolved.imp fun _ _ all => all.2.2).flip, ?_⟩
  exact forall_of_forall₂ resolved fun all => all.2.1

/-- Walked beside the last search for addresses, a pass by sizes stays within what that has found. -/
theorem sizePass_narrowed {first layout after : Layout} {changed : Bool}
    (distinct : first.labels.Distinct)
    (placed : Placed first.labels (.point 0) first.program) (narrowed : first.Narrowed layout)
    (done : (pass sizeStep).apply layout = (.ok changed, after)) : first.Narrowed after := by
  obtain ⟨walk, program, swept, -, rfl⟩ := (pass_eq_ok_iff _ _ _ _).1 done
  have sound : (Walk.start layout.labels).Sound layout.labels.names :=
    ⟨rfl, narrowed.proper, Interval.proper_point 0⟩
  obtain ⟨soundAfter, became⟩ := Sweeps.invariant (Walk.Sound layout.labels.names)
    (fun inst inst' => inst.Moved inst' ∧ inst'.Resolved first.labels)
    (fun sound resolved done => by
      obtain ⟨sound', moved⟩ := sizeStep_keeps sound done
      exact ⟨sound', moved, sizeStep_resolved resolved done⟩)
    swept sound narrowed.resolved
  -- The first solution is at rest: another pass by ranges of sizes leaves it as it is.
  obtain ⟨cursor, beside⟩ := placed.addressPass distinct
  obtain ⟨within, refines⟩ := sizePass_within swept beside sound
    ⟨narrowed.within, Interval.inside_refl _⟩ narrowed.refines
  refine ⟨narrowed.keeps.trans ⟨soundAfter.names, ?_, rfl⟩, soundAfter.labels, within.labels, ?_, ?_⟩
  · exact map_unplaced_of_forall₂ (became.imp fun _ _ both => unplaced_moved both.1)
  · exact refines.imp fun _ _ both => both.1
  · exact forall_of_forall₂ became fun both => both.2

theorem sizePass_placed (distinct : layout.labels.Distinct)
    (named : ∀ inst ∈ layout.program, inst.Named layout.labels.names)
    (sized : ∀ inst ∈ layout.program, inst.Sized)
    (done : (pass sizeStep).apply layout = (.ok false, after)) :
    Placed after.labels (.point 0) after.program ∧
      ∀ inst ∈ after.program, inst.Fits after.labels := by
  obtain ⟨walk, program, swept, unchanged, rfl⟩ := (pass_eq_ok_iff _ _ _ _).1 done
  obtain ⟨labels, rfl, placed, fits⟩ :=
    sizePass_unchanged distinct named sized swept unchanged
  rw [← labels] at placed fits
  exact ⟨placed, fits⟩

theorem sizeFixpoint_placed {first : Layout} {count : Nat} (distinct : first.labels.Distinct)
    (named : ∀ inst ∈ first.program, inst.Named first.labels.names)
    (placed : Placed first.labels (.point 0) first.program) (narrowed : first.Narrowed layout)
    (done : (fixpoint sizeStep).apply layout = (.ok count, after)) :
    first.Narrowed after ∧ Placed after.labels (.point 0) after.program ∧
      ∀ inst ∈ after.program, inst.Fits after.labels := by
  obtain ⟨last, narrowed, once⟩ :=
    fixpoint_induction first.Narrowed (sizePass_narrowed distinct placed) narrowed done
  refine ⟨sizePass_narrowed distinct placed narrowed once, ?_⟩
  exact sizePass_placed (narrowed.keeps.distinct distinct) (narrowed.keeps.named named)
    (fun inst member => (narrowed.resolved inst member).sized) once

end Layout

/-! ### Exact addresses and bytes -/

/-- Everything known of an instruction is what the updates would make of it again. -/
structure Instruction.Settled (labels : Labels) (inst : Instruction) : Prop
    extends inst.Resolved labels where
  fits : inst.Fits labels
  located : inst.Located
  encoded : inst.encode labels = .ok inst.bytes

theorem Instruction.emit_settled {labels : Labels} {inst middle inst' : Instruction}
    (resolved : inst.Resolved labels) (fits : inst.Fits labels)
    (located : inst.resolveAddress = .ok middle) (emitted : middle.emit labels = .ok inst') :
    inst'.Settled labels ∧ inst' = { inst with address := inst'.address, bytes := inst'.bytes } := by
  obtain ⟨located, rest⟩ := resolveAddress_eq_ok located
  obtain ⟨bytes, encoded, rfl⟩ := (emit_eq_ok_iff _ _ _).1 emitted
  rw [rest] at located encoded ⊢
  exact ⟨⟨⟨resolved.moded, resolved.measured, resolved.sized, resolved.bare⟩, fits, located,
    encoded⟩, rfl⟩

/-- Addresses and bytes do not decide where a program is. -/
theorem Placed.emitted {labels : Labels} {cursor : Interval} {program program' : List Instruction}
    (placed : Placed labels cursor program)
    (same : List.Forall₂ (fun inst inst' : Instruction =>
      inst' = { inst with address := inst'.address, bytes := inst'.bytes }) program program') :
    Placed labels cursor program' := by
  induction placed generalizing program' with
  | nil =>
    cases same
    exact .nil
  | base kind given evaluated _ inductionHypothesis =>
    cases same with
    | cons here rest =>
      have restPlaced := inductionHypothesis rest
      rw [here]
      exact .base kind given evaluated restPlaced
  | @placed inst _ kind labelled _ inductionHypothesis =>
    cases same with
    | @cons _ inst' _ _ here rest =>
      have restPlaced := inductionHypothesis rest
      rw [here]
      exact @Placed.placed labels { inst with address := inst'.address, bytes := inst'.bytes } _
        kind labelled restPlaced

namespace Layout

/-- A solution: every instruction is in its place, with its exact size and its bytes. -/
structure Settled (layout : Layout) : Prop where
  distinct : layout.labels.Distinct
  placed : Placed layout.labels (.point 0) layout.program
  settled : ∀ inst ∈ layout.program, inst.Settled layout.labels

theorem emit_settled {layout middle after : Layout} {answer answer' : Unit}
    (distinct : layout.labels.Distinct) (placed : Placed layout.labels (.point 0) layout.program)
    (resolved : ∀ inst ∈ layout.program, inst.Resolved layout.labels)
    (fits : ∀ inst ∈ layout.program, inst.Fits layout.labels)
    (located :
      (updateProgram fun _ => Instruction.resolveAddress).apply layout = (.ok answer, middle))
    (emitted : (updateProgram Instruction.emit).apply middle = (.ok answer', after)) :
    layout.Keeps after ∧ after.Settled := by
  obtain ⟨program, addresses, rfl⟩ := (updateProgram_eq_ok_iff _ _ _ _).1 located
  obtain ⟨program', bytes, rfl⟩ := (updateProgram_eq_ok_iff _ _ _ _).1 emitted
  have self : List.Forall₂ (fun inst inst' => inst = inst' ∧ inst.Resolved layout.labels ∧
      inst.Fits layout.labels) layout.program layout.program :=
    List.forall₂_same.2 fun inst member => ⟨rfl, resolved inst member, fits inst member⟩
  have resolvedLocated : List.Forall₂ (fun inst middle => (inst.Resolved layout.labels ∧
      inst.Fits layout.labels) ∧ inst.resolveAddress = .ok middle) layout.program program := by
    refine forall₂_trans ?_ self addresses
    rintro inst _ middle ⟨rfl, resolved⟩ located
    exact ⟨resolved, located⟩
  have settled : List.Forall₂ (fun inst inst' => inst'.Settled layout.labels ∧
      inst' = { inst with address := inst'.address, bytes := inst'.bytes }) layout.program
      program' := by
    refine forall₂_trans ?_ resolvedLocated bytes
    rintro inst middle last ⟨⟨resolved, fits⟩, located⟩ emitted
    exact Instruction.emit_settled resolved fits located emitted
  have rest := settled.imp fun _ _ both => both.2
  refine ⟨⟨rfl, map_unplaced_of_forall₂ (rest.imp fun _ _ same => ?_), rfl⟩, distinct,
    placed.emitted rest, ?_⟩
  · rw [same]
    rfl
  · exact forall_of_forall₂ settled fun both => both.1

theorem settle_settled {layout after : Layout} {start : UInt16} (distinct : layout.labels.Distinct)
    (named : ∀ inst ∈ layout.program, inst.Named layout.labels.names)
    (proper : layout.labels.Proper) (opened : ∀ inst ∈ layout.program, inst.Open)
    (done : settle.apply layout = (.ok start, after)) :
    layout.Keeps after ∧ after.Settled ∧ after.startAddress = .ok start := by
  obtain ⟨addressPasses, first, moded, measured, sizePasses, sized, located, addresses, chosen, sizes,
    exactSizes, placed, bytes, started⟩ := (settle_eq_ok_iff _ _ _).1 done
  obtain ⟨keeps, proper, opened, inPlace⟩ :=
    addressFixpoint_placed distinct named proper opened addresses
  have distinct := keeps.distinct distinct
  -- The modes are chosen on the layout with its count of passes, which decides nothing.
  have counted : ({ first with addressPasses } : Layout).Narrowed measured :=
    resolve_narrowed proper opened chosen sizes
  have narrowed : first.Narrowed measured :=
    ⟨⟨counted.keeps.names, counted.keeps.code, counted.keeps.start⟩, counted.proper, counted.within,
      counted.refines, counted.resolved⟩
  obtain ⟨narrowed, inPlace, fits⟩ :=
    sizeFixpoint_placed distinct (keeps.named named) inPlace narrowed exactSizes
  -- What was chosen under the first solution is chosen under every table within it.
  have resolved : ∀ inst ∈ sized.program, inst.Resolved sized.labels := fun inst member =>
    (narrowed.resolved inst member).narrows narrowed.within narrowed.proper
  have emitted : ({ sized with sizePasses } : Layout).Keeps after ∧ after.Settled :=
    emit_settled (narrowed.keeps.distinct distinct) inPlace resolved fits placed bytes
  obtain ⟨⟨names, code, start⟩, settled⟩ := emitted
  exact ⟨keeps.trans (narrowed.keeps.trans ⟨names, code, start⟩), settled, started⟩

/-- A layout that succeeds is a solution for the program that it was given. -/
theorem run_settled {layout after : Layout} {start : UInt16}
    (done : run.apply layout = (.ok start, after)) :
    after.Settled ∧ after.startAddress = .ok start ∧
      after.program.map unplaced = (layout.program.filter (·.kind ≠ .start)).map unplaced ∧
      after.start = (layout.program.filterMap Instruction.start?).getLast? := by
  rw [run, Stage.bind_eq_ok_iff] at done
  obtain ⟨answer, middle, discovered, done⟩ := done
  have known := discover_discovered discovered
  obtain ⟨keeps, settled, started⟩ :=
    settle_settled known.distinct known.named known.unknown.proper known.opened done
  refine ⟨settled, started, ?_, keeps.start.trans known.start⟩
  rw [keeps.code, known.program, List.map_map]
  rfl

end Layout
end Micro65
