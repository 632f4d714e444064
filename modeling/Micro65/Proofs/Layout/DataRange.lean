import Micro65.Proofs.Layout.Failures
import Micro65.Proofs.Layout.Shrinking

set_option autoImplicit false

/-!
Data out of range. A run reports it exactly if the first pass by sizes comes to a `DATA` line whose
operand can, by what is known of the labels then and there, leave a word. No later pass reports it: what
the first has let pass is only narrowed afterwards.
-/

namespace Micro65

/-- A pass by sizes comes to the line, and what its operand can be by then is not all words. -/
def Layout.Overshoots (layout : Layout) (inst : Instruction) (range : Interval) : Prop :=
  ∃ before after walk passed operand, layout.program = before ++ inst :: after ∧
    Sweeps sizeStep (.start layout.labels) before walk passed ∧ inst.kind = .data ∧
    inst.operand = some operand ∧
    operand.range (walk.labels.stamp inst.label walk.cursor) = .ok range ∧
    range.within 0x0000 0xFFFF = false

theorem sizeStep_dataRange {walk walk' : Walk} {inst inst' : Instruction} {failure : Diagnostic}
    (failed : sizeStep walk inst = (walk', inst', some failure))
    (range : failure.error.isDataRange = true) :
    inst.kind = .data ∧ ∃ operand value, inst.operand = some operand ∧
      operand.range (walk.labels.stamp inst.label walk.cursor) = .ok value ∧
      value.within 0x0000 0xFFFF = false ∧
      failure = ⟨.dataOutOfRange value.lo value.hi, some inst.position⟩ := by
  have notPlain : failure.error.ofSearch ≠ false := by
    intro plain
    rw [AsmError.isDataRange_of_ofSearch plain] at range
    contradiction
  obtain ⟨error, position⟩ := failure
  rcases sizeStep_failed failed with plain | ⟨data, rfl, sized⟩
  · exact absurd plain.ordinary notPlain
  · rcases inst.dataSize_failed _ sized with plain | ⟨operand, value, given, evaluated, outside, rfl⟩
    · exact absurd plain.ordinary notPlain
    · exact ⟨data, operand, value, given, evaluated, outside, rfl⟩

theorem sizeStep_of_outside {walk : Walk} {inst : Instruction} {operand : Expr} {range : Interval}
    (data : inst.kind = .data) (given : inst.operand = some operand)
    (evaluated : operand.range (walk.labels.stamp inst.label walk.cursor) = .ok range)
    (outside : range.within 0x0000 0xFFFF = false) :
    ∃ walk' inst', sizeStep walk inst =
      (walk', inst', some ⟨.dataOutOfRange range.lo range.hi, some inst.position⟩) := by
  refine ⟨(walk.place inst).1, (walk.place inst).2, ?_⟩
  have position : (walk.place inst).2.position = inst.position := by rw [Walk.place_snd]
  have sized : Instruction.dataSize (walk.place inst).1.labels (walk.place inst).2 =
      .error (.dataOutOfRange range.lo range.hi) := by
    rw [Walk.place_labels, Walk.place_snd, Instruction.dataSize]
    simp only [given, evaluated, outside, bind, Except.bind, Bool.false_eq_true, if_false]
    rfl
  unfold sizeStep
  simp only [data, sized, locate, position]

namespace Layout

variable {layout before middle after first measured : Layout} {changed : Bool}

theorem sizePass_dataRange_iff (lo hi : Int) (position : Option Position) :
    ((pass sizeStep).apply layout).1 = .error ⟨.dataOutOfRange lo hi, position⟩ ↔
      ∃ inst, layout.Overshoots inst ⟨lo, hi⟩ ∧ position = some inst.position := by
  rw [pass_eq_error_iff, sweep_failure_eq_some_iff]
  constructor
  · rintro ⟨before, inst, after, walk, passed, walk', inst', split, swept, failed⟩
    obtain ⟨data, operand, value, given, evaluated, outside, same⟩ := sizeStep_dataRange failed rfl
    cases same
    exact ⟨inst, ⟨before, after, walk, passed, operand, split, swept, data, given, evaluated, outside⟩,
      rfl⟩
  · rintro ⟨inst, ⟨before, after, walk, passed, operand, split, swept, data, given, evaluated,
      outside⟩, rfl⟩
    obtain ⟨walk', inst', failed⟩ := sizeStep_of_outside data given evaluated outside
    exact ⟨before, inst, after, walk, passed, walk', inst', split, swept, failed⟩

/-! ### Later passes -/

/-- What a pass by sizes has let pass, the next one lets pass too. -/
theorem sizePass_avoids (proper : middle.labels.Proper)
    (once : (pass sizeStep).apply before = (.ok changed, middle)) (narrower : middle.Narrower before) :
    (pass sizeStep).Avoids AsmError.isDataRange middle := by
  intro failure failed
  rw [pass_eq_error_iff] at failed
  obtain ⟨walk, program, swept, -, rfl⟩ := (pass_eq_ok_iff _ _ _ _).1 once
  have moved := swept.became Instruction.Moved sizeStep_moved
  have alike : List.Forall₂ Instruction.Alike program before.program :=
    List.Forall₂.mp (fun _ _ moved shrunk => moved.alike shrunk) moved.flip narrower.program
  obtain ⟨walk, walk', inst, inst', outer, outer', other, other', ⟨sound, within⟩, alike, fails,
      done⟩ := swept.related_failure
    (fun walk outer => walk.Sound walk.labels.names ∧ walk.Within outer) Instruction.Alike
    (fun ⟨sound, within⟩ alike done done' => by
      have sound' := (sizeStep_keeps sound done).1
      exact ⟨⟨rfl, sound'.labels, sound'.cursor⟩, (sizeStep_narrows within sound alike done done').1⟩)
    ⟨⟨rfl, proper, Interval.proper_point 0⟩, narrower.labels, Interval.inside_refl _⟩ alike failed
  by_contra range
  rw [Bool.not_eq_false] at range
  obtain ⟨data, operand, value, given, evaluated, outside, -⟩ := sizeStep_dataRange fails range
  obtain ⟨width, -, needed, -⟩ := sizeStep_moves done
  obtain ⟨sized, -⟩ := needed (alike.kind ▸ data)
  obtain ⟨operand', value', given', evaluated', bounded, -⟩ :=
    (other.dataSize_eq_ok_iff _ _).1 sized
  rw [← alike.operand, given, Option.some.injEq] at given'
  subst given'
  rw [← alike.label] at evaluated'
  have stamped := within.labels.stamp inst.label within.cursor
  have inside := Expr.range_inside stamped (sound.labels.stamp inst.label sound.cursor) evaluated
    evaluated'
  rw [inside.within bounded] at outside
  contradiction

theorem Measured.avoids (known : first.Measured measured) {count : Nat}
    (passes : Passes sizeStep measured count before)
    (once : (pass sizeStep).apply before = (.ok changed, after)) (limit remaining : Nat) :
    (repeatPass sizeStep limit remaining).Avoids AsmError.isDataRange after := by
  induction remaining generalizing count before after changed with
  | zero =>
    intro failure failed
    cases failed
    rfl
  | succ remaining inductionHypothesis =>
    obtain ⟨narrower, narrowed⟩ := known.narrower passes once
    rw [repeatPass]
    refine (sizePass_avoids narrowed.proper once narrower).bind fun again next done => ?_
    cases again with
    | true => exact inductionHypothesis (passes.next once) done
    | false => exact Stage.avoids_of_ok (Stage.apply_pure _ _)

theorem Measured.fixpoint_failed_iff (known : first.Measured measured) {failure : Diagnostic}
    (range : failure.error.isDataRange = true) :
    ((fixpoint sizeStep).apply measured).1 = .error failure ↔
      ((pass sizeStep).apply measured).1 = .error failure := by
  obtain ⟨remaining, limit⟩ : ∃ remaining, measured.passLimit = remaining + 1 :=
    ⟨4 * measured.program.length + 15, rfl⟩
  rw [fixpoint, Stage.apply_bind, Stage.apply_get]
  dsimp only
  rw [limit, repeatPass, Stage.apply_bind]
  rcases ran : (pass sizeStep).apply measured with ⟨cause | changed, after⟩
  · simp
  · simp only [reduceCtorEq, iff_false]
    intro failed
    cases changed with
    | true =>
      have avoided := known.avoids .none ran (remaining + 1) remaining failure failed
      rw [range] at avoided
      contradiction
    | false => contradiction

theorem measure_avoids (layout : Layout) : measure.Avoids AsmError.isDataRange layout := by
  refine avoids_measure AsmError.isDataRange_of_ofSearch layout fun found _ => ?_
  exact avoids_fixpoint found
    (fun failed => AsmError.isDataRange_of_ofSearch (addressStep_plain failed)) fun _ => rfl

/-- After `measure` only the search for sizes can report that data are out of range. -/
theorem run_failed_iff {failure : Diagnostic} (range : failure.error.isDataRange = true)
    (layout : Layout) : (run.apply layout).1 = .error failure ↔
      ∃ measured, measure.apply layout = (.ok (), measured) ∧
        ((fixpoint sizeStep).apply measured).1 = .error failure := by
  rw [run_eq_measure, Stage.apply_bind]
  rcases ran : measure.apply layout with ⟨cause | answer, measured⟩
  · have avoided := measure_avoids layout cause (congrArg Prod.fst ran)
    simp only [Except.error.injEq, Prod.mk.injEq, reduceCtorEq, false_and, exists_false, iff_false]
    rintro rfl
    rw [range] at avoided
    contradiction
  · simp only [Prod.mk.injEq, true_and, exists_eq_left']
    rw [Stage.apply_bind]
    rcases searched : (fixpoint sizeStep).apply measured with ⟨cause | sizePasses, after⟩
    · simp only [Except.error.injEq]
    · simp only [reduceCtorEq, iff_false]
      intro failed
      have avoided := avoids_finish AsmError.isDataRange_of_ofSearch after sizePasses failure failed
      rw [range] at avoided
      contradiction

/-- A run reports data out of range exactly if its first pass by sizes overshoots. -/
theorem run_dataRange_iff (layout : Layout) (lo hi : Int) (position : Option Position) :
    (run.apply layout).1 = .error ⟨.dataOutOfRange lo hi, position⟩ ↔
      ∃ measured inst, measure.apply layout = (.ok (), measured) ∧
        measured.Overshoots inst ⟨lo, hi⟩ ∧ position = some inst.position := by
  rw [run_failed_iff rfl]
  refine exists_congr fun measured => ?_
  rw [exists_and_left]
  refine and_congr_right fun done => ?_
  obtain ⟨found, first, -, -, known⟩ := measure_measured done
  rw [known.fixpoint_failed_iff rfl, sizePass_dataRange_iff]

end Layout
end Micro65
