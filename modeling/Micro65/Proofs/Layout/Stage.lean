import Micro65.Asm.Layout
import Micro65.Proofs.Layout.Sweep
import Micro65.Proofs.Success

set_option autoImplicit false

/-!
Stages that succeed. A stage made of others succeeds exactly if each of them does in turn; each kind
of stage has one lemma that says what it has done by then.
-/

namespace Micro65

namespace Stage

variable {α β : Type}

theorem apply_bind (stage : Stage α) (next : α → Stage β) (layout : Layout) :
    (stage >>= next).apply layout =
      match stage.apply layout with
      | (.ok value, middle) => (next value).apply middle
      | (.error failure, middle) => (.error failure, middle) := by
  simp only [apply, ExceptT.run_bind, StateT.run_bind]
  change (match stage.run.run layout with | (value, middle) => _) = _
  rcases stage.run.run layout with ⟨_ | value, middle⟩ <;> rfl

theorem bind_eq_ok_iff (stage : Stage α) (next : α → Stage β) (layout after : Layout) (result : β) :
    (stage >>= next).apply layout = (.ok result, after) ↔
      ∃ value middle, stage.apply layout = (.ok value, middle) ∧
        (next value).apply middle = (.ok result, after) := by
  rw [apply_bind]
  rcases stage.apply layout with ⟨_ | value, middle⟩
  · simp
  · simp only [Prod.mk.injEq, Except.ok.injEq]
    constructor
    · exact fun done => ⟨value, middle, ⟨rfl, rfl⟩, done⟩
    · rintro ⟨_, _, ⟨rfl, rfl⟩, done⟩
      exact done

@[simp] theorem apply_get (layout : Layout) :
    (get : Stage Layout).apply layout = (.ok layout, layout) := rfl

@[simp] theorem apply_set (new layout : Layout) :
    (set new : Stage Unit).apply layout = (.ok (), new) := rfl

@[simp] theorem apply_modify (change : Layout → Layout) (layout : Layout) :
    (modify change : Stage Unit).apply layout = (.ok (), change layout) := rfl

@[simp] theorem apply_pure (value : α) (layout : Layout) :
    (pure value : Stage α).apply layout = (.ok value, layout) := rfl

@[simp] theorem apply_throw (failure : Diagnostic) (layout : Layout) :
    (throw failure : Stage α).apply layout = (.error failure, layout) := rfl

@[simp] theorem apply_liftM (result : Except Diagnostic α) (layout : Layout) :
    (liftM result : Stage α).apply layout = (result, layout) := by
  cases result <;> rfl

end Stage

namespace Layout

@[simp] theorem apply_stopAt_none (layout : Layout) :
    (stopAt none).apply layout = (.ok (), layout) := rfl

@[simp] theorem apply_stopAt_some (failure : Diagnostic) (layout : Layout) :
    (stopAt (some failure)).apply layout = (.error failure, layout) := rfl

/-- The layout after a complete pass that has left `labels` and `program`. -/
def passed (layout : Layout) (labels : Labels) (program : List Instruction) : Layout :=
  { layout with
    program, labels, trace := if layout.tracing then layout.trace ++ [labels] else layout.trace }

theorem pass_eq_ok_iff (step : Step) (layout after : Layout) (changed : Bool) :
    (pass step).apply layout = (.ok changed, after) ↔
      ∃ walk program, Sweeps step (.start layout.labels) layout.program walk program ∧
        walk.changed = changed ∧ layout.passed walk.labels program = after := by
  simp only [← sweep_eq_iff, pass, Step.pass, Stage.apply_bind, Stage.apply_get, Stage.apply_set]
  rcases sweep step (.start layout.labels) layout.program with ⟨walk, program, failure⟩
  cases failure with
  | some failure => simp
  | none =>
    simp only [apply_stopAt_none, Stage.apply_modify, Stage.apply_pure, Prod.mk.injEq,
      Except.ok.injEq, Swept.mk.injEq]
    have recorded : layout.passed walk.labels program =
        if layout.tracing then
          { layout with program, labels := walk.labels, trace := layout.trace ++ [walk.labels] }
        else { layout with program, labels := walk.labels } := by
      unfold passed
      split <;> rfl
    rw [← recorded]
    constructor
    · rintro ⟨rfl, rfl⟩
      exact ⟨walk, program, ⟨rfl, rfl, trivial⟩, rfl, rfl⟩
    · rintro ⟨walk', program', ⟨rfl, rfl, -⟩, rfl, rfl⟩
      exact ⟨rfl, rfl⟩

theorem pass_eq_error_iff (step : Step) (layout : Layout) (failure : Diagnostic) :
    ((pass step).apply layout).1 = .error failure ↔
      (sweep step (.start layout.labels) layout.program).failure = some failure := by
  simp only [pass, Step.pass, Stage.apply_bind, Stage.apply_get, Stage.apply_set]
  rcases sweep step (.start layout.labels) layout.program with ⟨walk, program, _ | cause⟩
  · simp
  · simp

/-- What every pass keeps holds before the last pass, which changes nothing. -/
theorem repeatPass_induction {step : Step} (Kept : Layout → Prop)
    (keep : ∀ {layout after changed}, Kept layout → (pass step).apply layout = (.ok changed, after) →
      Kept after)
    {limit remaining count : Nat} {layout after : Layout} (start : Kept layout)
    (done : (repeatPass step limit remaining).apply layout = (.ok count, after)) :
    ∃ before, Kept before ∧ (pass step).apply before = (.ok false, after) := by
  induction remaining generalizing layout with
  | zero => simp [repeatPass] at done
  | succ remaining inductionHypothesis =>
    rw [repeatPass, Stage.bind_eq_ok_iff] at done
    obtain ⟨changed, middle, once, done⟩ := done
    cases changed with
    | true => exact inductionHypothesis (keep start once) done
    | false =>
      simp only [Bool.false_eq_true, if_false, Stage.apply_pure, Prod.mk.injEq] at done
      obtain ⟨-, rfl⟩ := done
      exact ⟨layout, start, once⟩

theorem fixpoint_induction {step : Step} (Kept : Layout → Prop)
    (keep : ∀ {layout after changed}, Kept layout → (pass step).apply layout = (.ok changed, after) →
      Kept after)
    {count : Nat} {layout after : Layout} (start : Kept layout)
    (done : (fixpoint step).apply layout = (.ok count, after)) :
    ∃ before, Kept before ∧ (pass step).apply before = (.ok false, after) := by
  rw [fixpoint, Stage.apply_bind, Stage.apply_get] at done
  exact repeatPass_induction Kept keep start done

/-- A pass that changes nothing is the only one. -/
theorem fixpoint_of_unchanged {step : Step} {layout after : Layout}
    (once : (pass step).apply layout = (.ok false, after)) :
    (fixpoint step).apply layout = (.ok 1, after) := by
  rw [fixpoint, Stage.apply_bind, Stage.apply_get]
  obtain ⟨remaining, limit⟩ : ∃ remaining, layout.passLimit = remaining + 1 :=
    ⟨4 * layout.program.length + 15, rfl⟩
  simp only [limit, repeatPass, Stage.apply_bind, once, Bool.false_eq_true, if_false,
    Stage.apply_pure, Nat.add_sub_cancel_left]

theorem updateProgram_eq_ok_iff (update : Labels → Instruction → Except AsmError Instruction)
    (layout after : Layout) (answer : Unit) :
    (updateProgram update).apply layout = (.ok answer, after) ↔
      ∃ program,
        List.Forall₂ (fun inst inst' => update layout.labels inst = .ok inst') layout.program
          program ∧ { layout with program } = after := by
  have one : ∀ inst inst', locate inst.position (update layout.labels inst) = .ok inst' ↔
      update layout.labels inst = .ok inst' := fun inst inst' => locate_eq_ok_iff _ _ _
  simp only [← one, ← mapM_eq_ok_iff, updateProgram, Stage.apply_bind, Stage.apply_get,
    Stage.apply_set, ← updateAll_eq_none_iff]
  generalize updateAll _ layout.program = updated
  obtain ⟨program, failure⟩ := updated
  cases failure with
  | some failure => simp
  | none => simp

/-- An update that leaves each instruction as it is does nothing. -/
theorem updateProgram_eq_self {update : Labels → Instruction → Except AsmError Instruction}
    {layout : Layout} (same : ∀ inst ∈ layout.program, update layout.labels inst = .ok inst) :
    (updateProgram update).apply layout = (.ok (), layout) :=
  (updateProgram_eq_ok_iff _ _ _ _).2 ⟨layout.program, List.forall₂_same.2 same, rfl⟩

/-- The stages after discovery, each with the layout that it leaves. -/
theorem settle_eq_ok_iff (layout after : Layout) (start : UInt16) :
    settle.apply layout = (.ok start, after) ↔
      ∃ addressPasses first moded measured sizePasses sized located,
        (fixpoint addressStep).apply layout = (.ok addressPasses, first) ∧
        (updateProgram Instruction.resolveMode).apply { first with addressPasses } =
          (.ok (), moded) ∧
        (updateProgram fun _ => Instruction.resolveSize).apply moded = (.ok (), measured) ∧
        (fixpoint sizeStep).apply measured = (.ok sizePasses, sized) ∧
        (updateProgram fun _ => Instruction.resolveAddress).apply { sized with sizePasses } =
          (.ok (), located) ∧
        (updateProgram Instruction.emit).apply located = (.ok (), after) ∧
        after.startAddress = .ok start := by
  simp only [settle, Stage.bind_eq_ok_iff, Stage.apply_modify, Stage.apply_get, Stage.apply_liftM]
  constructor
  · rintro ⟨addressPasses, first, addresses, _, _, ⟨⟩, ⟨⟩, moded, chosen, ⟨⟩, measured, sizes,
      sizePasses, sized, exactSizes, _, _, ⟨⟩, ⟨⟩, located, placed, ⟨⟩, emitted, bytes, _, _, ⟨⟩,
      answered⟩
    obtain ⟨started, rfl⟩ := Prod.mk.inj answered
    exact ⟨addressPasses, first, moded, measured, sizePasses, sized, located, addresses, chosen,
      sizes, exactSizes, placed, bytes, started⟩
  · rintro ⟨addressPasses, first, moded, measured, sizePasses, sized, located, addresses, chosen,
      sizes, exactSizes, placed, bytes, started⟩
    exact ⟨addressPasses, first, addresses, _, _, rfl, (), moded, chosen, (), measured, sizes,
      sizePasses, sized, exactSizes, _, _, rfl, (), located, placed, (), after, bytes, _, _, rfl,
      Prod.ext started rfl⟩

end Layout
end Micro65
