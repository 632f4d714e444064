import Micro65.Proofs.Expr.Narrowing
import Micro65.Proofs.Layout.Stage

set_option autoImplicit false

/-!
Layouts of renumbered lines. Where its lines stand decides nothing about a program: with other positions a
layout takes the same course, and reports the same failures at the other positions.
-/

namespace Micro65

def Diagnostic.renumber (move : Position → Position) (failure : Diagnostic) : Diagnostic :=
  { failure with position := failure.position.map move }

def Instruction.renumber (move : Position → Position) (inst : Instruction) : Instruction :=
  { inst with position := move inst.position }

def Label.renumber (move : Position → Position) (label : Label) : Label :=
  { label with position := move label.position }

def Labels.renumber (move : Position → Position) (labels : Labels) : Labels :=
  ⟨labels.toList.map (Label.renumber move)⟩

def Walk.renumber (move : Position → Position) (walk : Walk) : Walk :=
  { walk with labels := walk.labels.renumber move }

def Layout.renumber (move : Position → Position) (layout : Layout) : Layout :=
  { layout with
    program := layout.program.map (Instruction.renumber move)
    labels := layout.labels.renumber move
    start := layout.start.map (Prod.map id move)
    trace := layout.trace.map (Labels.renumber move) }

variable (move : Position → Position)

/-! ### What has no position -/

namespace Instruction

variable (inst : Instruction)

@[simp] theorem renumber_position : (inst.renumber move).position = move inst.position := rfl

@[simp] theorem renumber_label : (inst.renumber move).label = inst.label := rfl

@[simp] theorem renumber_kind : (inst.renumber move).kind = inst.kind := rfl

@[simp] theorem renumber_operand : (inst.renumber move).operand = inst.operand := rfl

@[simp] theorem renumber_mode : (inst.renumber move).mode = inst.mode := rfl

@[simp] theorem renumber_addressRange :
    (inst.renumber move).addressRange = inst.addressRange := rfl

end Instruction

@[simp] theorem Walk.renumber_labels (walk : Walk) :
    (walk.renumber move).labels = walk.labels.renumber move := rfl

namespace Layout

variable (layout : Layout)

@[simp] theorem renumber_program :
    (layout.renumber move).program = layout.program.map (Instruction.renumber move) := rfl

@[simp] theorem renumber_labels :
    (layout.renumber move).labels = layout.labels.renumber move := rfl

@[simp] theorem renumber_start :
    (layout.renumber move).start = layout.start.map (Prod.map id move) := rfl

end Layout

/-! ### Tables and operands -/

namespace Labels

variable (labels : Labels) (name : String)

@[simp] theorem find?_renumber :
    (labels.renumber move).find? name = (labels.find? name).map (Label.renumber move) := by
  unfold find? renumber
  rw [List.find?_map]
  rfl

@[simp] theorem get?_renumber : (labels.renumber move).get? name = labels.get? name := by
  unfold get?
  rw [find?_renumber, Option.map_map]
  rfl

@[simp] theorem position?_renumber :
    (labels.renumber move).position? name = (labels.position? name).map move := by
  unfold position?
  rw [find?_renumber, Option.map_map, Option.map_map]
  rfl

@[simp] theorem contains_renumber : (labels.renumber move).contains name = labels.contains name := by
  unfold contains
  rw [find?_renumber, Option.isSome_map]

@[simp] theorem differs_renumber (range : Interval) :
    (labels.renumber move).differs name range = labels.differs name range := by
  unfold differs
  rw [get?_renumber]

theorem set_renumber (range : Interval) :
    (labels.renumber move).set name range = (labels.set name range).renumber move := by
  unfold set renumber
  rw [List.map_map, List.map_map]
  congr 1
  apply List.map_congr_left
  intro label _
  change (if label.name == name then { label.renumber move with range } else label.renumber move) =
    Label.renumber move (if label.name == name then { label with range } else label)
  split <;> rfl

theorem push_renumber (label : Label) :
    (labels.renumber move).push (label.renumber move) = (labels.push label).renumber move := by
  unfold push renumber
  rw [List.map_append]
  rfl

theorem insert_renumber (position : Position) :
    (labels.renumber move).insert name (move position) =
      ((labels.insert name position).1.renumber move, (labels.insert name position).2.map move) := by
  unfold insert
  rw [position?_renumber]
  cases labels.position? name with
  | none => exact Prod.ext (labels.push_renumber move ⟨name, position, .unknown⟩) rfl
  | some taken => rfl

@[simp] theorem ranges_renumber : (labels.renumber move).ranges = labels.ranges := by
  unfold ranges renumber
  rw [List.map_map]
  rfl

end Labels

namespace Expr

variable (labels : Labels) (expr : Expr)

@[simp] theorem range_renumber : expr.range (labels.renumber move) = expr.range labels :=
  range_congr fun name _ => labels.get?_renumber move name

@[simp] theorem classify_renumber :
    expr.classify (labels.renumber move) = expr.classify labels := by
  induction expr with
  | label name => rw [classify, classify, Labels.get?_renumber]
  | literal value | register which | indirect inner => rfl
  | address inner inductionHypothesis | half side inner inductionHypothesis =>
    rw [classify, classify, inductionHypothesis]
  | add left right leftHypothesis rightHypothesis | sub left right leftHypothesis rightHypothesis
  | mul left right leftHypothesis rightHypothesis =>
    rw [classify, classify, leftHypothesis, rightHypothesis]

@[simp] theorem mode_renumber : expr.mode (labels.renumber move) = expr.mode labels := by
  induction expr with
  | add left right leftHypothesis rightHypothesis =>
    rw [mode, mode, classify_renumber, compoundMode, compoundMode, leftHypothesis, rightHypothesis]
  | indirect inner inductionHypothesis =>
    rw [mode, mode, classify_renumber, compoundMode, compoundMode, inductionHypothesis]
  | _ =>
    rw [mode, mode, classify_renumber]
    simp only [compoundMode]

end Expr

/-! ### Passes and updates -/

@[simp] theorem locate_renumber {α β : Type} (position : Position) (update : α → β)
    (result : Except AsmError α) :
    locate (move position) (result.map update) =
      ((locate position result).map update).mapError (Diagnostic.renumber move) := by
  cases result <;> rfl

theorem place_renumber (walk : Walk) (inst : Instruction) :
    (walk.renumber move).place (inst.renumber move) =
      ((walk.place inst).1.renumber move, (walk.place inst).2.renumber move) := by
  unfold Walk.place
  dsimp only [Instruction.renumber]
  cases inst.label with
  | none => rfl
  | some name =>
    simp only [Walk.renumber, Walk.mark, Labels.differs_renumber, Labels.set_renumber]

/-- What a step does with a renumbered instruction. -/
def renumberStep (done : Walk × Instruction × Option Diagnostic) :
    Walk × Instruction × Option Diagnostic :=
  (done.1.renumber move, done.2.1.renumber move, done.2.2.map (Diagnostic.renumber move))

/-- Positions are nothing to the step. -/
def Step.Uniform (step : Step) : Prop :=
  ∀ walk inst, step (walk.renumber move) (inst.renumber move) = renumberStep move (step walk inst)

theorem base_renumber (walk : Walk) (inst : Instruction) :
    (walk.renumber move).base (inst.renumber move) = renumberStep move (walk.base inst) := by
  rcases inst with ⟨position, label, spelling, kind, _ | operand⟩
  · rfl
  · simp only [Walk.base, Instruction.renumber, Walk.renumber, Expr.range_renumber]
    cases operand.range walk.labels <;> rfl

theorem addressStep_eq (walk : Walk) (inst : Instruction) :
    addressStep walk inst =
      if inst.kind = .base then walk.base inst
      else ((walk.place inst).1.advance (walk.place inst).2.sizeRange, (walk.place inst).2, none) := by
  unfold addressStep
  split
  next kind => rw [if_pos kind]
  next kind => rw [if_neg kind]

theorem uniform_addressStep : Step.Uniform move addressStep := by
  intro walk inst
  rw [addressStep_eq, addressStep_eq, Instruction.renumber_kind, base_renumber, place_renumber]
  split <;> rfl

@[simp] theorem dataSize_renumber (inst : Instruction) (labels : Labels) :
    (inst.renumber move).dataSize (labels.renumber move) = inst.dataSize labels := by
  rcases inst with ⟨position, label, spelling, kind, _ | operand⟩
  · rfl
  · simp only [Instruction.dataSize, Instruction.renumber, Expr.range_renumber]

theorem uniform_sizeStep : Step.Uniform move sizeStep := by
  intro walk inst
  have same := inst.renumber_kind move
  by_cases base : inst.kind = .base
  · simp only [sizeStep, same, base]
    exact base_renumber move walk inst
  by_cases data : inst.kind = .data
  · simp only [sizeStep, same, data, place_renumber]
    generalize walk.place inst = placed
    obtain ⟨walk, inst⟩ := placed
    rw [Walk.renumber_labels, dataSize_renumber]
    cases inst.dataSize walk.labels <;> rfl
  · have other : ∀ (walk : Walk) (inst : Instruction), inst.kind ≠ .base → inst.kind ≠ .data →
        sizeStep walk inst =
          ((walk.place inst).1.advance (.point (walk.place inst).2.size), (walk.place inst).2, none) := by
      intro walk inst base data
      unfold sizeStep
      split
      · contradiction
      · contradiction
      · rfl
    rw [other _ _ base data, other _ _ (same ▸ base) (same ▸ data), place_renumber]
    rfl

namespace Instruction

variable (labels : Labels) (inst : Instruction)

theorem resolveMode_renumber :
    (inst.renumber move).resolveMode (labels.renumber move) =
      (inst.resolveMode labels).map (Instruction.renumber move) := by
  unfold resolveMode
  rw [renumber_kind, renumber_operand]
  split
  · rfl
  · rfl
  · rfl
  next operand _ _ _ =>
    rw [Expr.mode_renumber]
    cases operand.mode labels <;> rfl

theorem resolveSize_renumber :
    (inst.renumber move).resolveSize = inst.resolveSize.map (Instruction.renumber move) := by
  unfold resolveSize
  rw [renumber_kind, renumber_mode]
  split
  · rfl
  · rfl
  · cases inst.kind.size? inst.mode <;> rfl

theorem resolveAddress_renumber :
    (inst.renumber move).resolveAddress =
      inst.resolveAddress.map (Instruction.renumber move) := by
  unfold resolveAddress
  rw [renumber_kind, renumber_addressRange]
  split
  · rfl
  · rfl
  · split <;> rfl

theorem encode_renumber :
    (inst.renumber move).encode (labels.renumber move) = inst.encode labels := by
  have operand : ∀ given, encode.operandBytes (labels.renumber move) (inst.renumber move) given =
      encode.operandBytes labels inst given := by
    rintro (_ | expr)
    · rfl
    · simp only [encode.operandBytes, pointValue, Expr.range_renumber]
      rfl
  simp only [encode, operand]
  rfl

theorem emit_renumber :
    (inst.renumber move).emit (labels.renumber move) =
      (inst.emit labels).map (Instruction.renumber move) := by
  unfold emit
  rw [encode_renumber]
  cases inst.encode labels <;> rfl

end Instruction

/-! ### Stages -/

namespace Layout

theorem collect_renumber (labels : Labels) (start : Option (Expr × Position))
    (program : List Instruction) :
    collect (labels.renumber move) (start.map (Prod.map id move))
        (program.map (Instruction.renumber move)) =
      (collect labels start program).map
        (Prod.map (Labels.renumber move) (Option.map (Prod.map id move)))
        (Instruction.renumber move) (Diagnostic.renumber move) := by
  induction program generalizing labels start with
  | nil => rfl
  | cons inst rest inductionHypothesis =>
    rw [List.map_cons, collect, collect, Instruction.renumber_kind, Instruction.renumber_label,
      Instruction.renumber_operand]
    split
    · cases inst.operand with
      | none => exact inductionHypothesis labels start
      | some given => exact inductionHypothesis labels (some (given, inst.position))
    · split
      · rw [inductionHypothesis]
        rfl
      next name labelled =>
        rw [Instruction.renumber_position, Labels.insert_renumber]
        rcases labels.insert name inst.position with ⟨labels', _ | taken⟩
        · dsimp only [Option.map_none]
          rw [inductionHypothesis]
          rfl
        · rfl

theorem operands_renumber (layout : Layout) :
    (layout.renumber move).operands = layout.operands.map (Prod.map id move) := by
  unfold operands
  rw [List.map_append]
  congr 1
  · rw [renumber_program, List.filterMap_map, List.map_filterMap]
    congr 1
    funext inst
    simp [Function.comp_def]
  · rw [renumber_start]
    cases layout.start <;> rfl

theorem undefined?_renumber (layout : Layout) :
    (layout.renumber move).undefined? = layout.undefined?.map (Diagnostic.renumber move) := by
  unfold undefined?
  rw [operands_renumber, List.findSome?_map, List.map_findSome?]
  congr 1
  funext ⟨operand, position⟩
  simp only [Function.comp, Prod.map, renumber_labels, Labels.contains_renumber, Option.map_map]
  rfl

theorem startAddress_renumber (layout : Layout) :
    (layout.renumber move).startAddress =
      layout.startAddress.mapError (Diagnostic.renumber move) := by
  unfold startAddress
  rw [renumber_start, renumber_labels]
  rcases layout.start with _ | ⟨operand, position⟩
  · rfl
  · simp only [Option.map_some, Prod.map, Expr.range_renumber, id]
    generalize (operand.range layout.labels >>= _) = result
    cases result <;> rfl

end Layout

namespace Stage

variable {α β : Type} {move : Position → Position}

/-- Answer and layout of a stage, with other positions. -/
def renumberOutcome (move : Position → Position) (outcome : Except Diagnostic α × Layout) :
    Except Diagnostic α × Layout :=
  (outcome.1.mapError (Diagnostic.renumber move), outcome.2.renumber move)

/-- Positions are nothing to the stage. -/
def Uniform (move : Position → Position) (stage : Stage α) : Prop :=
  ∀ layout, stage.apply (layout.renumber move) = renumberOutcome move (stage.apply layout)

theorem Uniform.bind {stage : Stage α} {next : α → Stage β} (first : stage.Uniform move)
    (rest : ∀ value, (next value).Uniform move) : (stage >>= next).Uniform move := by
  intro layout
  rw [apply_bind, apply_bind, first layout]
  rcases stage.apply layout with ⟨failure | value, middle⟩
  · rfl
  · exact rest value middle

theorem uniform_pure (value : α) : (pure value : Stage α).Uniform move := fun _ => rfl

/-- What reads the layout may use all of it but positions. -/
theorem uniform_get {next : Layout → Stage α}
    (same : ∀ layout, (next (layout.renumber move)).apply (layout.renumber move) =
      renumberOutcome move ((next layout).apply layout)) :
    (get >>= next).Uniform move := by
  intro layout
  rw [apply_bind, apply_bind]
  exact same layout

theorem apply_stopAt_renumber (move : Position → Position) (failure : Option Diagnostic) (layout : Layout) :
    (Layout.stopAt (failure.map (Diagnostic.renumber move))).apply (layout.renumber move) =
      renumberOutcome move ((Layout.stopAt failure).apply layout) := by
  cases failure <;> rfl

end Stage

namespace Layout

variable {move : Position → Position}

open Stage

theorem uniform_discover : discover.Uniform move := by
  intro layout
  have found := collect_renumber move .empty none layout.program
  change collect .empty none (layout.renumber move).program = _ at found
  simp only [discover, apply_bind, apply_get, apply_modify]
  rw [found]
  rcases collect .empty none layout.program with ⟨⟨labels, start⟩, program, _ | failure⟩
  · have missing := undefined?_renumber move { layout with program, labels, start }
    have stopped := apply_stopAt_renumber move
      ({ layout with program, labels, start } : Layout).undefined?
      { layout with program, labels, start }
    rw [← missing] at stopped
    exact stopped
  · rfl

theorem uniform_pass {step : Step} (same : step.Uniform move) : (pass step).Uniform move := by
  intro layout
  have swept := sweep_map (Walk.renumber move) (Instruction.renumber move)
    (Diagnostic.renumber move) same (.start layout.labels) layout.program
  change step.pass (layout.renumber move).labels (layout.renumber move).program =
    (step.pass layout.labels layout.program).map _ _ _ at swept
  simp only [pass, apply_bind, apply_get, apply_set]
  rw [swept]
  rcases step.pass layout.labels layout.program with ⟨walk, program, _ | failure⟩
  · cases tracing : layout.tracing <;>
      simp [Swept.map, renumberOutcome, renumber, tracing, Except.mapError, Walk.renumber]
  · rfl

theorem uniform_repeatPass {step : Step} (same : step.Uniform move) (limit remaining : Nat) :
    (repeatPass step limit remaining).Uniform move := by
  induction remaining with
  | zero => exact fun _ => rfl
  | succ remaining inductionHypothesis =>
    rw [repeatPass]
    refine (uniform_pass same).bind fun changed => ?_
    cases changed with
    | true => exact inductionHypothesis
    | false => exact uniform_pure _

theorem uniform_fixpoint {step : Step} (same : step.Uniform move) :
    (fixpoint step).Uniform move := by
  have limit : ∀ layout : Layout, (layout.renumber move).passLimit = layout.passLimit := by
    intro layout
    simp [passLimit]
  refine uniform_get fun layout => ?_
  dsimp only
  rw [limit]
  exact uniform_repeatPass same _ _ layout

theorem uniform_updateProgram {update : Labels → Instruction → Except AsmError Instruction}
    (same : ∀ labels inst, update (labels.renumber move) (inst.renumber move) =
      (update labels inst).map (Instruction.renumber move)) : (updateProgram update).Uniform move := by
  intro layout
  have each : ∀ inst, locate (inst.renumber move).position
      (update (layout.renumber move).labels (inst.renumber move)) =
        ((locate inst.position (update layout.labels inst)).map (Instruction.renumber move)).mapError
          (Diagnostic.renumber move) := by
    intro inst
    rw [Instruction.renumber_position, renumber_labels, same, locate_renumber]
  have updated : updateAll (fun inst => locate inst.position (update (layout.renumber move).labels inst))
      (layout.program.map (Instruction.renumber move)) = _ :=
    updateAll_map (Instruction.renumber move) (Diagnostic.renumber move) each layout.program
  simp only [updateProgram, apply_bind, apply_get, apply_set]
  rw [renumber_program, updated]
  rcases updateAll _ layout.program with ⟨program, _ | failure⟩ <;> rfl

theorem uniform_settle : settle.Uniform move := by
  have recordAddresses (addressPasses : Nat) :
      (modify fun layout => { layout with addressPasses } : Stage Unit).Uniform move := fun _ => rfl
  have recordSizes (sizePasses : Nat) :
      (modify fun layout => { layout with sizePasses } : Stage Unit).Uniform move := fun _ => rfl
  refine (uniform_fixpoint (uniform_addressStep move)).bind fun addressPasses => ?_
  refine (recordAddresses addressPasses).bind fun _ => ?_
  refine (uniform_updateProgram (Instruction.resolveMode_renumber move)).bind fun _ => ?_
  refine (uniform_updateProgram fun _ => Instruction.resolveSize_renumber move).bind fun _ => ?_
  refine (uniform_fixpoint (uniform_sizeStep move)).bind fun sizePasses => ?_
  refine (recordSizes sizePasses).bind fun _ => ?_
  refine (uniform_updateProgram fun _ => Instruction.resolveAddress_renumber move).bind fun _ => ?_
  refine (uniform_updateProgram (Instruction.emit_renumber move)).bind fun _ => ?_
  refine uniform_get fun layout => ?_
  rw [startAddress_renumber]
  cases layout.startAddress <;> rfl

/-- A layout takes the same course wherever the lines of its program stand. -/
theorem uniform_run : run.Uniform move :=
  uniform_discover.bind fun _ => uniform_settle

end Layout
end Micro65
