import Mathlib.Logic.Relation
import Micro65.Proofs.Expr.Evaluation
import Micro65.Proofs.Layout.Discovery
import Micro65.Proofs.Layout.Failures
import Micro65.Proofs.Layout.Resolution

set_option autoImplicit false

/-!
Evaluation after discovery. Once every label that is mentioned is in the table, no stage can lose this:
passes and updates move labels, but neither drop a name nor bring in an expression that is not a part of
one before. So an expression has an interval of values whenever it is evaluated, unless a register or an
indirection occurs in it, and no stage reports that a label is unknown.
-/

namespace Micro65

/-! ### What stages do -/

/-- All labels that the instruction mentions are among the names. -/
def Instruction.Defined (names : List String) (inst : Instruction) : Prop :=
  ∀ expr ∈ inst.expressions, ∀ name ∈ expr.labels, name ∈ names

theorem Instruction.Defined.not_lacks {labels : Labels} {inst : Instruction}
    (defined : inst.Defined labels.names) (name : String) : ¬inst.Lacks labels name := by
  rintro ⟨expr, member, mentioned, missing⟩
  exact missing (defined expr member name mentioned)

/-- The steps that passes are made of. -/
def passSteps : List Step := [addressStep, sizeStep]

/-- The updates that go down a program. -/
def programUpdates : List (Labels → Instruction → Except AsmError Instruction) :=
  [Instruction.resolveMode, fun _ => Instruction.resolveSize, fun _ => Instruction.resolveAddress,
    Instruction.emit]

/-! ### Steps and updates -/

theorem Walk.base_keeps (walk : Walk) (inst : Instruction) :
    (walk.base inst).1.labels.names = walk.labels.names ∧
      (walk.base inst).2.1.expressions = inst.expressions := by
  unfold base
  dsimp only
  split <;> exact ⟨rfl, rfl⟩

theorem Walk.place_keeps (walk : Walk) (inst : Instruction) :
    (walk.place inst).1.labels.names = walk.labels.names ∧
      (walk.place inst).2.expressions = inst.expressions := by
  rw [place_labels, Labels.names_stamp, place_snd]
  exact ⟨rfl, rfl⟩

section Steps

variable {step : Step} (one : step ∈ passSteps)

include one

/-- A step, also one that fails, keeps the names of the table and the expressions of its instruction. -/
theorem step_keeps (walk : Walk) (inst : Instruction) :
    (step walk inst).1.labels.names = walk.labels.names ∧
      (step walk inst).2.1.expressions = inst.expressions := by
  have based := walk.base_keeps inst
  have placed := walk.place_keeps inst
  simp only [passSteps, List.mem_cons, List.not_mem_nil, or_false] at one
  rcases one with rfl | rfl
  · unfold addressStep
    split
    · exact based
    · exact placed
  · unfold sizeStep
    split
    · exact based
    · dsimp only
      split <;> exact placed
    · exact placed

/-- A step misses no label of an instruction whose labels are all in the table. -/
theorem step_known {walk walk' : Walk} {inst inst' : Instruction} {failure : Diagnostic}
    (failed : step walk inst = (walk', inst', some failure)) (defined : inst.Defined walk.labels.names) :
    failure.error.isUnknownLabel = false := by
  simp only [passSteps, List.mem_cons, List.not_mem_nil, or_false] at one
  rcases one with rfl | rfl
  · exact (addressStep_failed failed).known defined.not_lacks
  · rcases sizeStep_failed failed with plain | ⟨-, -, sized⟩
    · exact plain.known defined.not_lacks
    · rw [← Labels.names_stamp walk.labels inst.label walk.cursor] at defined
      rcases inst.dataSize_failed _ sized with plain | ⟨_, value, -, -, -, outside⟩
      · exact plain.known defined.not_lacks
      · rw [outside]
        rfl

end Steps

section Updates

variable {update : Labels → Instruction → Except AsmError Instruction}
  (one : update ∈ programUpdates)

include one

theorem update_plain (labels : Labels) (inst : Instruction) :
    Plain (inst.Lacks labels) (update labels inst) := by
  simp only [programUpdates, List.mem_cons, List.not_mem_nil, or_false] at one
  rcases one with rfl | rfl | rfl | rfl
  · exact inst.plain_resolveMode labels
  · exact inst.plain_resolveSize
  · exact inst.plain_resolveAddress
  · exact inst.plain_emit labels

/-- What an update puts in as the expression to encode is a part of the operand, so it brings in no
label. -/
theorem update_defined {labels : Labels} {names : List String} {inst inst' : Instruction}
    (done : update labels inst = .ok inst') (defined : inst.Defined names) : inst'.Defined names := by
  simp only [programUpdates, List.mem_cons, List.not_mem_nil, or_false] at one
  rcases one with rfl | rfl | rfl | rfl
  · unfold Instruction.resolveMode at done
    split at done
    · cases done
      exact defined
    · cases done
      exact defined
    · cases done
      exact defined
    next operand given _ _ =>
      rw [except_bind_eq_ok_iff] at done
      obtain ⟨⟨mode, param⟩, chosen, done⟩ := done
      cases done
      have whole : ∀ name ∈ operand.labels, name ∈ names :=
        defined operand (List.mem_append_left _ (Option.mem_toList.2 given))
      intro expr member
      rcases List.mem_append.1 member with member | member
      · exact defined expr (List.mem_append_left _ member)
      · obtain rfl := Option.mem_toList.1 member
        exact Expr.forall_parts Expr.defined_children whole expr (Expr.encodes_of_mode chosen).part
  · obtain ⟨-, same, -⟩ := Instruction.resolveSize_eq_ok done
    rw [same]
    exact defined
  · obtain ⟨-, same⟩ := Instruction.resolveAddress_eq_ok done
    rw [same]
    exact defined
  · obtain ⟨bytes, -, rfl⟩ := (Instruction.emit_eq_ok_iff _ _ _).1 done
    exact defined

end Updates

namespace Layout

/-! ### Layouts on the way -/

/-- One thing that the stages after discovery do to a layout. What is evaluated for it are expressions of
the layout before by its table, or of the layout after by its own: a `DATA` line is measured when its
label has been stamped. -/
inductive Advances (layout : Layout) : Layout → Prop where
  /-- A step of a pass, whether it fails or not. -/
  | step {step : Step} {walk : Walk} {before after : List Instruction} {inst : Instruction}
      (one : step ∈ passSteps) (labels : walk.labels = layout.labels)
      (program : layout.program = before ++ inst :: after) :
      Advances layout { layout with
        program := before ++ (step walk inst).2.1 :: after, labels := (step walk inst).1.labels }
  | update {update : Labels → Instruction → Except AsmError Instruction}
      {before after : List Instruction} {inst inst' : Instruction} (one : update ∈ programUpdates)
      (program : layout.program = before ++ inst :: after)
      (done : update layout.labels inst = .ok inst') :
      Advances layout { layout with program := before ++ inst' :: after }
  | record (addressPasses sizePasses : Nat) (trace : List Labels) :
      Advances layout { layout with addressPasses, sizePasses, trace }

/-- The layouts that there can be on the way from this one, whatever is done to its instructions and in
whatever order. -/
def Reaches : Layout → Layout → Prop := Relation.ReflTransGen Advances

/-- Operands, what is encoded of them, and the operand of the start. -/
def expressions (layout : Layout) : List Expr :=
  layout.program.flatMap Instruction.expressions ++ layout.start.toList.map (·.1)

/-- The table has these names, and they are all that is mentioned. -/
structure Defined (names : List String) (layout : Layout) : Prop where
  table : layout.labels.names = names
  program : ∀ inst ∈ layout.program, inst.Defined names
  start : ∀ given ∈ layout.start, ∀ name ∈ given.1.labels, name ∈ names

variable {names : List String} {layout after : Layout}

theorem Defined.advances (defined : layout.Defined names) (advances : layout.Advances after) :
    after.Defined names := by
  cases advances with
  | @step _ walk before rest inst one labels program =>
    obtain ⟨kept, same⟩ := step_keeps one walk inst
    have others := defined.program
    rw [program, List.forall_mem_append, List.forall_mem_cons] at others
    refine ⟨kept.trans (labels ▸ defined.table), ?_, defined.start⟩
    rw [List.forall_mem_append, List.forall_mem_cons]
    refine ⟨others.1, ?_, others.2.2⟩
    unfold Instruction.Defined
    rw [same]
    exact others.2.1
  | update one program done =>
    have others := defined.program
    rw [program, List.forall_mem_append, List.forall_mem_cons] at others
    refine ⟨defined.table, ?_, defined.start⟩
    rw [List.forall_mem_append, List.forall_mem_cons]
    exact ⟨others.1, update_defined one done others.2.1, others.2.2⟩
  | record => exact ⟨defined.table, defined.program, defined.start⟩

theorem Defined.reaches (defined : layout.Defined names) (reaches : layout.Reaches after) :
    after.Defined names := by
  induction reaches with
  | refl => exact defined
  | tail _ advances inductionHypothesis => exact inductionHypothesis.advances advances

theorem Defined.evaluates (defined : layout.Defined names) :
    ∀ expr ∈ layout.expressions, expr.Evaluates layout.labels := by
  intro expr member
  refine Expr.evaluates_of_defined ?_
  rw [defined.table]
  rcases List.mem_append.1 member with member | member
  · obtain ⟨inst, listed, member⟩ := List.mem_flatMap.1 member
    exact defined.program inst listed expr member
  · obtain ⟨given, listed, rfl⟩ := List.mem_map.1 member
    exact defined.start given (Option.mem_toList.1 listed)

/-! ### Stages -/

end Layout

/-- From this layout the stage goes on by advances, whether it fails or not, and it reports no label as
unknown. -/
def Stage.SoundAt {α : Type} (stage : Stage α) (layout : Layout) : Prop :=
  layout.Reaches (stage.apply layout).2 ∧ stage.Avoids AsmError.isUnknownLabel layout

/-- The stage does so from every layout with these names whose labels are all defined. -/
def Stage.Sound {α : Type} (names : List String) (stage : Stage α) : Prop :=
  ∀ layout : Layout, layout.Defined names → stage.SoundAt layout

namespace Stage

variable {α β : Type} {names : List String}

theorem Sound.bind {stage : Stage α} {next : α → Stage β} (sound : stage.Sound names)
    (soundNext : ∀ value, (next value).Sound names) : (stage >>= next).Sound names := by
  intro layout defined
  obtain ⟨reaches, avoids⟩ := sound layout defined
  have later : ∀ value middle, stage.apply layout = (.ok value, middle) →
      (next value).SoundAt middle := by
    intro value middle ran
    rw [ran] at reaches
    exact soundNext value middle (defined.reaches reaches)
  refine ⟨?_, avoids.bind fun value middle ran => (later value middle ran).2⟩
  rw [apply_bind]
  rcases ran : stage.apply layout with ⟨failure | value, middle⟩
  · rw [ran] at reaches
    exact reaches
  · rw [ran] at reaches
    exact reaches.trans (later value middle ran).1

theorem soundAt_of_ok {stage : Stage α} {layout after : Layout} {value : α}
    (done : stage.apply layout = (.ok value, after)) (reaches : layout.Reaches after) :
    stage.SoundAt layout := by
  unfold SoundAt
  rw [done]
  exact ⟨reaches, avoids_of_ok done⟩

theorem sound_pure (value : α) : (pure value : Stage α).Sound names :=
  fun layout _ => soundAt_of_ok (apply_pure value layout) .refl

theorem sound_get_bind {next : Layout → Stage β}
    (sound : ∀ layout : Layout, layout.Defined names → (next layout).SoundAt layout) :
    (get >>= next : Stage β).Sound names := by
  intro layout defined
  unfold SoundAt
  rw [apply_bind, apply_get]
  exact sound layout defined

/-- A layout may be put in the place of one that it is reached from. -/
theorem Sound.after_set {next : Unit → Stage β} (sound : (next ()).Sound names) {layout middle : Layout}
    (defined : layout.Defined names) (reaches : layout.Reaches middle) :
    (set middle >>= next : Stage β).SoundAt layout := by
  obtain ⟨further, known⟩ := sound middle (defined.reaches reaches)
  unfold SoundAt
  rw [apply_bind, apply_set]
  exact ⟨reaches.trans further, known⟩

end Stage

namespace Layout

variable {names : List String}

theorem sound_stopAt {failure : Option Diagnostic}
    (known : ∀ cause, failure = some cause → cause.error.isUnknownLabel = false) :
    (stopAt failure).Sound names := by
  intro layout defined
  refine ⟨?_, avoids_stopAt layout known⟩
  cases failure <;> exact .refl

/-- A record of what has been done is no more than a record. -/
theorem sound_record {change : Layout → Layout}
    (records : ∀ layout, ∃ addressPasses sizePasses trace,
      change layout = { layout with addressPasses, sizePasses, trace }) :
    (modify change : Stage Unit).Sound names := by
  intro layout defined
  obtain ⟨addressPasses, sizePasses, trace, same⟩ := records layout
  refine Stage.soundAt_of_ok (Stage.apply_modify change layout) ?_
  rw [same]
  exact .single (.record addressPasses sizePasses trace)

/-! ### Passes and updates -/

/-- A sweep over the rest of a program, from a walk with the table of the layout. -/
theorem sweep_sound {step : Step} (one : step ∈ passSteps) {layout : Layout}
    (defined : layout.Defined names) {walk : Walk} {before rest : List Instruction}
    (labels : walk.labels = layout.labels) (program : layout.program = before ++ rest) :
    let swept := sweep step walk rest
    layout.Reaches { layout with program := before ++ swept.items, labels := swept.state.labels } ∧
      ∀ failure, swept.failure = some failure → failure.error.isUnknownLabel = false := by
  induction rest generalizing layout walk before with
  | nil =>
    refine ⟨?_, fun failure failed => ?_⟩
    · change layout.Reaches { layout with program := before ++ [], labels := walk.labels }
      rw [labels, ← program]
      exact .refl
    · contradiction
  | cons inst rest inductionHypothesis =>
    have advance := Advances.step one labels program
    have own : inst.Defined walk.labels.names := by
      rw [labels, defined.table]
      exact defined.program inst (program ▸ List.mem_append_right _ List.mem_cons_self)
    rw [Micro65.sweep]
    rcases stepped : step walk inst with ⟨walk', inst', _ | failure⟩
    · rw [stepped] at advance
      rw [List.append_cons] at advance
      obtain ⟨reaches, known⟩ := inductionHypothesis (defined.advances advance) rfl rfl
      have further := Relation.ReflTransGen.head advance reaches
      rw [← List.append_cons] at further
      exact ⟨further, known⟩
    · rw [stepped] at advance
      refine ⟨.single advance, ?_⟩
      rintro _ ⟨⟩
      exact step_known one stepped own

theorem sound_pass {step : Step} (one : step ∈ passSteps) : (pass step).Sound names := by
  refine Stage.sound_get_bind fun layout defined => ?_
  have labels : (Walk.start layout.labels).labels = layout.labels := rfl
  obtain ⟨reaches, known⟩ := sweep_sound one defined labels (List.nil_append _).symm
  refine Stage.Sound.after_set ?_ defined reaches
  refine (sound_stopAt known).bind fun _ => (sound_record fun layout => ?_).bind fun _ =>
    Stage.sound_pure _
  by_cases traced : layout.tracing = true
  · exact ⟨_, _, _, if_pos traced⟩
  · exact ⟨layout.addressPasses, layout.sizePasses, layout.trace, if_neg traced⟩

theorem sound_repeatPass {step : Step} (one : step ∈ passSteps) (limit remaining : Nat) :
    (repeatPass step limit remaining).Sound names := by
  induction remaining with
  | zero =>
    intro layout defined
    refine ⟨.refl, ?_⟩
    rintro _ ⟨⟩
    rfl
  | succ remaining inductionHypothesis =>
    refine (sound_pass one).bind fun changed => ?_
    cases changed with
    | true => exact inductionHypothesis
    | false => exact Stage.sound_pure _

theorem sound_fixpoint {step : Step} (one : step ∈ passSteps) : (fixpoint step).Sound names :=
  Stage.sound_get_bind fun layout defined => sound_repeatPass one _ _ layout defined

/-- An update of the rest of a program. -/
theorem updateAll_reaches {update : Labels → Instruction → Except AsmError Instruction}
    (one : update ∈ programUpdates) {layout : Layout} {before rest : List Instruction}
    (program : layout.program = before ++ rest) :
    let updated := updateAll (fun inst => locate inst.position (update layout.labels inst)) rest
    layout.Reaches { layout with program := before ++ updated.1 } := by
  induction rest generalizing layout before with
  | nil =>
    change layout.Reaches { layout with program := before ++ [] }
    rw [← program]
    exact .refl
  | cons inst rest inductionHypothesis =>
    rw [updateAll]
    cases located : locate inst.position (update layout.labels inst) with
    | error failure =>
      change layout.Reaches { layout with program := before ++ inst :: rest }
      rw [← program]
      exact .refl
    | ok inst' =>
      have advance := Advances.update one program ((locate_eq_ok_iff _ _ _).1 located)
      rw [List.append_cons] at advance
      have reaches := Relation.ReflTransGen.head advance (inductionHypothesis rfl)
      rw [← List.append_cons] at reaches
      exact reaches

theorem sound_updateProgram {update : Labels → Instruction → Except AsmError Instruction}
    (one : update ∈ programUpdates) : (updateProgram update).Sound names := by
  refine Stage.sound_get_bind fun layout defined => ?_
  have reaches := updateAll_reaches one (List.nil_append layout.program).symm
  refine Stage.Sound.after_set (sound_stopAt fun failure failed => ?_) defined reaches
  obtain ⟨inst, member, plain⟩ := updateAll_plain (update_plain one layout.labels) failed
  have own : inst.Defined layout.labels.names := by
    rw [defined.table]
    exact defined.program inst member
  exact plain.known own.not_lacks

/-! ### The whole run -/

theorem sound_startAddress {layout : Layout} (defined : layout.Defined names) :
    (liftM layout.startAddress : Stage UInt16).SoundAt layout := by
  unfold Stage.SoundAt Stage.Avoids
  rw [Stage.apply_liftM]
  refine ⟨.refl, fun failure failed => (layout.startAddress_plain failed).known ?_⟩
  rintro name ⟨given, held, mentioned, missing⟩
  rw [defined.table] at missing
  exact missing (defined.start given held name mentioned)

theorem sound_settle : settle.Sound names := by
  have addresses : addressStep ∈ passSteps := by simp [passSteps]
  have sizes : sizeStep ∈ passSteps := by simp [passSteps]
  unfold settle
  refine (sound_fixpoint addresses).bind fun addressPasses => ?_
  refine (sound_record fun layout => ⟨addressPasses, _, _, rfl⟩).bind fun _ => ?_
  refine (sound_updateProgram (by simp [programUpdates])).bind fun _ => ?_
  refine (sound_updateProgram (by simp [programUpdates])).bind fun _ => ?_
  refine (sound_fixpoint sizes).bind fun sizePasses => ?_
  refine (sound_record fun layout => ⟨_, sizePasses, _, rfl⟩).bind fun _ => ?_
  refine (sound_updateProgram (by simp [programUpdates])).bind fun _ => ?_
  refine (sound_updateProgram (by simp [programUpdates])).bind fun _ => ?_
  exact Stage.sound_get_bind fun layout defined => sound_startAddress defined

/-- Discovery leaves nothing undefined. No operand has been encoded by then. -/
theorem discover_eq_ok_defined {layout found : Layout} {answer : Unit}
    (done : discover.apply layout = (.ok answer, found)) : found.Defined found.labels.names := by
  have mentioned := discover_defined done
  refine ⟨rfl, fun inst member expr part => ?_, fun given held => ?_⟩
  · have unencoded : inst.param = none := by
      rw [(discover_discovered done).program] at member
      obtain ⟨given, -, rfl⟩ := List.mem_map.1 member
      rfl
    rw [Instruction.expressions, unencoded, Option.toList_none, List.append_nil] at part
    refine mentioned (expr, inst.position) (List.mem_append_left _ ?_)
    refine List.mem_filterMap.2 ⟨inst, member, ?_⟩
    rw [Option.mem_toList.1 part, Option.map_some]
  · exact mentioned given (List.mem_append_right _ (Option.mem_toList.2 held))

/-- A run never reports that a label is unknown. Once discovery has succeeded, every layout on the way
to the end of the run, and every other one that steps and updates lead to, has an interval of values for
each operand, for what is encoded of it and for the operand of the start; only where a register or an
indirection occurs, the evaluation reports that there is no value before the program runs. -/
theorem run_knows_labels (layout : Layout) :
    (∀ failure, (run.apply layout).1 = .error failure →
      ∀ name, failure.error ≠ .unknownLabel name) ∧
    ∀ found, discover.apply layout = (.ok (), found) →
      found.Reaches (run.apply layout).2 ∧
      ∀ later, found.Reaches later → ∀ expr ∈ later.expressions, expr.Evaluates later.labels := by
  have settles : ∀ found, discover.apply layout = (.ok (), found) →
      found.Defined found.labels.names ∧ settle.SoundAt found := by
    intro found done
    have defined := discover_eq_ok_defined done
    exact ⟨defined, sound_settle found defined⟩
  have knows : run.Avoids AsmError.isUnknownLabel layout := by
    refine (avoids_discover layout fun _ plain => plain.known fun _ impossible => impossible).bind ?_
    intro answer found done
    exact (settles found done).2.2
  refine ⟨fun failure failed => AsmError.ne_unknownLabel (knows failure failed), fun found done => ?_⟩
  obtain ⟨defined, reaches, -⟩ := settles found done
  rw [run, Stage.apply_bind, done]
  exact ⟨reaches, fun later further => (defined.reaches further).evaluates⟩

/-- The base of this program is a register, so the first pass stops there. -/
theorem run_knows_labels_register : ∃ (file : SourceFile) (found : Layout),
    SourceFile.parse "base.asm" "START @main\nBASE X\n@main: LDA @main + X\n" = .ok file ∧
    discover.apply (.ofFiles [file]) = (.ok (), found) ∧
    (run.apply (.ofFiles [file])).1 = .error ⟨.nonStaticValue, some ⟨"base.asm", 2⟩⟩ ∧
    (∀ name, AsmError.nonStaticValue ≠ .unknownLabel name) ∧
    found.Reaches (run.apply (.ofFiles [file])).2 ∧
    found.expressions = [.register .x, .add (.label "main") (.register .x), .label "main"] ∧
    (Expr.register .x).Evaluates found.labels ∧
    (Expr.add (.label "main") (.register .x)).Evaluates found.labels ∧
    (Expr.label "main").Evaluates found.labels := by
  have ran : ∃ file,
      SourceFile.parse "base.asm" "START @main\nBASE X\n@main: LDA @main + X\n" = .ok file ∧
      (run.apply (.ofFiles [file])).1 = .error ⟨.nonStaticValue, some ⟨"base.asm", 2⟩⟩ ∧
      ∃ found, discover.apply (.ofFiles [file]) = (.ok (), found) ∧
        found.expressions = [.register .x, .add (.label "main") (.register .x), .label "main"] := by
    decide +kernel
  obtain ⟨file, parsed, failed, found, discovered, expressions⟩ := ran
  obtain ⟨known, later⟩ := run_knows_labels (.ofFiles [file])
  obtain ⟨reaches, evaluates⟩ := later found discovered
  have all := evaluates found .refl
  rw [expressions] at all
  exact ⟨file, found, parsed, discovered, failed, known _ failed, reaches, expressions,
    all _ (by simp), all _ (by simp), all _ (by simp)⟩

end Layout
end Micro65
