import Micro65.Proofs.Layout.Searches

set_option autoImplicit false

/-!
Failures of a layout. Nearly every failure comes from something that a line says by itself. Three do
not: only a search that has used up its passes reports that the layout diverges, only a pass by sizes
that a `DATA` line is out of range, and only the evaluation of an expression that a label is unknown.
-/

namespace Micro65

def AsmError.isDivergence : AsmError → Bool
  | .layoutDiverged _ => true
  | _ => false

def AsmError.isDataRange : AsmError → Bool
  | .dataOutOfRange _ _ => true
  | _ => false

def AsmError.isUnknownLabel : AsmError → Bool
  | .unknownLabel _ => true
  | _ => false

/-- The failures that a search may report. -/
def AsmError.ofSearch : AsmError → Bool
  | .layoutDiverged _ | .dataOutOfRange _ _ => true
  | _ => false

theorem AsmError.isDivergence_of_ofSearch {failure : AsmError} (plain : failure.ofSearch = false) :
    failure.isDivergence = false := by
  cases failure <;> first | rfl | contradiction

theorem AsmError.isDataRange_of_ofSearch {failure : AsmError} (plain : failure.ofSearch = false) :
    failure.isDataRange = false := by
  cases failure <;> first | rfl | contradiction

/-- Not a failure of a search, and not that a label is unknown unless it is missing. -/
structure AsmError.Plain (Missing : String → Prop) (failure : AsmError) : Prop where
  ordinary : failure.ofSearch = false
  missing : ∀ name, failure = .unknownLabel name → Missing name

theorem AsmError.plain_iff {Missing : String → Prop} {failure : AsmError} : failure.Plain Missing ↔
    failure.ofSearch = false ∧ ∀ name, failure = .unknownLabel name → Missing name :=
  ⟨fun plain => ⟨plain.ordinary, plain.missing⟩, fun plain => ⟨plain.1, plain.2⟩⟩

theorem AsmError.Plain.mono {Missing Missing' : String → Prop} {failure : AsmError}
    (plain : failure.Plain Missing) (more : ∀ name, Missing name → Missing' name) :
    failure.Plain Missing' :=
  ⟨plain.ordinary, fun name unknown => more name (plain.missing name unknown)⟩

/-- Where nothing is missing, a plain failure is not that a label is unknown. -/
theorem AsmError.Plain.known {Missing : String → Prop} {failure : AsmError}
    (plain : failure.Plain Missing) (complete : ∀ name, ¬Missing name) :
    failure.isUnknownLabel = false := by
  cases failure with
  | unknownLabel name => exact absurd (plain.missing name rfl) (complete name)
  | _ => rfl

theorem AsmError.ne_unknownLabel {failure : AsmError} (known : failure.isUnknownLabel = false)
    (name : String) : failure ≠ .unknownLabel name := by
  rintro rfl
  contradiction

/-- Failures other than these are plain, whatever is missing. -/
theorem AsmError.plain_of_other {Missing : String → Prop} {failure : AsmError}
    (ordinary : failure.ofSearch = false) (known : failure.isUnknownLabel = false) :
    failure.Plain Missing :=
  ⟨ordinary, fun name unknown => absurd unknown (ne_unknownLabel known name)⟩

/-- A computation with plain failures only. -/
def Plain {α : Type} (Missing : String → Prop) (result : Except AsmError α) : Prop :=
  ∀ failure, result = .error failure → failure.Plain Missing

section Computations

variable {α β : Type} {Missing Missing' : String → Prop}

@[simp] theorem plain_ok (value : α) : Plain Missing (.ok value : Except AsmError α) := by
  intro failure impossible
  contradiction

@[simp] theorem plain_error (failure : AsmError) :
    Plain Missing (.error failure : Except AsmError α) ↔ failure.Plain Missing := by
  simp [Plain]

@[simp] theorem plain_pure (value : α) : Plain Missing (pure value : Except AsmError α) :=
  plain_ok value

@[simp] theorem plain_throw (failure : AsmError) :
    Plain Missing (throw failure : Except AsmError α) ↔ failure.Plain Missing :=
  plain_error failure

theorem Plain.mono {result : Except AsmError α} (plain : Plain Missing result)
    (more : ∀ name, Missing name → Missing' name) : Plain Missing' result := by
  intro failure failed
  exact (plain failure failed).mono more

theorem Plain.bind {first : Except AsmError α} {next : α → Except AsmError β}
    (plain : Plain Missing first) (plainNext : ∀ value, Plain Missing (next value)) :
    Plain Missing (first >>= next) := by
  cases first with
  | error failure => exact (plain_error failure).2 ((plain_error failure).1 plain)
  | ok value => exact plainNext value

theorem Plain.locate {result : Except AsmError α} (plain : Plain Missing result) (position : Position)
    {failure : Diagnostic} (failed : locate position result = .error failure) :
    failure.error.Plain Missing := by
  cases result with
  | error error =>
    cases failed
    exact plain error rfl
  | ok value => contradiction

end Computations

/-! ### Operands -/

/-- A label that an expression mentions and the table does not have. -/
def Labels.Lacks (labels : Labels) (expr : Expr) (name : String) : Prop :=
  name ∈ expr.labels ∧ name ∉ labels.names

namespace Expr

/-- An evaluation that finds a label unknown misses it in the table. -/
theorem plain_range (labels : Labels) (expr : Expr) :
    Plain (labels.Lacks expr) (expr.range labels) := by
  induction expr with
  | literal value => exact plain_ok _
  | label name =>
    unfold range
    cases found : labels.get? name with
    | some range => exact plain_ok _
    | none =>
      refine (plain_error _).2 ⟨rfl, ?_⟩
      rintro _ ⟨⟩
      refine ⟨List.mem_singleton_self name, ?_⟩
      rw [← labels.isSome_get?_iff, found]
      exact Bool.false_ne_true
  | register which => simp [range, AsmError.plain_iff, AsmError.ofSearch]
  | indirect inner => simp [range, AsmError.plain_iff, AsmError.ofSearch]
  | address inner inductionHypothesis => exact inductionHypothesis
  | half side inner inductionHypothesis => exact inductionHypothesis.bind fun _ => plain_ok _
  | add left right leftHypothesis rightHypothesis | sub left right leftHypothesis rightHypothesis
  | mul left right leftHypothesis rightHypothesis =>
    refine (leftHypothesis.mono fun name lacks => ?_).bind fun _ =>
      (rightHypothesis.mono fun name lacks => ?_).bind fun _ => plain_ok _
    · exact ⟨List.mem_append_left _ lacks.1, lacks.2⟩
    · exact ⟨List.mem_append_right _ lacks.1, lacks.2⟩

/-! Modes are chosen by classes and intervals, so no label is missed in choosing them. -/

variable {Missing : String → Prop}

theorem plain_valueMode (expr : Expr) (range : Interval) : Plain Missing (expr.valueMode range) := by
  unfold valueMode
  split <;> simp [AsmError.plain_iff, AsmError.ofSearch]

theorem plain_addressMode (expr : Expr) (range : Interval) :
    Plain Missing (expr.addressMode range) := by
  unfold addressMode
  split
  · simp [AsmError.plain_iff, AsmError.ofSearch]
  · split <;> simp [AsmError.plain_iff, AsmError.ofSearch]

theorem plain_indexedMode (left right : Mode × Option Expr) :
    Plain Missing (indexedMode left right) := by
  have encoded : ∀ mode operand, Plain Missing (indexedMode.encoded mode operand) := by
    intro mode operand
    cases operand <;> simp [indexedMode.encoded, AsmError.plain_iff, AsmError.ofSearch]
  unfold indexedMode
  split
  case h_11 => simp [AsmError.plain_iff, AsmError.ofSearch]
  all_goals exact encoded _ _

theorem plain_indirectMode (inner : Mode × Option Expr) : Plain Missing (indirectMode inner) := by
  unfold indirectMode
  split <;> simp [AsmError.plain_iff, AsmError.ofSearch]

theorem plain_mode_of_compound {labels : Labels} {expr : Expr}
    (byShape : Plain Missing (expr.compoundMode labels)) : Plain Missing (expr.mode labels) := by
  rw [mode]
  split
  · exact expr.plain_valueMode _
  · exact expr.plain_addressMode _
  · exact plain_ok _
  · exact byShape.bind fun _ => plain_ok _

theorem plain_mode (labels : Labels) (expr : Expr) : Plain Missing (expr.mode labels) := by
  induction expr with
  | add left right leftHypothesis rightHypothesis =>
    refine plain_mode_of_compound ?_
    rw [compoundMode]
    exact leftHypothesis.bind fun _ => rightHypothesis.bind fun _ => plain_indexedMode _ _
  | indirect inner inductionHypothesis =>
    refine plain_mode_of_compound ?_
    rw [compoundMode]
    exact inductionHypothesis.bind fun _ => plain_indirectMode _
  | _ =>
    refine plain_mode_of_compound ?_
    simp [compoundMode, AsmError.plain_iff, AsmError.ofSearch]

end Expr

/-! ### Instructions -/

namespace Instruction

/-- The operand, and what of it is encoded. -/
def expressions (inst : Instruction) : List Expr := inst.operand.toList ++ inst.param.toList

/-- A label that an instruction mentions and the table does not have. -/
def Lacks (labels : Labels) (inst : Instruction) (name : String) : Prop :=
  ∃ expr ∈ inst.expressions, labels.Lacks expr name

variable (labels : Labels) (inst : Instruction)

theorem plain_operand {operand : Expr} (given : inst.operand = some operand) :
    Plain (inst.Lacks labels) (operand.range labels) :=
  (operand.plain_range labels).mono fun _ lacks =>
    ⟨operand, List.mem_append_left _ (Option.mem_toList.2 given), lacks⟩

section Resolution

variable {Missing : String → Prop}

theorem plain_resolveMode : Plain Missing (inst.resolveMode labels) := by
  unfold resolveMode
  split
  · exact plain_ok _
  · exact plain_ok _
  · exact plain_ok _
  next operand _ _ _ => exact (operand.plain_mode labels).bind fun _ => plain_ok _

theorem plain_resolveSize : Plain Missing inst.resolveSize := by
  unfold resolveSize
  split
  · exact plain_ok _
  · exact plain_ok _
  · split <;> simp [AsmError.plain_iff, AsmError.ofSearch]

theorem plain_resolveAddress : Plain Missing inst.resolveAddress := by
  unfold resolveAddress
  split
  · exact plain_ok _
  · simp [AsmError.plain_iff, AsmError.ofSearch]
  · split <;> simp [AsmError.plain_iff, AsmError.ofSearch]

theorem plain_valueBytes (value : Int) : Plain Missing (inst.valueBytes value) := by
  unfold valueBytes
  split
  · refine Plain.bind ?_ fun _ => plain_ok _
    unfold branchOffset
    dsimp only
    split <;> simp [AsmError.plain_iff, AsmError.ofSearch]
  · split
    · simp [AsmError.plain_iff, AsmError.ofSearch]
    · dsimp only
      split
      · exact plain_ok _
      · split <;> simp [AsmError.plain_iff, AsmError.ofSearch]

end Resolution

theorem plain_pointValue (expr : Expr) : Plain (labels.Lacks expr) (pointValue labels expr) := by
  refine (expr.plain_range labels).bind fun range => ?_
  split <;> simp [AsmError.plain_iff, AsmError.ofSearch]

theorem plain_encode : Plain (inst.Lacks labels) (inst.encode labels) := by
  have operandBytes : ∀ given : Option Expr, (∀ expr ∈ given, expr ∈ inst.expressions) →
      Plain (inst.Lacks labels) (encode.operandBytes labels inst given) := by
    intro given among
    cases given with
    | none => exact plain_ok _
    | some expr =>
      exact ((plain_pointValue labels expr).mono fun _ lacks => ⟨expr, among expr rfl, lacks⟩).bind
        fun _ => inst.plain_valueBytes _
  unfold encode
  split
  · exact plain_ok _
  · exact operandBytes _ fun _ given => List.mem_append_left _ (Option.mem_toList.2 given)
  · split
    · simp [AsmError.plain_iff, AsmError.ofSearch]
    · refine (operandBytes _ fun _ given => ?_).bind fun _ => plain_ok _
      exact List.mem_append_right _ (Option.mem_toList.2 given)

theorem plain_emit : Plain (inst.Lacks labels) (inst.emit labels) :=
  (inst.plain_encode labels).bind fun _ => plain_ok _

/-- Of the failures of a search, the size of a `DATA` line can report that it is out of range. -/
theorem dataSize_failed {failure : AsmError} (failed : inst.dataSize labels = .error failure) :
    failure.Plain (inst.Lacks labels) ∨ ∃ operand value, inst.operand = some operand ∧
      operand.range labels = .ok value ∧ value.within 0x0000 0xFFFF = false ∧
      failure = .dataOutOfRange value.lo value.hi := by
  unfold dataSize at failed
  split at failed
  · cases failed
    exact .inl (AsmError.plain_of_other rfl rfl)
  next operand given =>
    rcases evaluated : operand.range labels with cause | value
    · rw [evaluated] at failed
      cases failed
      exact .inl (inst.plain_operand labels given _ evaluated)
    · simp only [evaluated, bind, Except.bind] at failed
      split at failed
      · contradiction
      next outside =>
        cases failed
        exact .inr ⟨operand, value, given, evaluated, by simpa using outside, rfl⟩

end Instruction

/-! ### Passes and updates -/

variable {excluded : AsmError → Bool}

/-- No step fails with a failure that is excluded. -/
def Step.Avoids (excluded : AsmError → Bool) (step : Step) : Prop :=
  ∀ {walk walk' : Walk} {inst inst' : Instruction} {failure : Diagnostic},
    step walk inst = (walk', inst', some failure) → excluded failure.error = false

theorem Walk.base_plain {walk walk' : Walk} {inst inst' : Instruction} {failure : Diagnostic}
    (failed : walk.base inst = (walk', inst', some failure)) :
    failure.error.Plain (inst.Lacks walk.labels) := by
  unfold base at failed
  dsimp only at failed
  split at failed
  next error located =>
    cases failed
    refine Plain.locate ?_ inst.position located
    split
    next operand given => exact inst.plain_operand walk.labels given
    next => simp [AsmError.plain_iff, AsmError.ofSearch]
  next => simp at failed

/-- A failure of a pass by addresses comes from a `BASE` line. -/
theorem addressStep_failed {walk walk' : Walk} {inst inst' : Instruction} {failure : Diagnostic}
    (failed : addressStep walk inst = (walk', inst', some failure)) :
    failure.error.Plain (inst.Lacks walk.labels) := by
  unfold addressStep at failed
  split at failed
  · exact Walk.base_plain failed
  · simp at failed

theorem addressStep_plain : Step.Avoids AsmError.ofSearch addressStep := by
  intro walk walk' inst inst' failure failed
  exact (addressStep_failed failed).ordinary

/-- A failure of a pass by sizes comes from a `BASE` line or from the data of a `DATA` line. -/
theorem sizeStep_failed {walk walk' : Walk} {inst inst' : Instruction} {failure : Diagnostic}
    (failed : sizeStep walk inst = (walk', inst', some failure)) :
    failure.error.Plain (inst.Lacks walk.labels) ∨
      inst.kind = .data ∧ failure.position = some inst.position ∧
        inst.dataSize (walk.labels.stamp inst.label walk.cursor) = .error failure.error := by
  unfold sizeStep at failed
  split at failed
  · exact .inl (Walk.base_plain failed)
  next data =>
    simp only [Walk.place_snd, Walk.place_labels] at failed
    split at failed
    next located =>
      simp only [Prod.mk.injEq, Option.some.injEq] at failed
      obtain ⟨-, -, rfl⟩ := failed
      refine .inr ⟨data, ?_⟩
      change locate inst.position (inst.dataSize _) = _ at located
      rcases sized : inst.dataSize (walk.labels.stamp inst.label walk.cursor) with error | sizes
      · rw [sized] at located
        cases located
        exact ⟨rfl, rfl⟩
      · rw [sized] at located
        contradiction
    next => simp at failed
  · simp at failed

theorem sizeStep_decides : Step.Avoids AsmError.isDivergence sizeStep := by
  intro walk walk' inst inst' failure failed
  rcases sizeStep_failed failed with plain | ⟨-, -, sized⟩
  · exact AsmError.isDivergence_of_ofSearch plain.ordinary
  · rcases Instruction.dataSize_failed _ _ sized with plain | ⟨_, value, -, -, -, outside⟩
    · exact AsmError.isDivergence_of_ofSearch plain.ordinary
    · rw [outside]
      rfl

theorem Step.Avoids.sweep {step : Step} (avoids : step.Avoids excluded) {walk : Walk}
    {program : List Instruction} {failure : Diagnostic}
    (failed : (sweep step walk program).failure = some failure) :
    excluded failure.error = false := by
  induction program generalizing walk with
  | nil => contradiction
  | cons inst rest inductionHypothesis =>
    rw [Micro65.sweep] at failed
    split at failed
    next first =>
      cases failed
      exact avoids first
    next => exact inductionHypothesis failed

/-- An update fails at one of the instructions. -/
theorem updateAll_plain {update : Instruction → Except AsmError Instruction}
    {Missing : Instruction → String → Prop} (plain : ∀ inst, Plain (Missing inst) (update inst))
    {program : List Instruction} {failure : Diagnostic}
    (failed : (updateAll (fun inst => locate inst.position (update inst)) program).2 =
      some failure) :
    ∃ inst ∈ program, failure.error.Plain (Missing inst) := by
  induction program with
  | nil => contradiction
  | cons inst rest inductionHypothesis =>
    rw [updateAll] at failed
    split at failed
    next located =>
      cases failed
      exact ⟨inst, List.mem_cons_self, (plain inst).locate _ located⟩
    next =>
      obtain ⟨later, member, found⟩ := inductionHypothesis failed
      exact ⟨later, List.mem_cons_of_mem _ member, found⟩

/-! ### Stages -/

/-- A stage that fails on this layout with no failure that is excluded. -/
def Stage.Avoids {α : Type} (excluded : AsmError → Bool) (stage : Stage α) (layout : Layout) :
    Prop :=
  ∀ failure, (stage.apply layout).1 = .error failure → excluded failure.error = false

/-- A stage that does not report a divergence of this layout. -/
def Stage.Decides {α : Type} (stage : Stage α) (layout : Layout) : Prop :=
  stage.Avoids AsmError.isDivergence layout

namespace Stage

variable {α β : Type}

theorem Avoids.bind {stage : Stage α} {next : α → Stage β} {layout : Layout}
    (avoids : stage.Avoids excluded layout)
    (avoidsNext : ∀ value middle, stage.apply layout = (.ok value, middle) →
      (next value).Avoids excluded middle) : (stage >>= next).Avoids excluded layout := by
  intro failure failed
  rw [apply_bind] at failed
  rcases ran : stage.apply layout with ⟨error | value, middle⟩
  · rw [ran] at failed
    cases failed
    exact avoids _ (congrArg Prod.fst ran)
  · rw [ran] at failed
    exact avoidsNext value middle ran failure failed

theorem avoids_of_ok {stage : Stage α} {layout after : Layout} {value : α}
    (done : stage.apply layout = (.ok value, after)) : stage.Avoids excluded layout := by
  intro failure failed
  rw [done] at failed
  contradiction

end Stage

namespace Layout

variable (few : ∀ {failure : AsmError}, failure.ofSearch = false → excluded failure = false)
  (layout : Layout)

theorem avoids_stopAt {failure : Option Diagnostic}
    (avoided : ∀ cause, failure = some cause → excluded cause.error = false) :
    (stopAt failure).Avoids excluded layout := by
  cases failure with
  | none => exact Stage.avoids_of_ok (apply_stopAt_none layout)
  | some cause =>
    intro found failed
    rw [apply_stopAt_some] at failed
    cases failed
    exact avoided cause rfl

theorem collect_plain {Missing : String → Prop} {labels : Labels} {start : Option (Expr × Position)}
    {program : List Instruction} {failure : Diagnostic}
    (failed : (collect labels start program).failure = some failure) :
    failure.error.Plain Missing := by
  induction program generalizing labels start with
  | nil => contradiction
  | cons inst rest inductionHypothesis =>
    unfold collect at failed
    split at failed
    · exact inductionHypothesis failed
    · split at failed
      · exact inductionHypothesis failed
      · split at failed
        · cases failed
          exact AsmError.plain_of_other rfl rfl
        · exact inductionHypothesis failed

theorem undefined?_plain {Missing : String → Prop} {failure : Diagnostic}
    (missing : layout.undefined? = some failure) : failure.error.Plain Missing := by
  obtain ⟨⟨operand, position⟩, -, found⟩ := List.exists_of_findSome?_eq_some missing
  obtain ⟨name, -, rfl⟩ := Option.map_eq_some_iff.1 found
  exact AsmError.plain_of_other rfl rfl

/-- What discovery reports is plain, and no label is missed by an evaluation. -/
theorem avoids_discover
    (avoided : ∀ failure : AsmError, failure.Plain (fun _ => False) → excluded failure = false) :
    discover.Avoids excluded layout := by
  refine (Stage.avoids_of_ok (Stage.apply_get layout)).bind fun _ _ got => ?_
  refine (Stage.avoids_of_ok (Stage.apply_modify _ _)).bind fun _ middle _ => ?_
  refine (avoids_stopAt _ fun failure failed => ?_).bind fun _ middle _ => ?_
  · exact avoided failure.error (collect_plain failed)
  refine (Stage.avoids_of_ok (Stage.apply_get middle)).bind fun _ _ _ => ?_
  refine avoids_stopAt _ fun failure missing => ?_
  exact avoided failure.error (undefined?_plain _ missing)

theorem avoids_pass {step : Step} (avoids : step.Avoids excluded) :
    (pass step).Avoids excluded layout := by
  refine (Stage.avoids_of_ok (Stage.apply_get layout)).bind fun _ _ _ => ?_
  refine (Stage.avoids_of_ok (Stage.apply_set _ _)).bind fun _ middle _ => ?_
  refine (avoids_stopAt _ fun _ => avoids.sweep).bind fun _ middle _ => ?_
  exact (Stage.avoids_of_ok (Stage.apply_modify _ _)).bind fun _ _ _ =>
    Stage.avoids_of_ok (Stage.apply_pure _ _)

include few in
theorem avoids_updateProgram {update : Labels → Instruction → Except AsmError Instruction}
    (plain : ∀ labels inst, Plain (inst.Lacks labels) (update labels inst)) :
    (updateProgram update).Avoids excluded layout := by
  refine (Stage.avoids_of_ok (Stage.apply_get layout)).bind fun current _ _ => ?_
  refine (Stage.avoids_of_ok (Stage.apply_set _ _)).bind fun _ middle _ => ?_
  refine avoids_stopAt _ fun _ failed => ?_
  obtain ⟨inst, -, failed⟩ := updateAll_plain (plain current.labels) failed
  exact few failed.ordinary

theorem startAddress_plain {failure : Diagnostic} (failed : layout.startAddress = .error failure) :
    failure.error.Plain fun name =>
      ∃ given ∈ layout.start, layout.labels.Lacks given.1 name := by
  unfold startAddress at failed
  split at failed
  · cases failed
    exact AsmError.plain_of_other rfl rfl
  next operand position given =>
    refine Plain.locate ?_ position failed
    refine ((operand.plain_range layout.labels).mono fun _ lacks => ⟨_, given, lacks⟩).bind
      fun range => ?_
    split
    · split <;> simp [AsmError.plain_iff, AsmError.ofSearch]
    · simp [AsmError.plain_iff, AsmError.ofSearch]

theorem avoids_repeatPass {step : Step} (avoids : step.Avoids excluded)
    (late : ∀ limit, excluded (.layoutDiverged limit) = false) (limit remaining : Nat) :
    (repeatPass step limit remaining).Avoids excluded layout := by
  induction remaining generalizing layout with
  | zero =>
    intro failure failed
    cases failed
    exact late limit
  | succ remaining inductionHypothesis =>
    rw [repeatPass]
    refine (avoids_pass layout avoids).bind fun changed middle _ => ?_
    cases changed with
    | true => exact inductionHypothesis middle
    | false => exact Stage.avoids_of_ok (Stage.apply_pure _ _)

theorem avoids_fixpoint {step : Step} (avoids : step.Avoids excluded)
    (late : ∀ limit, excluded (.layoutDiverged limit) = false) :
    (fixpoint step).Avoids excluded layout :=
  (Stage.avoids_of_ok (Stage.apply_get layout)).bind fun _ middle _ =>
    avoids_repeatPass middle avoids late _ _

/-! ### The whole run -/

include few in
theorem avoids_measure
    (addresses : ∀ found, discover.apply layout = (.ok (), found) →
      (fixpoint addressStep).Avoids excluded found) : measure.Avoids excluded layout := by
  refine (avoids_discover layout fun _ plain => few plain.ordinary).bind fun _ found discovered => ?_
  refine (addresses found discovered).bind fun _ _ _ => ?_
  refine (Stage.avoids_of_ok (Stage.apply_modify _ _)).bind fun _ _ _ => ?_
  refine (avoids_updateProgram few _ fun labels inst => ?_).bind fun _ _ _ => ?_
  · exact inst.plain_resolveMode labels
  · exact avoids_updateProgram few _ fun _ inst => inst.plain_resolveSize

include few in
/-- After the search for sizes nothing fails as a search does. -/
theorem avoids_finish (sizePasses : Nat) :
    Stage.Avoids excluded (do
      modify fun layout => { layout with sizePasses }
      updateProgram fun _ => Instruction.resolveAddress
      updateProgram Instruction.emit
      (← get).startAddress) layout := by
  refine (Stage.avoids_of_ok (Stage.apply_modify _ _)).bind fun _ _ _ => ?_
  refine (avoids_updateProgram few _ fun _ inst => inst.plain_resolveAddress).bind fun _ _ _ => ?_
  refine (avoids_updateProgram few _ fun labels inst => inst.plain_emit labels).bind fun _ _ _ => ?_
  refine (Stage.avoids_of_ok (Stage.apply_get _)).bind fun value _ _ => ?_
  intro failure failed
  rw [Stage.apply_liftM] at failed
  exact few (value.startAddress_plain failed).ordinary

include few in
/-- A run fails as a search does only in one of its searches. -/
theorem run_avoids
    (addresses : ∀ found, discover.apply layout = (.ok (), found) →
      (fixpoint addressStep).Avoids excluded found)
    (sizes : ∀ measured, measure.apply layout = (.ok (), measured) →
      (fixpoint sizeStep).Avoids excluded measured) : run.Avoids excluded layout := by
  rw [run_eq_measure]
  refine (avoids_measure few layout addresses).bind fun _ measured done => ?_
  exact (sizes measured done).bind fun sizePasses after _ => avoids_finish few after sizePasses

end Layout
end Micro65
