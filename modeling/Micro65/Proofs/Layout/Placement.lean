import Micro65.Proofs.Layout.Passes

set_option autoImplicit false

/-!
Programs at rest. A program is placed under a table if every instruction stands where the walk down to
it arrives, and every label where its instruction stands. A pass reports no change exactly on a
placed program; then it has in fact changed nothing, although it writes the table while it runs.
-/

namespace Micro65

/-- A program that a walk with the cursor at `cursor` finds in its place. -/
inductive Placed (labels : Labels) : Interval → List Instruction → Prop where
  | nil {cursor} : Placed labels cursor []
  | base {cursor inst operand rest} :
      inst.kind = .base → inst.operand = some operand →
      operand.range labels = .ok inst.addressRange → Placed labels inst.addressRange rest →
      Placed labels cursor (inst :: rest)
  | placed {inst rest} :
      inst.kind ≠ .base →
      (∀ name, inst.label = some name → labels.get? name = some inst.addressRange) →
      Placed labels (inst.addressRange + inst.sizeRange) rest →
      Placed labels inst.addressRange (inst :: rest)

theorem Placed.labelled {labels : Labels} {cursor : Interval} {program : List Instruction}
    (placed : Placed labels cursor program) :
    ∀ inst ∈ program, inst.kind ≠ .base → ∀ name, inst.label = some name →
      labels.get? name = some inst.addressRange := by
  induction placed with
  | nil => simp
  | base kind _ _ _ inductionHypothesis =>
    exact List.forall_mem_cons.2 ⟨fun notBase => absurd kind notBase, inductionHypothesis⟩
  | placed _ labelled _ inductionHypothesis =>
    exact List.forall_mem_cons.2 ⟨fun _ => labelled, inductionHypothesis⟩

/-- The size of an instruction is the one that its range of sizes says. -/
def Instruction.Sized (inst : Instruction) : Prop :=
  match inst.kind with
  | .base => True
  | .data => inst.sizeRange.isPoint = true → inst.size = inst.sizeRange.lo.toNat
  | _ => inst.sizeRange = .point inst.size

theorem Instruction.Sized.dataBytes {inst : Instruction} (sized : inst.Sized)
    (kind : inst.kind = .data) : inst.dataBytes inst.sizeRange = inst.size := by
  unfold Instruction.dataBytes
  simp only [Sized, kind] at sized
  split
  next point => exact (sized point).symm
  next => rfl

theorem Instruction.Sized.width {inst : Instruction} (sized : inst.Sized)
    (notBase : inst.kind ≠ .base) (notData : inst.kind ≠ .data) :
    inst.sizeRange = .point inst.size := by
  unfold Sized at sized
  split at sized
  · contradiction
  · contradiction
  · exact sized

/-- A `DATA` line has the sizes that its operand needs. -/
def Instruction.Fits (labels : Labels) (inst : Instruction) : Prop :=
  inst.kind = .data → inst.dataSize labels = .ok inst.sizeRange

/-- The label of an instruction is one of the names. -/
def Instruction.Named (names : List String) (inst : Instruction) : Prop :=
  ∀ name, inst.label = some name → name ∈ names

namespace Walk

variable {walk walk' : Walk} {inst inst' : Instruction}

theorem Rebases.unchanged (rebases : walk.Rebases inst walk' inst')
    (unchanged : walk'.changed = false) :
    walk.changed = false ∧ walk'.labels = walk.labels ∧ inst' = inst ∧
      ∀ {rest}, Placed walk.labels walk'.cursor rest →
        Placed walk.labels walk.cursor (inst :: rest) := by
  obtain ⟨kind, operand, range, given, evaluated, rfl, rfl⟩ := rebases
  simp only [Bool.or_eq_false_iff, bne_eq_false_iff_eq] at unchanged
  obtain ⟨before, same⟩ := unchanged
  subst same
  exact ⟨before, rfl, rfl, fun placed => .base kind given evaluated placed⟩

/-- Where nothing moves, each label has been where the cursor is. -/
theorem place_unchanged (distinct : walk.labels.Distinct) (named : inst.Named walk.labels.names)
    (unchanged : (walk.place inst).1.changed = false) :
    walk.changed = false ∧ (walk.place inst).1.labels = walk.labels ∧
      inst.addressRange = walk.cursor ∧
      ∀ name, inst.label = some name → walk.labels.get? name = some inst.addressRange := by
  obtain ⟨before, same, stamped⟩ := (walk.place_changed_eq_false_iff inst).1 unchanged
  have labelled : ∀ name, inst.label = some name →
      walk.labels.get? name = some inst.addressRange := by
    intro name label
    have known := (walk.labels.isSome_get?_iff name).2 (named name label)
    obtain ⟨held, found⟩ := Option.isSome_iff_exists.1 known
    rw [found, stamped name label held found, same]
  refine ⟨before, ?_, same, labelled⟩
  rw [place_labels]
  unfold Labels.stamp
  split
  next => rfl
  next name label => exact Labels.set_eq_self distinct (same ▸ labelled name label)

/-- Where cursor, instruction and label agree, a placement does nothing. -/
theorem place_eq_self (walk : Walk) (distinct : walk.labels.Distinct)
    (same : inst.addressRange = walk.cursor) (labelled : ∀ name, inst.label = some name →
      walk.labels.get? name = some inst.addressRange) :
    walk.place inst = (walk, inst) := by
  obtain ⟨labels, cursor, changed⟩ := walk
  dsimp only at distinct same labelled
  subst same
  unfold place
  split
  next => simp [mark]
  next name label =>
    have found := labelled name label
    have still : labels.differs name inst.addressRange = false :=
      (labels.differs_eq_false_iff name inst.addressRange).2 fun held other => by
        rw [found, Option.some.injEq] at other
        exact other.symm
    simp [mark, still, Labels.set_eq_self distinct found]

end Walk

variable {walk walk' : Walk} {inst inst' : Instruction}

theorem addressStep_unchanged (distinct : walk.labels.Distinct)
    (named : inst.Named walk.labels.names) (done : addressStep walk inst = (walk', inst', none))
    (unchanged : walk'.changed = false) :
    walk.changed = false ∧ walk'.labels = walk.labels ∧ inst' = inst ∧
      ∀ {rest}, Placed walk.labels walk'.cursor rest →
        Placed walk.labels walk.cursor (inst :: rest) := by
  rcases addressStep_cases done with rebases | ⟨kind, rfl, rfl⟩
  · exact rebases.unchanged unchanged
  · obtain ⟨before, still, same, labelled⟩ := Walk.place_unchanged distinct named unchanged
    refine ⟨before, still, by rw [← same], ?_⟩
    intro rest placed
    rw [← same]
    refine .placed kind labelled ?_
    simpa [Walk.advance, same] using placed

theorem sizeStep_unchanged (distinct : walk.labels.Distinct)
    (named : inst.Named walk.labels.names) (sized : inst.Sized)
    (done : sizeStep walk inst = (walk', inst', none)) (unchanged : walk'.changed = false) :
    walk.changed = false ∧ walk'.labels = walk.labels ∧ inst' = inst ∧ inst.Fits walk.labels ∧
      ∀ {rest}, Placed walk.labels walk'.cursor rest →
        Placed walk.labels walk.cursor (inst :: rest) := by
  rcases sizeStep_cases done with rebases | ⟨kind, sizeRange, found, rfl, rfl⟩ |
    ⟨notBase, notData, rfl, rfl⟩
  · obtain ⟨before, still, same, placed⟩ := rebases.unchanged unchanged
    refine ⟨before, still, same, ?_, placed⟩
    intro data
    obtain ⟨base, -⟩ := rebases
    rw [base] at data
    contradiction
  · simp only [Walk.advance, Walk.mark, Bool.or_eq_false_iff, bne_eq_false_iff_eq] at unchanged
    obtain ⟨unchanged, rfl⟩ := unchanged
    obtain ⟨before, still, same, labelled⟩ := Walk.place_unchanged distinct named unchanged
    rw [← Walk.place_labels, still] at found
    refine ⟨before, still, by rw [sized.dataBytes kind, ← same], fun _ => found, ?_⟩
    intro rest placed
    rw [← same]
    refine .placed (by simp [kind]) labelled ?_
    simpa [Walk.advance, Walk.mark, same] using placed
  · obtain ⟨before, still, same, labelled⟩ := Walk.place_unchanged distinct named unchanged
    refine ⟨before, still, by rw [← same], fun data => absurd data notData, ?_⟩
    intro rest placed
    rw [← same]
    refine .placed notBase labelled ?_
    simpa [Walk.advance, sized.width notBase notData, same] using placed

theorem Walk.Rebases.changed (rebases : walk.Rebases inst walk' inst')
    (unchanged : walk'.changed = false) : walk.changed = false :=
  (rebases.unchanged unchanged).1

theorem addressStep_changed (done : addressStep walk inst = (walk', inst', none))
    (unchanged : walk'.changed = false) : walk.changed = false := by
  rcases addressStep_cases done with rebases | ⟨-, rfl, -⟩
  · exact rebases.changed unchanged
  · exact ((walk.place_changed_eq_false_iff inst).1 unchanged).1

theorem sizeStep_changed (done : sizeStep walk inst = (walk', inst', none))
    (unchanged : walk'.changed = false) : walk.changed = false := by
  rcases sizeStep_cases done with rebases | ⟨-, sizeRange, -, rfl, -⟩ | ⟨-, -, rfl, -⟩
  · exact rebases.changed unchanged
  · simp only [Walk.advance, Walk.mark, Bool.or_eq_false_iff] at unchanged
    exact ((walk.place_changed_eq_false_iff inst).1 unchanged.1).1
  · exact ((walk.place_changed_eq_false_iff inst).1 unchanged).1

/-- A change that has been noticed is not forgotten. -/
theorem Sweeps.changed {step : Step} {program program' : List Instruction}
    (keep : ∀ {walk walk' inst inst'}, step walk inst = (walk', inst', none) →
      walk'.changed = false → walk.changed = false)
    (swept : Sweeps step walk program walk' program') (unchanged : walk'.changed = false) :
    walk.changed = false := by
  induction swept with
  | nil => exact unchanged
  | cons first _ inductionHypothesis => exact keep first (inductionHypothesis unchanged)

theorem addressPass_unchanged {program program' : List Instruction}
    (distinct : walk.labels.Distinct) (named : ∀ inst ∈ program, inst.Named walk.labels.names)
    (swept : Sweeps addressStep walk program walk' program') (unchanged : walk'.changed = false) :
    walk'.labels = walk.labels ∧ program' = program ∧ Placed walk.labels walk.cursor program := by
  induction swept with
  | nil => exact ⟨rfl, rfl, .nil⟩
  | cons first rest inductionHypothesis =>
    rw [List.forall_mem_cons] at named
    obtain ⟨-, still, rfl, place⟩ := addressStep_unchanged distinct named.1 first
      (rest.changed addressStep_changed unchanged)
    obtain ⟨labels, rfl, placed⟩ := inductionHypothesis (still ▸ distinct) (still ▸ named.2) unchanged
    exact ⟨labels.trans still, rfl, place (still ▸ placed)⟩

theorem sizePass_unchanged {program program' : List Instruction}
    (distinct : walk.labels.Distinct) (named : ∀ inst ∈ program, inst.Named walk.labels.names)
    (sized : ∀ inst ∈ program, inst.Sized) (swept : Sweeps sizeStep walk program walk' program')
    (unchanged : walk'.changed = false) :
    walk'.labels = walk.labels ∧ program' = program ∧ Placed walk.labels walk.cursor program ∧
      ∀ inst ∈ program, inst.Fits walk.labels := by
  induction swept with
  | nil => exact ⟨rfl, rfl, .nil, by simp⟩
  | cons first rest inductionHypothesis =>
    rw [List.forall_mem_cons] at named sized
    obtain ⟨-, still, rfl, fits, place⟩ := sizeStep_unchanged distinct named.1 sized.1 first
      (rest.changed sizeStep_changed unchanged)
    obtain ⟨labels, rfl, placed, fitsRest⟩ :=
      inductionHypothesis (still ▸ distinct) (still ▸ named.2) sized.2 unchanged
    refine ⟨labels.trans still, rfl, place (still ▸ placed), ?_⟩
    exact List.forall_mem_cons.2 ⟨fits, still ▸ fitsRest⟩

section AtRest

variable {labels : Labels} {cursor : Interval} {program : List Instruction}

theorem Walk.base_eq_self {operand : Expr} (kind : inst.kind = .base)
    (given : inst.operand = some operand)
    (evaluated : operand.range labels = .ok inst.addressRange) :
    (⟨labels, cursor, false⟩ : Walk).base inst = (⟨labels, inst.addressRange, false⟩, inst, none) :=
  (Walk.base_eq_iff _ _ _ _ kind).2
    ⟨kind, operand, inst.addressRange, given, evaluated, by simp, rfl⟩

theorem Placed.addressPass (distinct : labels.Distinct) (placed : Placed labels cursor program) :
    ∃ cursor',
      Sweeps addressStep ⟨labels, cursor, false⟩ program ⟨labels, cursor', false⟩ program := by
  induction placed with
  | nil => exact ⟨_, .nil⟩
  | base kind given evaluated _ inductionHypothesis =>
    obtain ⟨cursor', swept⟩ := inductionHypothesis
    refine ⟨cursor', .cons ?_ swept⟩
    simp only [addressStep, kind]
    exact Walk.base_eq_self kind given evaluated
  | @placed inst rest kind labelled _ inductionHypothesis =>
    obtain ⟨cursor', swept⟩ := inductionHypothesis
    refine ⟨cursor', .cons ?_ swept⟩
    have still := Walk.place_eq_self ⟨labels, inst.addressRange, false⟩ distinct rfl labelled
    unfold addressStep
    split
    · contradiction
    · rw [still]
      rfl

theorem Placed.sizePass (distinct : labels.Distinct) (placed : Placed labels cursor program)
    (sized : ∀ inst ∈ program, inst.Sized) (fits : ∀ inst ∈ program, inst.Fits labels) :
    ∃ cursor', Sweeps sizeStep ⟨labels, cursor, false⟩ program ⟨labels, cursor', false⟩ program := by
  induction placed with
  | nil => exact ⟨_, .nil⟩
  | base kind given evaluated _ inductionHypothesis =>
    rw [List.forall_mem_cons] at sized fits
    obtain ⟨cursor', swept⟩ := inductionHypothesis sized.2 fits.2
    refine ⟨cursor', .cons ?_ swept⟩
    simp only [sizeStep, kind]
    exact Walk.base_eq_self kind given evaluated
  | @placed inst rest kind labelled _ inductionHypothesis =>
    rw [List.forall_mem_cons] at sized fits
    obtain ⟨cursor', swept⟩ := inductionHypothesis sized.2 fits.2
    refine ⟨cursor', .cons ?_ swept⟩
    have still := Walk.place_eq_self ⟨labels, inst.addressRange, false⟩ distinct rfl labelled
    unfold sizeStep
    split
    · contradiction
    next data =>
      have size := sized.1.dataBytes data
      unfold Instruction.dataBytes at size
      simp [still, fits.1 data, locate, size, Walk.mark, Walk.advance]
    next notBase notData =>
      simp [still, ← sized.1.width notBase notData, Walk.advance]

end AtRest

end Micro65
