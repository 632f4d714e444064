import Micro65.Proofs.Labels.Tables
import Micro65.Proofs.Layout.Placement
import Micro65.Proofs.Layout.Stage

set_option autoImplicit false

/-!
What discovery finds. A program from which labels and start have been collected is left without its
`START` lines; the last of these is the start, and every label that remains is in the table once.
-/

namespace Micro65

namespace Labels

theorem names_push (labels : Labels) (label : Label) :
    (labels.push label).names = labels.names ++ [label.name] := by
  simp [names, push]

theorem get?_push (labels : Labels) (label : Label) (name : String) :
    (labels.push label).get? name =
      (labels.get? name).or (if label.name = name then some label.range else none) := by
  simp only [get?, find?, push, List.find?_append, List.find?_cons, List.find?_nil]
  cases labels.toList.find? (·.name == name) with
  | none =>
    by_cases same : label.name = name
    · simp [same]
    · simp [same, beq_eq_false_iff_ne.2 same]
  | some held => simp

/-- A registration that does not fail puts a new name at the end of the table. -/
theorem insert_eq_none_iff (labels labels' : Labels) (name : String) (position : Position) :
    labels.insert name position = (labels', none) ↔
      name ∉ labels.names ∧ labels' = labels.push ⟨name, position, .unknown⟩ := by
  rw [← isSome_get?_iff]
  unfold insert position? get?
  cases labels.find? name with
  | none => simp [eq_comm]
  | some held => simp

theorem Distinct.push {labels : Labels} (distinct : labels.Distinct) {label : Label}
    (new : label.name ∉ labels.names) : (labels.push label).Distinct := by
  unfold Distinct
  rw [names_push]
  refine List.nodup_append.2 ⟨distinct, by simp, ?_⟩
  intro name held other last same
  rw [List.mem_singleton] at last
  exact new (last ▸ same ▸ held)

/-- Nothing is known yet of any label. -/
def Unknown (labels : Labels) : Prop :=
  ∀ name range, labels.get? name = some range → range = .unknown

theorem Unknown.proper {labels : Labels} (unknown : labels.Unknown) : labels.Proper := by
  intro name range found
  rw [unknown name range found]
  exact Interval.proper_unknown

theorem Unknown.push {labels : Labels} (unknown : labels.Unknown) (name : String)
    (position : Position) : (labels.push ⟨name, position, .unknown⟩).Unknown := by
  intro other range found
  rw [get?_push, Option.or_eq_some_iff] at found
  rcases found with found | ⟨-, found⟩
  · exact unknown other range found
  · split at found
    · exact (Option.some.inj found).symm
    · contradiction

/-- The table after the label of an instruction has been registered, if it has one. -/
def Registers (labels : Labels) (inst : Instruction) (labels' : Labels) : Prop :=
  match inst.label with
  | none => labels' = labels
  | some name => labels.insert name inst.position = (labels', none)

namespace Registers

variable {labels labels' : Labels} {inst : Instruction}

theorem distinct (registers : labels.Registers inst labels') (distinct : labels.Distinct) :
    labels'.Distinct := by
  unfold Registers at registers
  split at registers
  · exact registers ▸ distinct
  · obtain ⟨new, rfl⟩ := (insert_eq_none_iff _ _ _ _).1 registers
    exact distinct.push new

theorem unknown (registers : labels.Registers inst labels') (unknown : labels.Unknown) :
    labels'.Unknown := by
  unfold Registers at registers
  split at registers
  · exact registers ▸ unknown
  · obtain ⟨-, rfl⟩ := (insert_eq_none_iff _ _ _ _).1 registers
    exact unknown.push _ _

theorem names (registers : labels.Registers inst labels') :
    labels'.names = labels.names ++ inst.label.toList := by
  unfold Registers at registers
  split at registers
  next unlabelled => rw [registers, unlabelled, Option.toList_none, List.append_nil]
  next name labelled =>
    obtain ⟨-, rfl⟩ := (insert_eq_none_iff _ _ _ _).1 registers
    rw [names_push, labelled, Option.toList_some]

end Registers
end Labels

/-- Operand and position of a `START` line. -/
def Instruction.start? (inst : Instruction) : Option (Expr × Position) :=
  if inst.kind = .start then inst.operand.map fun operand => (operand, inst.position) else none

namespace Layout

variable {labels labels' : Labels} {start start' : Option (Expr × Position)} {inst : Instruction}
  {program program' : List Instruction}

theorem collect_cons_cases
    (found : collect labels start (inst :: program) = ⟨(labels', start'), program', none⟩) :
    (inst.kind = .start ∧
      collect labels (inst.start?.or start) program = ⟨(labels', start'), program', none⟩) ∨
    (inst.kind ≠ .start ∧ ∃ middle rest, labels.Registers inst middle ∧
      collect middle start program = ⟨(labels', start'), rest, none⟩ ∧
      program' = unplaced inst :: rest) := by
  unfold collect at found
  split at found
  next kind =>
    refine .inl ⟨kind, ?_⟩
    rw [← found, Instruction.start?, if_pos kind]
    cases inst.operand <;> rfl
  next kind =>
    refine .inr ⟨kind, ?_⟩
    have kept : ∀ {middle : Labels},
        collect.keep inst (collect middle start program) = ⟨(labels', start'), program', none⟩ →
        ∃ rest, collect middle start program = ⟨(labels', start'), rest, none⟩ ∧
          program' = unplaced inst :: rest := by
      intro middle keeps
      rcases collected : collect middle start program with ⟨state, rest, failure⟩
      rw [collected] at keeps
      simp only [collect.keep, Swept.mk.injEq] at keeps
      obtain ⟨rfl, rfl, rfl⟩ := keeps
      exact ⟨rest, rfl, rfl⟩
    split at found
    next unlabelled =>
      obtain ⟨rest, collected, rfl⟩ := kept found
      exact ⟨labels, rest, by simp [Labels.Registers, unlabelled], collected, rfl⟩
    next name labelled =>
      split at found
      · cases found
      next middle registered =>
        obtain ⟨rest, collected, rfl⟩ := kept found
        exact ⟨middle, rest, by simpa [Labels.Registers, labelled] using registered, collected, rfl⟩

theorem collect_program
    (found : collect labels start program = ⟨(labels', start'), program', none⟩) :
    program' = (program.filter (·.kind ≠ .start)).map unplaced := by
  induction program generalizing labels start program' with
  | nil =>
    cases found
    rfl
  | cons inst program inductionHypothesis =>
    rcases collect_cons_cases found with ⟨kind, collected⟩ | ⟨kind, middle, rest, -, collected, rfl⟩
    · simpa [kind] using inductionHypothesis collected
    · simpa [kind] using inductionHypothesis collected

theorem collect_start (found : collect labels start program = ⟨(labels', start'), program', none⟩) :
    start' = (program.filterMap Instruction.start?).getLast?.or start := by
  induction program generalizing labels start program' with
  | nil =>
    cases found
    rfl
  | cons inst program inductionHypothesis =>
    rcases collect_cons_cases found with ⟨-, collected⟩ | ⟨kind, middle, rest, -, collected, -⟩
    · rw [inductionHypothesis collected, List.filterMap_cons]
      cases inst.start? with
      | none => rfl
      | some given =>
        simp only [List.getLast?_cons, Option.some_or]
        cases (program.filterMap Instruction.start?).getLast? <;> rfl
    · rw [inductionHypothesis collected, List.filterMap_cons_none]
      simp [Instruction.start?, kind]

theorem collect_labels (found : collect labels start program = ⟨(labels', start'), program', none⟩)
    (distinct : labels.Distinct) (unknown : labels.Unknown) :
    labels'.Distinct ∧ labels'.Unknown ∧
      labels'.names = labels.names ++ program'.filterMap Instruction.label := by
  induction program generalizing labels start program' with
  | nil =>
    cases found
    exact ⟨distinct, unknown, by simp⟩
  | cons inst program inductionHypothesis =>
    rcases collect_cons_cases found with ⟨-, collected⟩ |
      ⟨-, middle, rest, registers, collected, rfl⟩
    · exact inductionHypothesis collected distinct unknown
    · obtain ⟨distinct', unknown', names⟩ :=
        inductionHypothesis collected (registers.distinct distinct) (registers.unknown unknown)
      refine ⟨distinct', unknown', ?_⟩
      have own : (unplaced inst).label = inst.label := rfl
      rw [names, registers.names, List.append_assoc, List.filterMap_cons, own]
      cases inst.label <;> rfl

/-- What is known of a layout whose labels and start have been collected. -/
structure Discovered (before after : Layout) : Prop where
  program : after.program = (before.program.filter (·.kind ≠ .start)).map unplaced
  start : after.start = (before.program.filterMap Instruction.start?).getLast?
  distinct : after.labels.Distinct
  unknown : after.labels.Unknown
  /-- The table has the labels of the program and no others. -/
  names : after.labels.names = after.program.filterMap Instruction.label

theorem Discovered.named {before after : Layout} (discovered : before.Discovered after) :
    ∀ inst ∈ after.program, inst.Named after.labels.names := by
  intro inst member name labelled
  rw [discovered.names]
  exact List.mem_filterMap.2 ⟨inst, member, labelled⟩

theorem discover_discovered {layout after : Layout} {answer : Unit}
    (done : discover.apply layout = (.ok answer, after)) : layout.Discovered after := by
  simp only [discover, Stage.apply_bind, Stage.apply_get, Stage.apply_modify] at done
  rcases found : collect .empty none layout.program with ⟨⟨labels, start⟩, program, _ | failure⟩
  · rw [found] at done
    simp only [apply_stopAt_none] at done
    have same : { layout with program, labels, start } = after := by
      generalize undefined? _ = missing at done
      cases missing with
      | none => exact (Prod.mk.inj done).2
      | some failure => exact absurd (Prod.mk.inj done).1 (by simp)
    subst same
    obtain ⟨distinct, unknown, names⟩ := collect_labels found List.nodup_nil
      (by simp [Labels.Unknown, Labels.get?, Labels.find?, Labels.empty])
    refine ⟨collect_program found, ?_, distinct, unknown, names⟩
    simpa using collect_start found
  · rw [found] at done
    simp at done

/-- Nothing is undefined if every label that is mentioned is in the table. -/
theorem undefined?_eq_none_iff (layout : Layout) :
    layout.undefined? = none ↔
      ∀ operand ∈ layout.operands, ∀ name ∈ operand.1.labels, name ∈ layout.labels.names := by
  have known : ∀ name, layout.labels.contains name = true ↔ name ∈ layout.labels.names := by
    intro name
    rw [← Labels.isSome_get?_iff, Labels.get?, Option.isSome_map]
    rfl
  simp only [undefined?, List.findSome?_eq_none_iff, Option.map_eq_none_iff, List.find?_eq_none,
    Bool.not_eq_true', Bool.not_eq_false, known]

/-- Every label that is mentioned after discovery is in the table. -/
theorem discover_defined {layout after : Layout} {answer : Unit}
    (done : discover.apply layout = (.ok answer, after)) :
    ∀ operand ∈ after.operands, ∀ name ∈ operand.1.labels, name ∈ after.labels.names := by
  rw [← undefined?_eq_none_iff]
  simp only [discover, Stage.apply_bind, Stage.apply_get, Stage.apply_modify] at done
  generalize collect .empty none layout.program = found at done
  cases failed : found.failure with
  | some failure => simp [failed] at done
  | none =>
    simp only [failed, apply_stopAt_none] at done
    generalize Layout.mk _ _ _ _ _ _ _ = collected at done
    cases missing : collected.undefined? with
    | some failure => simp [missing] at done
    | none =>
      simp only [missing, apply_stopAt_none, Prod.mk.injEq] at done
      rw [← done.2]
      exact missing

end Layout
end Micro65
