import Micro65.Proofs.Layout.Narrowing
import Micro65.Proofs.Layout.Placement

set_option autoImplicit false

/-!
What a pass writes into the table. It stamps the labels in front of instructions that take up an
address, each of them once, and no others. So where the `BASE` lines do not depend on the table, one
pass puts the whole program in its place.
-/

namespace Micro65

/-- The step moves the cursor in the way of the passes, and changes no code. -/
def Step.Walks (step : Step) : Prop :=
  ∀ {walk walk' : Walk} {inst inst' : Instruction}, step walk inst = (walk', inst', none) →
    (∃ width, walk.Moves inst width walk' inst') ∧ inst'.SameCode inst

/-- The step moves the cursor by the sizes that it leaves. -/
def Step.Strides (step : Step) (Allowed : Instruction → Prop) : Prop :=
  ∀ {walk walk' : Walk} {inst inst' : Instruction}, Allowed inst →
    step walk inst = (walk', inst', none) → walk.Moves inst inst'.sizeRange walk' inst'

theorem addressStep_walks : Step.Walks addressStep := by
  intro walk walk' inst inst' done
  refine ⟨⟨_, addressStep_moves done⟩, ?_⟩
  rw [addressStep_moved done]
  exact ⟨rfl, rfl, rfl⟩

theorem sizeStep_walks : Step.Walks sizeStep := by
  intro walk walk' inst inst' done
  obtain ⟨width, moves, -⟩ := sizeStep_moves done
  refine ⟨⟨width, moves⟩, ?_⟩
  rw [(sizeStep_moved done).rest]
  exact ⟨rfl, rfl, rfl⟩

theorem addressStep_strides : Step.Strides addressStep fun _ => True := by
  intro walk walk' inst inst' _ done
  have sizes : inst'.sizeRange = inst.sizeRange := by rw [addressStep_moved done]
  rw [sizes]
  exact addressStep_moves done

theorem sizeStep_strides : Step.Strides sizeStep Instruction.Sized := by
  intro walk walk' inst inst' sized done
  obtain ⟨width, moves, data, exactly⟩ := sizeStep_moves done
  rcases moves with rebases | ⟨notBase, moves⟩
  · exact .inl rebases
  · have width : width = inst'.sizeRange := by
      by_cases kind : inst.kind = .data
      · exact (data kind).2.symm
      · rw [exactly kind notBase, ((sizeStep_moved done).size kind).1, sized.width notBase kind]
    exact .inr ⟨notBase, width ▸ moves⟩

/-! ### Labels that no instruction stamps -/

/-- The instruction writes its own address on the label. -/
def Instruction.Stamps (inst : Instruction) (name : String) : Prop :=
  inst.kind ≠ .base ∧ inst.label = some name

theorem Instruction.SameCode.stamps_iff {inst other : Instruction} (code : inst.SameCode other)
    (name : String) : inst.Stamps name ↔ other.Stamps name := by
  rw [Stamps, Stamps, code.kind, code.label]

namespace Walk.Moves

variable {walk walk' : Walk} {inst inst' : Instruction} {width : Interval}

theorem get?_eq {name : String} (moves : walk.Moves inst width walk' inst')
    (unstamped : ¬inst.Stamps name) : walk'.labels.get? name = walk.labels.get? name := by
  rcases moves with ⟨-, operand, range, -, -, rfl, -⟩ | ⟨notBase, labels, -, -⟩
  · rfl
  · rw [labels]
    exact Labels.get?_stamp_of_ne _ fun same => unstamped ⟨notBase, same⟩

theorem names (moves : walk.Moves inst width walk' inst') :
    walk'.labels.names = walk.labels.names := by
  rcases moves with ⟨-, operand, range, -, -, rfl, -⟩ | ⟨-, labels, -, -⟩
  · rfl
  · rw [labels, Labels.names_stamp]

end Walk.Moves

/-- A label that no instruction stamps keeps its interval, and stays one that none stamps. -/
theorem Sweeps.unstamped {step : Step} {walk walk' : Walk} {program program' : List Instruction}
    {name : String} (walks : step.Walks) (swept : Sweeps step walk program walk' program')
    (unstamped : ∀ inst ∈ program, ¬inst.Stamps name) :
    walk'.labels.get? name = walk.labels.get? name ∧ ∀ inst ∈ program', ¬inst.Stamps name := by
  obtain ⟨kept, became⟩ := swept.invariant
    (fun other => other.labels.get? name = walk.labels.get? name)
    (fun _ inst' => ¬inst'.Stamps name)
    (fun kept unstamped done => by
      obtain ⟨⟨width, moves⟩, code⟩ := walks done
      exact ⟨(moves.get?_eq unstamped).trans kept, fun stamps =>
        unstamped ((code.stamps_iff name).1 stamps)⟩)
    rfl unstamped
  exact ⟨kept, forall_of_forall₂ became id⟩

/-! ### Programs that one pass puts in place -/

/-- The operand of a `BASE` line mentions no label. -/
def Instruction.Anchored (inst : Instruction) : Prop :=
  inst.kind = .base → ∀ operand, inst.operand = some operand → operand.labels = []

/-- One pass puts a program in its place, if its `BASE` lines do not wait for the table. -/
theorem Sweeps.placed {step : Step} {Allowed : Instruction → Prop} {walk walk' : Walk}
    {program program' : List Instruction} (walks : step.Walks) (strides : step.Strides Allowed)
    (swept : Sweeps step walk program walk' program') (allowed : ∀ inst ∈ program, Allowed inst)
    (anchored : ∀ inst ∈ program, inst.Anchored)
    (named : ∀ inst ∈ program, inst.Named walk.labels.names)
    (distinct : (program.filterMap Instruction.label).Nodup) :
    Placed walk'.labels walk.cursor program' := by
  induction swept with
  | nil => exact .nil
  | @cons walk middle walk' inst inst' rest rest' first others inductionHypothesis =>
    rw [List.forall_mem_cons] at allowed anchored named
    have code := (walks first).2
    have moves := strides allowed.1 first
    have restDistinct : (rest.filterMap Instruction.label).Nodup :=
      distinct.sublist ((List.sublist_cons_self inst rest).filterMap _)
    have restNamed : ∀ inst ∈ rest, inst.Named middle.labels.names := moves.names ▸ named.2
    have placed := inductionHypothesis allowed.2 anchored.2 restNamed restDistinct
    rcases moves with ⟨base, operand, range, given, evaluated, rfl, rfl⟩ |
      ⟨notBase, labels, cursor, address⟩
    · refine .base base given ?_ placed
      rw [← evaluated]
      refine Expr.range_congr ?_
      simp [anchored.1 base operand given]
    · have labelled : ∀ name, inst'.label = some name →
          walk'.labels.get? name = some inst'.addressRange := by
        intro name label
        rw [code.label] at label
        -- The label is the only one of its name, so nothing after it overwrites the stamp.
        have later : ∀ other ∈ rest, ¬other.Stamps name := by
          rintro other member ⟨-, same⟩
          rw [List.filterMap_cons, label] at distinct
          exact (List.nodup_cons.1 distinct).1 (List.mem_filterMap.2 ⟨other, member, same⟩)
        rw [(others.unstamped walks later).1, labels, label, address]
        exact Labels.get?_stamp_self _ (named.1 name label)
      rw [cursor, ← address] at placed
      rw [← address]
      exact .placed (code.kind ▸ notBase) labelled placed

end Micro65
