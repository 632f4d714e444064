import Micro65.Proofs.Layout.Realized
import Micro65.Proofs.Layout.Resolution

set_option autoImplicit false

/-!
Passes over a program that has a layout. What a walk knows on its way is never wrong: its cursor and its
table allow for the realized ones. Where the program looks back, a walk by sizes knows exactly those.
-/

namespace Micro65

/-- What is known by then of the labels and of the cursor allows for the table and the cursor. -/
structure Walk.Covers (walk : Walk) (labels : Labels) (cursor : Int) : Prop where
  within : labels.Within walk.labels
  inside : (Interval.point (saturate cursor)).Inside walk.cursor
  low : leastBound ≤ cursor

/-- The step moves the cursor by a width that allows for the size under the table. -/
def Step.Allows (step : Step) (labels : Labels) (Allowed : Instruction → Prop) : Prop :=
  ∀ {walk walk' : Walk} {inst inst' : Instruction}, Allowed inst →
    step walk inst = (walk', inst', none) → ∃ width, walk.Moves inst width walk' inst' ∧
      (labels.Within (walk.labels.stamp inst.label walk.cursor) → inst.kind ≠ .base →
        ∀ size, inst.Takes labels size → (Interval.point size).Inside width)

theorem addressStep_allows (labels : Labels) :
    Step.Allows addressStep labels Instruction.Open := by
  intro walk walk' inst inst' opened done
  refine ⟨_, addressStep_moves done, fun _ _ size takes => ?_⟩
  have sized : ∀ {mode size}, inst.kind.size? mode = some size →
      (Interval.point size).Inside inst.sizeRange := by
    intro mode size found
    have bounds := Mnemonic.size?_within found
    rw [opened.sizes]
    exact ⟨Int.ofNat_le.2 bounds.1, Int.ofNat_le.2 bounds.2⟩
  cases takes with
  | @data _ value data =>
    rw [opened.sizes, data]
    change 1 ≤ dataWidth value ∧ dataWidth value ≤ 2
    unfold dataWidth
    split <;> omega
  | bare _ _ found => exact sized found
  | moded _ _ _ found => exact sized found

/-- A mode that is chosen under the table asks for the size that the instruction takes up. -/
theorem Instruction.Resolved.size_eq {labels : Labels} {inst : Instruction} {size : Int}
    (resolved : inst.Resolved labels) (notBase : inst.kind ≠ .base) (notData : inst.kind ≠ .data)
    (takes : inst.Takes labels size) : size = inst.size := by
  have measured := (resolved.measured.exact notBase notData).1
  cases takes with
  | data data => exact absurd data notData
  | bare _ _ found =>
    rw [Mnemonic.size?_of_none found, Option.some.injEq] at measured
    rw [measured]
  | moded _ given chosen found =>
    obtain ⟨mode, chosen', own⟩ := resolved.moded notBase notData _ given
    rw [chosen, Except.ok.injEq, Prod.mk.injEq] at chosen'
    rw [own, ← chosen'.1, found, Option.some.injEq] at measured
    rw [measured]

theorem sizeStep_allows {labels outer : Labels} (proper : labels.Proper)
    (within : labels.Within outer) :
    Step.Allows sizeStep labels fun inst => inst.Resolved outer := by
  intro walk walk' inst inst' resolved done
  obtain ⟨width, moves, data, exactly⟩ := sizeStep_moves done
  refine ⟨width, moves, fun known notBase size takes => ?_⟩
  by_cases kind : inst.kind = .data
  · obtain ⟨operand, range, given, evaluated, -, rfl⟩ := (inst.dataSize_eq_ok_iff _ _).1 (data kind).1
    obtain ⟨operand', value, given', evaluated', -, -, rfl⟩ := takes.of_data kind
    rw [given, Option.some.injEq] at given'
    subst given'
    have inside := Expr.range_inside known proper evaluated' evaluated
    exact ⟨dataWidth_mono inside.1, dataWidth_mono inside.2⟩
  · rw [exactly kind notBase, (resolved.narrows within proper).size_eq notBase kind takes]
    exact Interval.inside_refl _

/-- The label of an instruction allows for the table once it has been stamped. -/
theorem Walk.Covers.stamp {labels : Labels} {walk : Walk} {inst : Instruction} {cursor : Int}
    (covers : walk.Covers labels cursor) (bounded : labels.Bounded)
    (labelled : ∀ name, inst.label = some name → labels.get? name = some (.point cursor)) :
    labels.Within (walk.labels.stamp inst.label walk.cursor) := by
  refine covers.within.stamp_right covers.inside fun name label => ?_
  rw [labelled name label, (bounded name _ (labelled name label)).saturate_eq]

/-- A step that allows for the table keeps a walk that does. -/
theorem Walk.Covers.step {step : Step} {Allowed : Instruction → Prop} {labels : Labels}
    {walk walk' : Walk} {inst inst' : Instruction} {cursor next : Int}
    (allows : step.Allows labels Allowed) (proper : labels.Proper) (bounded : labels.Bounded)
    (covers : walk.Covers labels cursor) (allowed : Allowed inst)
    (leads : inst.Leads labels cursor next) (done : step walk inst = (walk', inst', none)) :
    walk'.Covers labels next := by
  obtain ⟨width, moves, wide⟩ := allows allowed done
  cases leads with
  | base base given evaluated =>
    rcases moves with ⟨-, operand, range, given', evaluated', rfl, -⟩ | ⟨notBase, -⟩
    · rw [given, Option.some.injEq] at given'
      subst given'
      have inside := Expr.range_inside covers.within proper evaluated evaluated'
      have target := Expr.range_bounded bounded evaluated
      refine ⟨covers.within, ?_, target.1⟩
      rw [target.saturate_eq]
      exact inside
    · exact absurd base notBase
  | placed notBase labelled takes =>
    rcases moves with ⟨base, -⟩ | ⟨-, labels', cursor', -⟩
    · exact absurd base notBase
    · have stamped := covers.stamp bounded labelled
      have positive := takes.nonneg
      have low := covers.low
      refine ⟨labels' ▸ stamped, ?_, by omega⟩
      rw [cursor', ← saturate_add covers.low positive, ← Interval.point_add_point]
      exact covers.inside.add (wide stamped notBase _ takes)

/-- What is known at the start of a program that is realized, and kept by every step, is known
wherever a sweep has come. -/
theorem Sweeps.realized {step : Step} {Allowed : Instruction → Prop} {labels : Labels}
    (Near : Walk → Int → List Instruction → Prop)
    (keep : ∀ {walk walk' inst inst' cursor next rest}, Near walk cursor (inst :: rest) →
      Allowed inst → inst.Leads labels cursor next → step walk inst = (walk', inst', none) →
      Near walk' next rest)
    {walk walk' : Walk} {program program' rest : List Instruction} {cursor : Int}
    (swept : Sweeps step walk program walk' program') (allowed : ∀ inst ∈ program, Allowed inst)
    (near : Near walk cursor (program ++ rest)) (realized : Realized labels cursor (program ++ rest)) :
    ∃ cursor', Near walk' cursor' rest ∧ Realized labels cursor' rest := by
  induction swept generalizing cursor with
  | nil => exact ⟨cursor, near, realized⟩
  | cons first _ inductionHypothesis =>
    rw [List.forall_mem_cons] at allowed
    cases realized with
    | cons leads realized =>
      exact inductionHypothesis allowed.2 (keep near allowed.1 leads first) realized

/-- A pass starts where every layout starts. -/
theorem Walk.covers_start {labels labels' : Labels} (within : labels.Within labels') :
    (Walk.start labels').Covers labels 0 :=
  ⟨within, Interval.inside_refl _, by decide⟩

/-! ### Walks that know a layout -/

/-- The cursor is exactly that of the table, and the labels that are known by then are where the table
has them. -/
structure Walk.Exact (walk : Walk) (labels : Labels) (known : List String) (cursor : Int) : Prop
    extends walk.Covers labels cursor where
  located : walk.cursor = .point (saturate cursor)
  held : ∀ name ∈ known, walk.labels.get? name = labels.get? name

section Exact

variable {labels outer : Labels} {walk walk' : Walk} {inst inst' : Instruction} {known : List String}
  {cursor next : Int}

theorem Instruction.mem_stamped_iff (notBase : inst.kind ≠ .base) (name : String) :
    name ∈ inst.stamped ↔ inst.label = some name := by
  rw [stamped, if_neg notBase, Option.mem_toList]

/-- With its own label stamped, an instruction finds all labels before it as they are in the table. -/
theorem Walk.Exact.stamp (exactly : walk.Exact labels known cursor) (bounded : labels.Bounded)
    (notBase : inst.kind ≠ .base)
    (labelled : ∀ name, inst.label = some name → labels.get? name = some (.point cursor)) :
    ∀ name ∈ known ++ inst.stamped,
      (walk.labels.stamp inst.label walk.cursor).get? name = labels.get? name := by
  intro name member
  by_cases label : inst.label = some name
  · have found := labelled name label
    rw [label, Labels.get?_stamp_self _ (exactly.within.mem_names found), found, exactly.located,
      (bounded name _ found).saturate_eq]
  · rw [Labels.get?_stamp_of_ne _ label]
    rw [List.mem_append, inst.mem_stamped_iff notBase] at member
    exact exactly.held name (member.resolve_right label)

/-- A step by sizes from where everything before is known knows what comes next. -/
theorem Walk.Exact.step (proper : labels.Proper) (bounded : labels.Bounded)
    (within : labels.Within outer) (exactly : walk.Exact labels known cursor)
    (resolved : inst.Resolved outer)
    (back : inst.kind = .base ∨ inst.kind = .data → ∀ operand, inst.operand = some operand →
      operand.labels ⊆ known ++ inst.stamped)
    (leads : inst.Leads labels cursor next) (done : sizeStep walk inst = (walk', inst', none)) :
    walk'.Exact labels (known ++ inst.stamped) next := by
  have covers :=
    exactly.toCovers.step (sizeStep_allows proper within) proper bounded resolved leads done
  obtain ⟨width, moves, data, sized⟩ := sizeStep_moves done
  cases leads with
  | @base operand target base given evaluated =>
    rcases moves with ⟨-, operand', range, given', evaluated', rfl, -⟩ | ⟨notBase, -⟩
    · rw [given, Option.some.injEq] at given'
      subst given'
      have stamped : inst.stamped = [] := if_pos base
      rw [stamped, List.append_nil] at back ⊢
      have same := Expr.range_congr fun name mentioned =>
        exactly.held name (back (.inl base) operand given mentioned)
      rw [same, evaluated, Except.ok.injEq] at evaluated'
      subst evaluated'
      refine ⟨covers, ?_, exactly.held⟩
      rw [(Expr.range_bounded bounded evaluated).saturate_eq]
    · exact absurd base notBase
  | @placed size notBase labelled takes =>
    rcases moves with ⟨base, -⟩ | ⟨-, labels', cursor', -⟩
    · exact absurd base notBase
    · have held := exactly.stamp bounded notBase labelled
      have point : width = .point size := by
        by_cases kind : inst.kind = .data
        · obtain ⟨operand, range, given, evaluated, -, rfl⟩ :=
            (inst.dataSize_eq_ok_iff _ _).1 (data kind).1
          obtain ⟨operand', value, given', evaluated', -, -, rfl⟩ := takes.of_data kind
          rw [given, Option.some.injEq] at given'
          subst given'
          have same := Expr.range_congr fun name mentioned =>
            held name (back (.inr kind) operand given mentioned)
          rw [same, evaluated', Except.ok.injEq] at evaluated
          subst evaluated
          rfl
        · rw [sized kind notBase, (resolved.narrows within proper).size_eq notBase kind takes]
      refine ⟨covers, ?_, labels' ▸ held⟩
      rw [cursor', point, exactly.located, Interval.point_add_point,
        saturate_add exactly.low takes.nonneg]

end Exact

end Micro65
