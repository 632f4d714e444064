import Micro65.Proofs.Layout.Passes

set_option autoImplicit false

/-!
A pass by sizes inside a pass by ranges of sizes. Walked side by side, the pass that knows the sizes
stays within the other: in every label, in the cursor, and so in everything that it evaluates.
-/

namespace Micro65

structure Walk.Within (inner outer : Walk) : Prop where
  labels : inner.labels.Within outer.labels
  cursor : inner.cursor.Inside outer.cursor

/-- The same code, whose size is one of those that the other can have. -/
structure Instruction.Refines (inst outer : Instruction) : Prop where
  kind : inst.kind = outer.kind
  label : inst.label = outer.label
  operand : inst.operand = outer.operand
  size : inst.kind ≠ .data → (Interval.point inst.size).Inside outer.sizeRange
  dataSize : inst.kind = .data → outer.sizeRange = ⟨1, 2⟩

theorem Instruction.dataSize_inside {labels : Labels} {inst : Instruction} {sizeRange : Interval}
    (found : inst.dataSize labels = .ok sizeRange) : sizeRange.Inside ⟨1, 2⟩ := by
  obtain ⟨_, value, -, -, -, rfl⟩ := (inst.dataSize_eq_ok_iff _ _).1 found
  unfold Interval.Inside dataWidth
  dsimp only
  split <;> split <;> omega

/-! ### Moves of the cursor -/

/-- A step that rebases, or stamps the cursor and moves it on by a width. -/
def Walk.Moves (walk : Walk) (inst : Instruction) (width : Interval) (walk' : Walk)
    (inst' : Instruction) : Prop :=
  walk.Rebases inst walk' inst' ∨
    inst.kind ≠ .base ∧ walk'.labels = walk.labels.stamp inst.label walk.cursor ∧
      walk'.cursor = walk.cursor + width ∧ inst'.addressRange = walk.cursor

/-- The same code at another place. -/
structure Instruction.SameCode (inst other : Instruction) : Prop where
  kind : inst.kind = other.kind
  label : inst.label = other.label
  operand : inst.operand = other.operand

/-- No more addresses than the other has, and no more sizes if it is a `DATA` line. -/
structure Instruction.Shrunk (inst other : Instruction) : Prop where
  kind : inst.kind = other.kind
  addresses : inst.addressRange.Inside other.addressRange
  sizes : inst.kind = .data → inst.sizeRange.Inside other.sizeRange

variable {names : List String} {walk walk' outer outer' : Walk}
  {inst inst' other other' : Instruction}

theorem Instruction.Shrunk.trans {last : Instruction} (first : inst.Shrunk other)
    (second : other.Shrunk last) : inst.Shrunk last :=
  ⟨first.kind.trans second.kind, first.addresses.trans second.addresses, fun data =>
    (first.sizes data).trans (second.sizes (first.kind ▸ data))⟩

theorem addressStep_moves (done : addressStep walk inst = (walk', inst', none)) :
    walk.Moves inst inst.sizeRange walk' inst' := by
  rcases addressStep_cases done with rebases | ⟨notBase, rfl, rfl⟩
  · exact .inl rebases
  · exact .inr ⟨notBase, walk.place_labels inst, by rw [Walk.advance, Walk.place_cursor], rfl⟩

theorem sizeStep_moves (done : sizeStep walk inst = (walk', inst', none)) :
    ∃ width, walk.Moves inst width walk' inst' ∧
      (inst.kind = .data →
        inst.dataSize (walk.labels.stamp inst.label walk.cursor) = .ok width ∧
          inst'.sizeRange = width) ∧
      (inst.kind ≠ .data → inst.kind ≠ .base → width = .point inst.size) := by
  rcases sizeStep_cases done with rebases | ⟨kind, sizeRange, found, rfl, rfl⟩ |
    ⟨notBase, notData, rfl, rfl⟩
  · refine ⟨.point 0, .inl rebases, fun data => ?_, fun _ notBase => absurd rebases.1 notBase⟩
    rw [rebases.1] at data
    contradiction
  · refine ⟨sizeRange, .inr ⟨?_, walk.place_labels inst, ?_, rfl⟩, fun _ => ⟨found, rfl⟩,
      fun notData => absurd kind notData⟩
    · simp [kind]
    · rw [Walk.advance, Walk.mark, Walk.place_cursor]
  · exact ⟨.point inst.size, .inr ⟨notBase, walk.place_labels inst,
      by rw [Walk.advance, Walk.place_cursor], rfl⟩, fun data => absurd data notData,
      fun _ _ => rfl⟩

/-- Walks that move by widths inside one another stay within one another, and so do the addresses
that they stamp. -/
theorem Walk.Within.moves {width width' : Interval} (within : walk.Within outer)
    (proper : walk.labels.Proper) (code : inst.SameCode other)
    (moves : walk.Moves inst width walk' inst') (moves' : outer.Moves other width' outer' other')
    (narrower : inst.kind ≠ .base → width.Inside width') :
    walk'.Within outer' ∧ inst'.addressRange.Inside other'.addressRange := by
  rcases moves with ⟨base, target, range, given, evaluated, rfl, rfl⟩ |
    ⟨notBase, labels, cursor, placed⟩
  · rcases moves' with ⟨-, target', range', given', evaluated', rfl, rfl⟩ | ⟨notBase', -⟩
    · rw [code.operand, given', Option.some.injEq] at given
      subst given
      have inside := Expr.range_inside within.labels proper evaluated evaluated'
      exact ⟨⟨within.labels, inside⟩, inside⟩
    · exact absurd (code.kind.symm.trans base) notBase'
  · rcases moves' with ⟨base', -⟩ | ⟨-, labels', cursor', placed'⟩
    · exact absurd (code.kind.trans base') notBase
    · refine ⟨⟨?_, ?_⟩, ?_⟩
      · rw [labels, labels', code.label]
        exact within.labels.stamp other.label within.cursor
      · rw [cursor, cursor']
        exact within.cursor.add (narrower notBase)
      · rw [placed, placed']
        exact within.cursor

theorem Instruction.Refines.moved (refines : inst.Refines other) (moved : inst.Moved inst')
    (moved' : other' = { other with addressRange := other'.addressRange }) :
    inst'.Refines other' := by
  have kind : inst'.kind = inst.kind := by rw [moved.rest]
  rw [moved']
  refine ⟨?_, ?_, ?_, ?_, ?_⟩
  · rw [kind, refines.kind]
  · rw [moved.rest, refines.label]
  · rw [moved.rest, refines.operand]
  · intro notData
    rw [kind] at notData
    rw [(moved.size notData).2]
    exact refines.size notData
  · intro data
    exact refines.dataSize (kind ▸ data)

theorem Instruction.Refines.sameCode (refines : inst.Refines other) : inst.SameCode other :=
  ⟨refines.kind, refines.label, refines.operand⟩

/-- The step by sizes stays within the step by ranges of sizes. -/
theorem sizeStep_within (sound : walk.Sound names) (within : walk.Within outer)
    (refines : inst.Refines other) (done : sizeStep walk inst = (walk', inst', none))
    (done' : addressStep outer other = (outer', other', none)) :
    walk'.Within outer' ∧ inst'.Shrunk other' := by
  obtain ⟨width, moves, data, exactly⟩ := sizeStep_moves done
  have needed : inst.kind = .data → width.Inside other.sizeRange := by
    intro kind
    rw [refines.dataSize kind]
    exact Instruction.dataSize_inside (data kind).1
  obtain ⟨within', addresses⟩ := within.moves sound.labels refines.sameCode moves
    (addressStep_moves done') fun notBase => by
      by_cases kind : inst.kind = .data
      · exact needed kind
      · rw [exactly kind notBase]
        exact refines.size kind
  have same : inst'.kind = inst.kind := by rw [(sizeStep_moved done).rest]
  have moved := addressStep_moved done'
  refine ⟨within', by rw [same, moved]; exact refines.kind, addresses, fun kind => ?_⟩
  rw [same] at kind
  rw [(data kind).2, moved]
  exact needed kind

/-- A pass by sizes leaves everything within what a pass by ranges of sizes leaves of a program with
the same code. -/
theorem sizePass_within {program program' others others' : List Instruction}
    (swept : Sweeps sizeStep walk program walk' program')
    (swept' : Sweeps addressStep outer others outer' others') (sound : walk.Sound names)
    (within : walk.Within outer) (refines : List.Forall₂ Instruction.Refines program others) :
    walk'.Within outer' ∧
      List.Forall₂ (fun inst other => inst.Refines other ∧ inst.Shrunk other) program' others' := by
  have both := swept.related (fun walk outer => walk.Sound names ∧ walk.Within outer)
    Instruction.Refines (fun inst other => inst.Refines other ∧ inst.Shrunk other) ?_ swept'
    ⟨sound, within⟩ refines
  · exact ⟨both.1.2, both.2⟩
  · rintro walk walk' inst inst' outer outer' other other' ⟨sound, within⟩ refines done done'
    obtain ⟨sound', moved⟩ := sizeStep_keeps sound done
    obtain ⟨within', shrunk⟩ := sizeStep_within sound within refines done done'
    exact ⟨⟨sound', within'⟩, refines.moved moved (addressStep_moved done'), shrunk⟩

end Micro65
