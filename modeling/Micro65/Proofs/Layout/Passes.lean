import Micro65.Asm.Layout.Passes
import Micro65.Proofs.Expr.Narrowing
import Micro65.Proofs.Layout.Sweep

set_option autoImplicit false

/-!
What one step of a pass can do, and what follows for whole passes. `addressStep_cases` and
`sizeStep_cases` say all that a step that succeeds has done; no later proof opens a step. A pass keeps
the names of the table and the code of the program.
-/

namespace Micro65

namespace Labels

/-- The table after the cursor has been stamped on a label, if there is one. -/
def stamp (labels : Labels) (label : Option String) (range : Interval) : Labels :=
  match label with
  | none => labels
  | some name => labels.set name range

@[simp] theorem names_stamp (labels : Labels) (label : Option String) (range : Interval) :
    (labels.stamp label range).names = labels.names := by
  cases label with
  | none => rfl
  | some name => exact names_set labels name range

theorem get?_stamp_of_ne {labels : Labels} {label : Option String} {name : String}
    (range : Interval) (different : label ≠ some name) :
    (labels.stamp label range).get? name = labels.get? name := by
  cases label with
  | none => rfl
  | some other => exact get?_set_of_ne labels range fun same => different (congrArg some same.symm)

theorem get?_stamp_self {labels : Labels} {name : String} (range : Interval)
    (known : name ∈ labels.names) : (labels.stamp (some name) range).get? name = some range := by
  obtain ⟨held, found⟩ := Option.isSome_iff_exists.1 ((labels.isSome_get?_iff name).2 known)
  rw [stamp, get?_set_self, found, Option.map_some]

theorem Proper.stamp {labels : Labels} (proper : labels.Proper) (label : Option String)
    {range : Interval} (new : range.Proper) : (labels.stamp label range).Proper := by
  cases label with
  | none => exact proper
  | some name => exact proper.set name new

theorem Within.stamp {inner outer : Labels} (within : inner.Within outer) (label : Option String)
    {range range' : Interval} (inside : range.Inside range') :
    (inner.stamp label range).Within (outer.stamp label range') := by
  cases label with
  | none => exact within
  | some name => exact within.set name inside

end Labels

namespace Walk

@[simp] theorem place_labels (walk : Walk) (inst : Instruction) :
    (walk.place inst).1.labels = walk.labels.stamp inst.label walk.cursor := by
  unfold place Labels.stamp
  split <;> simp_all [mark]

@[simp] theorem place_cursor (walk : Walk) (inst : Instruction) :
    (walk.place inst).1.cursor = walk.cursor := by
  unfold place
  split <;> rfl

@[simp] theorem place_snd (walk : Walk) (inst : Instruction) :
    (walk.place inst).2 = { inst with addressRange := walk.cursor } := by
  unfold place
  split <;> rfl

/-- A placement goes unnoticed if the cursor stands on the instruction and on its label already. -/
theorem place_changed_eq_false_iff (walk : Walk) (inst : Instruction) :
    (walk.place inst).1.changed = false ↔
      walk.changed = false ∧ inst.addressRange = walk.cursor ∧
        ∀ name, inst.label = some name → ∀ held, walk.labels.get? name = some held →
          held = walk.cursor := by
  unfold place
  split
  next unlabelled => simp [mark, unlabelled]
  next name labelled =>
    simp only [mark, Bool.or_eq_false_iff, bne_eq_false_iff_eq, Labels.differs_eq_false_iff,
      labelled, Option.some.injEq]
    constructor
    · rintro ⟨unchanged, placed, stamped⟩
      exact ⟨unchanged, placed, fun _ same => same ▸ stamped⟩
    · rintro ⟨unchanged, placed, stamped⟩
      exact ⟨unchanged, placed, stamped name rfl⟩

/-- What a `BASE` line does: the cursor goes where its operand can be. -/
def Rebases (walk : Walk) (inst : Instruction) (walk' : Walk) (inst' : Instruction) : Prop :=
  inst.kind = .base ∧ ∃ operand range, inst.operand = some operand ∧
    operand.range walk.labels = .ok range ∧
    walk' = ⟨walk.labels, range, walk.changed || inst.addressRange != range⟩ ∧
    inst' = { inst with addressRange := range }

theorem base_eq_iff (walk walk' : Walk) (inst inst' : Instruction) (kind : inst.kind = .base) :
    walk.base inst = (walk', inst', none) ↔ walk.Rebases inst walk' inst' := by
  unfold base Rebases
  cases operand : inst.operand with
  | none => simp [locate, throw, throwThe, MonadExceptOf.throw]
  | some expr =>
    cases evaluated : expr.range walk.labels with
    | error failure => simp [locate, evaluated]
    | ok range => simp [locate, evaluated, mark, kind, eq_comm]

end Walk

theorem addressStep_cases {walk walk' : Walk} {inst inst' : Instruction}
    (done : addressStep walk inst = (walk', inst', none)) :
    walk.Rebases inst walk' inst' ∨
      inst.kind ≠ .base ∧ walk' = (walk.place inst).1.advance inst.sizeRange ∧
        inst' = { inst with addressRange := walk.cursor } := by
  unfold addressStep at done
  split at done
  next kind => exact .inl ((walk.base_eq_iff walk' inst inst' kind).1 done)
  next kind =>
    simp only [Walk.place_snd, Prod.mk.injEq, and_true] at done
    obtain ⟨rfl, rfl⟩ := done
    exact .inr ⟨kind, rfl, rfl⟩

/-- The size of a `DATA` line whose values take so many bytes. -/
def Instruction.dataBytes (inst : Instruction) (sizeRange : Interval) : Nat :=
  if sizeRange.isPoint then sizeRange.lo.toNat else inst.size

theorem sizeStep_cases {walk walk' : Walk} {inst inst' : Instruction}
    (done : sizeStep walk inst = (walk', inst', none)) :
    walk.Rebases inst walk' inst' ∨
      (inst.kind = .data ∧ ∃ sizeRange,
        inst.dataSize (walk.labels.stamp inst.label walk.cursor) = .ok sizeRange ∧
        walk' = ((walk.place inst).1.mark (inst.sizeRange != sizeRange)).advance sizeRange ∧
        inst' = { inst with
          addressRange := walk.cursor, sizeRange, size := inst.dataBytes sizeRange }) ∨
      (inst.kind ≠ .base ∧ inst.kind ≠ .data ∧
        walk' = (walk.place inst).1.advance (.point inst.size) ∧
        inst' = { inst with addressRange := walk.cursor }) := by
  unfold sizeStep at done
  split at done
  next kind => exact .inl ((walk.base_eq_iff walk' inst inst' kind).1 done)
  next kind =>
    simp only [Walk.place_snd, Walk.place_labels] at done
    split at done
    · simp at done
    next sizeRange evaluated =>
      simp only [Prod.mk.injEq, and_true] at done
      obtain ⟨rfl, rfl⟩ := done
      exact .inr (.inl ⟨kind, sizeRange, (locate_eq_ok_iff _ _ _).1 evaluated, rfl, rfl⟩)
  next notBase notData =>
    simp only [Walk.place_snd, Prod.mk.injEq, and_true] at done
    obtain ⟨rfl, rfl⟩ := done
    exact .inr (.inr ⟨notBase, notData, rfl, rfl⟩)

theorem Instruction.dataSize_eq_ok_iff (labels : Labels) (inst : Instruction)
    (sizeRange : Interval) : inst.dataSize labels = .ok sizeRange ↔
      ∃ operand value, inst.operand = some operand ∧ operand.range labels = .ok value ∧
        value.within 0x0000 0xFFFF = true ∧
        sizeRange = ⟨dataWidth value.lo, dataWidth value.hi⟩ := by
  unfold dataSize
  cases operand : inst.operand with
  | none => simp
  | some expr =>
    cases evaluated : expr.range labels with
    | error failure => simp [evaluated, bind, Except.bind]
    | ok value =>
      cases bounded : value.within 0x0000 0xFFFF with
      | true =>
        simp only [bind, Except.bind, evaluated, bounded, if_true, pure, Except.pure,
          Except.ok.injEq, Option.some.injEq, exists_and_left, exists_eq_left', true_and]
        exact eq_comm
      | false =>
        simp [evaluated, bounded, bind, Except.bind, throw, throwThe, MonadExceptOf.throw]

theorem dataWidth_mono {value other : Int} (le : value ≤ other) :
    dataWidth value ≤ dataWidth other := by
  unfold dataWidth
  split <;> split <;> omega

theorem Instruction.proper_dataSize {labels : Labels} (proper : labels.Proper) {inst : Instruction}
    {sizeRange : Interval} (found : inst.dataSize labels = .ok sizeRange) : sizeRange.Proper := by
  obtain ⟨operand, value, -, evaluated, -, rfl⟩ := (inst.dataSize_eq_ok_iff _ _).1 found
  exact dataWidth_mono (operand.proper_range proper evaluated)

/-- What a pass leaves of an instruction: all but its place, and the size of a `DATA` line. -/
structure Instruction.Moved (before after : Instruction) : Prop where
  rest : after = { before with
    addressRange := after.addressRange, sizeRange := after.sizeRange, size := after.size }
  size : before.kind ≠ .data → after.sizeRange = before.sizeRange ∧ after.size = before.size

/-- A table of given names whose intervals, as well as the cursor, hold a value. -/
structure Walk.Sound (names : List String) (walk : Walk) : Prop where
  names : walk.labels.names = names
  labels : walk.labels.Proper
  cursor : walk.cursor.Proper

theorem Walk.Sound.mark {names : List String} {walk : Walk} (sound : walk.Sound names)
    (changed : Bool) : (walk.mark changed).Sound names :=
  ⟨sound.names, sound.labels, sound.cursor⟩

theorem Walk.Sound.advance {names : List String} {walk : Walk} (sound : walk.Sound names)
    {width : Interval} (proper : width.Proper) : (walk.advance width).Sound names :=
  ⟨sound.names, sound.labels, Interval.proper_add sound.cursor proper⟩

theorem Walk.Sound.place {names : List String} {walk : Walk} (sound : walk.Sound names)
    (inst : Instruction) : (walk.place inst).1.Sound names := by
  refine ⟨?_, ?_, ?_⟩
  · rw [place_labels, Labels.names_stamp, sound.names]
  · rw [place_labels]
    exact sound.labels.stamp inst.label sound.cursor
  · rw [place_cursor]
    exact sound.cursor

theorem Walk.Rebases.sound {names : List String} {walk walk' : Walk} {inst inst' : Instruction}
    (rebases : walk.Rebases inst walk' inst') (sound : walk.Sound names) : walk'.Sound names := by
  obtain ⟨-, operand, range, -, evaluated, rfl, -⟩ := rebases
  exact ⟨sound.names, sound.labels, operand.proper_range sound.labels evaluated⟩

theorem Walk.Rebases.moved {walk walk' : Walk} {inst inst' : Instruction}
    (rebases : walk.Rebases inst walk' inst') : inst.Moved inst' := by
  obtain ⟨-, operand, range, -, -, -, rfl⟩ := rebases
  exact ⟨rfl, fun _ => ⟨rfl, rfl⟩⟩

theorem addressStep_sound {names : List String} {walk walk' : Walk} {inst inst' : Instruction}
    (sound : walk.Sound names) (proper : inst.sizeRange.Proper)
    (done : addressStep walk inst = (walk', inst', none)) : walk'.Sound names := by
  rcases addressStep_cases done with rebases | ⟨-, rfl, -⟩
  · exact rebases.sound sound
  · exact (sound.place inst).advance proper

/-- A pass by ranges of sizes changes no size. -/
theorem addressStep_moved {walk walk' : Walk} {inst inst' : Instruction}
    (done : addressStep walk inst = (walk', inst', none)) :
    inst' = { inst with addressRange := inst'.addressRange } := by
  rcases addressStep_cases done with ⟨-, -, -, -, -, -, rfl⟩ | ⟨-, -, rfl⟩
  · rfl
  · rfl

theorem sizeStep_moved {walk walk' : Walk} {inst inst' : Instruction}
    (done : sizeStep walk inst = (walk', inst', none)) : inst.Moved inst' := by
  rcases sizeStep_cases done with rebases | ⟨kind, sizeRange, -, -, rfl⟩ | ⟨-, -, -, rfl⟩
  · exact rebases.moved
  · exact ⟨rfl, fun notData => absurd kind notData⟩
  · exact ⟨rfl, fun _ => ⟨rfl, rfl⟩⟩

theorem sizeStep_keeps {names : List String} {walk walk' : Walk} {inst inst' : Instruction}
    (sound : walk.Sound names) (done : sizeStep walk inst = (walk', inst', none)) :
    walk'.Sound names ∧ inst.Moved inst' := by
  refine ⟨?_, sizeStep_moved done⟩
  rcases sizeStep_cases done with rebases | ⟨kind, sizeRange, found, rfl, -⟩ | ⟨-, -, rfl, -⟩
  · exact rebases.sound sound
  · have proper := inst.proper_dataSize (sound.labels.stamp inst.label sound.cursor) found
    exact ((sound.place inst).mark _).advance proper
  · exact (sound.place inst).advance (Interval.proper_point inst.size)

end Micro65
