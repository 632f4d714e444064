import Micro65.Proofs.Layout.Emission

set_option autoImplicit false

/-!
Addresses along a program that has been laid out: a cursor that moves on by the size of each
instruction comes to the address of the next.
-/

namespace Micro65

/-- The walk of a cursor down a program. A `BASE` line sends it to the value of its operand; every
other instruction stands at the cursor, which then moves on by the size of the instruction. An operand
without a single value sends the cursor nowhere, and no instruction stands there. -/
inductive CursorWalk (labels : Labels) : Option Int → List Instruction → Prop where
  | nil {cursor} : CursorWalk labels cursor []
  | base {cursor inst operand range rest} :
      inst.kind = .base → inst.operand = some operand → operand.range labels = .ok range →
      CursorWalk labels range.value? rest → CursorWalk labels cursor (inst :: rest)
  | placed {inst rest} :
      inst.kind ≠ .base → CursorWalk labels (some (inst.address.toNat + inst.size)) rest →
      CursorWalk labels (some inst.address.toNat) (inst :: rest)

/-- Addresses and sizes are far too small to be cut off. -/
theorem Instruction.Settled.next {labels : Labels} {inst : Instruction}
    (settled : inst.Settled labels) (notBase : inst.kind ≠ .base) :
    inst.addressRange + inst.sizeRange = .point (inst.address.toNat + inst.size) := by
  obtain ⟨width, small⟩ := settled.width notBase
  have bounded := inst.address.toNat_lt
  rw [settled.located notBase, width, Interval.point_add_point, saturate_of_bounded]
  · unfold leastBound
    omega
  · unfold greatestBound
    omega

theorem Placed.cursorWalk {labels : Labels} {cursor : Interval} {program : List Instruction}
    (placed : Placed labels cursor program) (settled : ∀ inst ∈ program, inst.Settled labels) :
    CursorWalk labels cursor.value? program := by
  induction placed with
  | nil => exact .nil
  | base kind given evaluated _ inductionHypothesis =>
    rw [List.forall_mem_cons] at settled
    exact .base kind given evaluated (inductionHypothesis settled.2)
  | @placed inst rest notBase _ _ inductionHypothesis =>
    rw [List.forall_mem_cons] at settled
    have walked := inductionHypothesis settled.2
    rw [settled.1.next notBase, Interval.value?_point] at walked
    rw [settled.1.located notBase, Interval.value?_point]
    exact .placed notBase walked

theorem CursorWalk.of_append {labels : Labels} {cursor : Option Int}
    {before rest : List Instruction} (walk : CursorWalk labels cursor (before ++ rest)) :
    ∃ cursor', CursorWalk labels cursor' rest := by
  induction before generalizing cursor with
  | nil => exact ⟨cursor, walk⟩
  | cons inst before inductionHypothesis =>
    cases walk with
    | base _ _ _ walk => exact inductionHypothesis walk
    | placed _ walk => exact inductionHypothesis walk

theorem CursorWalk.cons_inv {labels : Labels} {cursor : Option Int} {inst : Instruction}
    {rest : List Instruction} (walk : CursorWalk labels cursor (inst :: rest))
    (notBase : inst.kind ≠ .base) :
    cursor = some (inst.address.toNat : Int) ∧
      CursorWalk labels (some (inst.address.toNat + inst.size)) rest := by
  cases walk with
  | base base => exact absurd base notBase
  | placed _ walk => exact ⟨rfl, walk⟩

/-- Two instructions in a row, with no `BASE` line among them. -/
theorem CursorWalk.next {labels : Labels} {cursor : Option Int} {inst next : Instruction}
    {after : List Instruction} (walk : CursorWalk labels cursor (inst :: next :: after))
    (notBase : inst.kind ≠ .base) (nextNotBase : next.kind ≠ .base) :
    next.address.toNat = inst.address.toNat + inst.size := by
  obtain ⟨same, -⟩ := (walk.cons_inv notBase).2.cons_inv nextNotBase
  rw [Option.some.injEq] at same
  omega

end Micro65
