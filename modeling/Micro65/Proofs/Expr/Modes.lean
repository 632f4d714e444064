import Micro65.Asm.Addressing
import Micro65.Proofs.Success

set_option autoImplicit false

/-!
Modes chosen by shape. A sum is one of its sides, indexed by the other; an indirection is its inner
operand. A register alone is the only operand without a parameter.
-/

namespace Micro65

namespace Mode

/-- The mode of a base mode indexed by a register. -/
def indexed? : Mode → Mode → Option Mode
  | zpg, regX => some zpgX
  | zpg, regY => some zpgY
  | abs, regX => some absX
  | abs, regY => some absY
  | ind, regY => some indY
  | _, _ => none

/-- Of two modes at most one is indexed by the other. -/
theorem indexed?_eq_none {base index mode : Mode} (indexed : base.indexed? index = some mode) :
    index.indexed? base = none := by
  cases base <;> cases index <;> first | rfl | cases indexed

theorem indexed?_isRegister {base index mode : Mode} (indexed : base.indexed? index = some mode) :
    mode.isRegister = false := by
  cases base <;> cases index <;> cases indexed <;> rfl

theorem indirect?_isRegister {base mode : Mode} (indirect : base.indirect? = some mode) :
    mode.isRegister = false := by
  cases base <;> cases indirect <;> rfl

end Mode

namespace Expr

theorem classify_register {labels : Labels} {expr : Expr} {which : Register} {range : Interval}
    (classified : expr.classify labels = (.register which, range)) : expr = .register which := by
  cases expr with
  | register other =>
    cases classified
    rfl
  | literal value => cases classified
  | label name => cases classified
  | indirect inner => cases classified
  | _ =>
    simp only [classify] at classified
    split at classified <;> cases classified

theorem ne_register {labels : Labels} {expr : Expr} {kind : OperandClass} {range : Interval}
    (classified : expr.classify labels = (kind, range)) (other : ∀ which, kind ≠ .register which) :
    ∀ which, expr ≠ .register which := by
  rintro which rfl
  cases classified
  exact other which rfl

/-- A sum is indexed alike from both sides. -/
theorem indexedMode_eq (left right : Mode × Option Expr) :
    indexedMode left right =
      match left.1.indexed? right.1, right.1.indexed? left.1 with
      | some mode, _ => indexedMode.encoded mode left.2
      | none, some mode => indexedMode.encoded mode right.2
      | none, none => .error .unsupportedAddressingMode := by
  obtain ⟨modeLeft, _⟩ := left
  obtain ⟨modeRight, _⟩ := right
  cases modeLeft <;> cases modeRight <;> rfl

/-- An indexed operand is one of the two sides, with its mode indexed by that of the other. -/
theorem indexedMode_eq_ok_iff (left right : Mode × Option Expr) (mode : Mode) (operand : Expr) :
    indexedMode left right = .ok (mode, operand) ↔
      (left.1.indexed? right.1 = some mode ∧ left.2 = some operand) ∨
        (right.1.indexed? left.1 = some mode ∧ right.2 = some operand) := by
  have encoded_eq_ok_iff : ∀ found given,
      indexedMode.encoded found given = .ok (mode, operand) ↔ found = mode ∧ given = some operand := by
    intro found given
    cases given <;> simp [indexedMode.encoded]
  rw [indexedMode_eq]
  cases indexed : left.1.indexed? right.1 with
  | some found =>
    simp only [Mode.indexed?_eq_none indexed, encoded_eq_ok_iff, Option.some.injEq, reduceCtorEq,
      false_and, or_false]
  | none =>
    cases right.1.indexed? left.1 with
    | some found =>
      simp only [encoded_eq_ok_iff, Option.some.injEq, reduceCtorEq, false_and, false_or]
    | none => simp only [reduceCtorEq, false_and, or_false]

theorem indirectMode_eq_ok {inner : Mode × Option Expr} {mode : Mode} {operand : Expr}
    (chosen : indirectMode inner = .ok (mode, operand)) :
    inner.1.indirect? = some mode ∧ inner.2 = some operand := by
  unfold indirectMode at chosen
  split at chosen
  next found given indirect same =>
    cases chosen
    exact ⟨indirect, same⟩
  next => contradiction

theorem compoundMode_add_eq_ok_iff (labels : Labels) (left right : Expr) (result : Mode × Expr) :
    (add left right).compoundMode labels = .ok result ↔
      ∃ modeLeft modeRight, left.mode labels = .ok modeLeft ∧ right.mode labels = .ok modeRight ∧
        indexedMode modeLeft modeRight = .ok result := by
  rw [compoundMode, except_bind_eq_ok_iff]
  simp only [except_bind_eq_ok_iff, exists_and_left]

theorem compoundMode_indirect_eq_ok_iff (labels : Labels) (inner : Expr) (result : Mode × Expr) :
    (indirect inner).compoundMode labels = .ok result ↔
      ∃ modeInner, inner.mode labels = .ok modeInner ∧ indirectMode modeInner = .ok result := by
  rw [compoundMode, except_bind_eq_ok_iff]

theorem compoundMode_isRegister {labels : Labels} {expr operand : Expr} {mode : Mode}
    (chosen : expr.compoundMode labels = .ok (mode, operand)) : mode.isRegister = false := by
  cases expr with
  | add left right =>
    obtain ⟨_, _, -, -, chosen⟩ := (compoundMode_add_eq_ok_iff ..).1 chosen
    obtain ⟨indexed, -⟩ | ⟨indexed, -⟩ := (indexedMode_eq_ok_iff ..).1 chosen
    · exact Mode.indexed?_isRegister indexed
    · exact Mode.indexed?_isRegister indexed
  | indirect inner =>
    obtain ⟨_, -, chosen⟩ := (compoundMode_indirect_eq_ok_iff ..).1 chosen
    exact Mode.indirect?_isRegister (indirectMode_eq_ok chosen).1
  | _ => simp [compoundMode] at chosen

/-- A register alone is the only operand without a parameter, and only it has a register mode. -/
theorem mode_param {labels : Labels} {expr : Expr} {mode : Mode} {param : Option Expr}
    (chosen : expr.mode labels = .ok (mode, param)) :
    (∃ which, expr = .register which) ∧ param = none ∧ mode.isRegister = true ∨
      (∀ which, expr ≠ .register which) ∧ param.isSome = true ∧ mode.isRegister = false := by
  rw [Expr.mode] at chosen
  split at chosen
  next range classified =>
    refine .inr ⟨ne_register classified (by simp), ?_⟩
    unfold valueMode at chosen
    split at chosen
    · cases chosen
      exact ⟨rfl, rfl⟩
    · cases chosen
  next range classified =>
    refine .inr ⟨ne_register classified (by simp), ?_⟩
    unfold addressMode at chosen
    split at chosen
    · cases chosen
    split at chosen
    · cases chosen
    cases chosen
    exact ⟨rfl, by split <;> rfl⟩
  next which range classified =>
    obtain rfl := classify_register classified
    cases chosen
    exact .inl ⟨⟨which, rfl⟩, rfl, by cases which <;> rfl⟩
  next range classified =>
    refine .inr ⟨ne_register classified (by simp), ?_⟩
    rw [except_bind_eq_ok_iff] at chosen
    obtain ⟨⟨mode', operand⟩, shaped, done⟩ := chosen
    cases done
    exact ⟨rfl, compoundMode_isRegister shaped⟩

end Expr
end Micro65
