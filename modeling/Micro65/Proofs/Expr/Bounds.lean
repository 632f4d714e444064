import Micro65.Proofs.Expr.Narrowing

set_option autoImplicit false

/-!
Bounds of what an operand evaluates to. Every operation keeps to 64-bit numbers, so operands do if the
labels that they mention do.
-/

namespace Micro65

theorem saturate_bounded (value : Int) :
    leastBound ≤ saturate value ∧ saturate value ≤ greatestBound := by
  unfold saturate leastBound greatestBound
  omega

/-- A sum that has left the numbers stays at the limit when more is added. -/
theorem saturate_add {value more : Int} (low : leastBound ≤ value) (positive : 0 ≤ more) :
    saturate (saturate value + more) = saturate (value + more) := by
  unfold saturate leastBound greatestBound at *
  omega

namespace Interval

/-- The bounds are 64-bit numbers. -/
def Bounded (range : Interval) : Prop := leastBound ≤ range.lo ∧ range.hi ≤ greatestBound

theorem bounded_word (word : UInt16) : (point word.toNat).Bounded := by
  have bounded := word.toNat_lt
  unfold Bounded point leastBound greatestBound
  dsimp only
  omega

theorem Bounded.saturate_eq {value : Int} (bounded : (point value).Bounded) :
    saturate value = value :=
  saturate_of_bounded bounded.1 bounded.2

variable (left right : Interval)

theorem bounded_add : (left + right).Bounded := ⟨(saturate_bounded _).1, (saturate_bounded _).2⟩

theorem bounded_sub : (left - right).Bounded := ⟨(saturate_bounded _).1, (saturate_bounded _).2⟩

theorem bounded_mul : (left * right).Bounded := by
  rw [mul_eq]
  exact ⟨(saturate_bounded _).1, (saturate_bounded _).2⟩

theorem bounded_lowByte (range : Interval) : range.lowByte.Bounded := by
  unfold Bounded leastBound greatestBound lowByte
  split
  · dsimp only
    omega
  · decide

theorem bounded_highByte {range : Interval} (bounded : range.Bounded) : range.highByte.Bounded := by
  unfold Bounded leastBound greatestBound at *
  unfold highByte
  dsimp only
  omega

end Interval

theorem Half.bounded_range (side : Half) {range : Interval} (bounded : range.Bounded) :
    (side.range range).Bounded := by
  cases side with
  | low => exact range.bounded_lowByte
  | high => exact Interval.bounded_highByte bounded

/-- The intervals of the table have 64-bit bounds. -/
def Labels.Bounded (labels : Labels) : Prop :=
  ∀ name range, labels.get? name = some range → range.Bounded

theorem Expr.range_bounded {labels : Labels} (bounded : labels.Bounded) {expr : Expr}
    {range : Interval} (evaluated : expr.range labels = .ok range) : range.Bounded := by
  induction expr generalizing range with
  | literal value =>
    cases evaluated
    exact Interval.bounded_word value
  | label name =>
    simp only [Expr.range] at evaluated
    split at evaluated
    next found =>
      cases evaluated
      exact bounded name range found
    next => contradiction
  | register which => contradiction
  | indirect inner => contradiction
  | address inner inductionHypothesis => exact inductionHypothesis evaluated
  | half side inner inductionHypothesis =>
    rw [Expr.range, except_bind_eq_ok_iff] at evaluated
    obtain ⟨whole, evaluated, halved⟩ := evaluated
    cases halved
    exact side.bounded_range (inductionHypothesis evaluated)
  | add left right =>
    simp only [Expr.range, except_bind_eq_ok_iff] at evaluated
    obtain ⟨first, -, second, -, joined⟩ := evaluated
    cases joined
    exact Interval.bounded_add first second
  | sub left right =>
    simp only [Expr.range, except_bind_eq_ok_iff] at evaluated
    obtain ⟨first, -, second, -, joined⟩ := evaluated
    cases joined
    exact Interval.bounded_sub first second
  | mul left right =>
    simp only [Expr.range, except_bind_eq_ok_iff] at evaluated
    obtain ⟨first, -, second, -, joined⟩ := evaluated
    cases joined
    exact Interval.bounded_mul first second

end Micro65
