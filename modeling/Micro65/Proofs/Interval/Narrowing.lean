import Micro65.Asm.Interval

set_option autoImplicit false

/-!
Narrower operands give narrower results: every operation on intervals is monotone in `Inside`. An
interval is proper if it holds a value; operations keep proper intervals proper.
-/

namespace Micro65

theorem saturate_min (value other : Int) :
    saturate (min value other) = min (saturate value) (saturate other) := by
  rcases Int.le_total value other with below | above
  · rw [Int.min_eq_left below, Int.min_eq_left (saturate_mono below)]
  · rw [Int.min_eq_right above, Int.min_eq_right (saturate_mono above)]

theorem saturate_max (value other : Int) :
    saturate (max value other) = max (saturate value) (saturate other) := by
  rcases Int.le_total value other with below | above
  · rw [Int.max_eq_right below, Int.max_eq_right (saturate_mono below)]
  · rw [Int.max_eq_left above, Int.max_eq_left (saturate_mono above)]

namespace Interval

/-- Some value lies in the interval. -/
def Proper (range : Interval) : Prop := range.lo ≤ range.hi

theorem proper_point (value : Int) : (point value).Proper := Int.le_refl value

theorem proper_unknown : unknown.Proper := by
  unfold Proper unknown
  decide

@[simp] theorem isPoint_point (value : Int) : (point value).isPoint = true := by
  simp [isPoint, point]

@[simp] theorem value?_point (value : Int) : (point value).value? = some value := by
  simp [value?, point, isPoint]

theorem value?_eq_some_iff (range : Interval) (value : Int) :
    range.value? = some value ↔ range = point value := by
  obtain ⟨lo, hi⟩ := range
  simp only [value?, isPoint, point, beq_iff_eq, Interval.mk.injEq]
  constructor
  · intro found
    split at found
    · simp_all
    · contradiction
  · rintro ⟨rfl, rfl⟩
    simp

theorem within_iff (range : Interval) (lo hi : Int) :
    range.within lo hi = true ↔ lo ≤ range.lo ∧ range.hi ≤ hi := by
  simp [within]

theorem Inside.within {inner outer : Interval} (inside : inner.Inside outer) {lo hi : Int}
    (bounded : outer.within lo hi = true) : inner.within lo hi = true := by
  rw [within_iff] at bounded ⊢
  exact ⟨Int.le_trans bounded.1 inside.1, Int.le_trans inside.2 bounded.2⟩

section Sums

variable {left right left' right' : Interval}

theorem proper_add (hl : left.Proper) (hr : right.Proper) : (left + right).Proper :=
  saturate_mono (Int.add_le_add hl hr)

theorem proper_sub (hl : left.Proper) (hr : right.Proper) : (left - right).Proper :=
  saturate_mono (Int.sub_le_sub hl hr)

theorem Inside.add (hl : left'.Inside left) (hr : right'.Inside right) :
    (left' + right').Inside (left + right) :=
  ⟨saturate_mono (Int.add_le_add hl.1 hr.1), saturate_mono (Int.add_le_add hl.2 hr.2)⟩

theorem Inside.sub (hl : left'.Inside left) (hr : right'.Inside right) :
    (left' - right').Inside (left - right) :=
  ⟨saturate_mono (Int.sub_le_sub hl.1 hr.2), saturate_mono (Int.sub_le_sub hl.2 hr.1)⟩

theorem point_add_point (first second : Int) :
    point first + point second = point (saturate (first + second)) := rfl

end Sums

section Products

/-- A multiple of a number between two others lies between the multiples of the bounds. -/
theorem scaled_between (factor : Int) {lo value hi : Int} (low : lo ≤ value) (high : value ≤ hi) :
    min (factor * lo) (factor * hi) ≤ factor * value ∧
      factor * value ≤ max (factor * lo) (factor * hi) := by
  rcases Int.le_total 0 factor with positive | negative
  · have below := Int.mul_le_mul_of_nonneg_left low positive
    have above := Int.mul_le_mul_of_nonneg_left high positive
    omega
  · have below := Int.mul_le_mul_of_nonpos_left negative low
    have above := Int.mul_le_mul_of_nonpos_left negative high
    omega

theorem mul_eq (left right : Interval) : left * right =
    ⟨saturate (min (min (left.lo * right.lo) (left.lo * right.hi))
        (min (left.hi * right.lo) (left.hi * right.hi))),
      saturate (max (max (left.lo * right.lo) (left.lo * right.hi))
        (max (left.hi * right.lo) (left.hi * right.hi)))⟩ := by
  simp only [saturate_min, saturate_max]
  rfl

/-- The saturated product of two values lies in the product of their intervals. -/
theorem product_between {left right : Interval} {first second : Int}
    (hl : left.lo ≤ first ∧ first ≤ left.hi) (hr : right.lo ≤ second ∧ second ≤ right.hi) :
    (left * right).lo ≤ saturate (first * second) ∧
      saturate (first * second) ≤ (left * right).hi := by
  -- Between the left bounds first, then for each of them between the right ones.
  have outer := scaled_between second hl.1 hl.2
  have lower := scaled_between left.lo hr.1 hr.2
  have upper := scaled_between left.hi hr.1 hr.2
  rw [Int.mul_comm second left.lo, Int.mul_comm second left.hi, Int.mul_comm second first] at outer
  rw [mul_eq]
  constructor
  · apply saturate_mono
    exact Int.le_trans (Int.le_min.2 ⟨Int.le_trans (Int.min_le_left _ _) lower.1,
      Int.le_trans (Int.min_le_right _ _) upper.1⟩) outer.1
  · apply saturate_mono
    exact Int.le_trans outer.2 (Int.max_le.2 ⟨Int.le_trans lower.2 (Int.le_max_left _ _),
      Int.le_trans upper.2 (Int.le_max_right _ _)⟩)

variable {left right left' right' : Interval}

theorem proper_mul (hl : left.Proper) (hr : right.Proper) : (left * right).Proper := by
  have corner := product_between ⟨Int.le_refl left.lo, hl⟩ ⟨Int.le_refl right.lo, hr⟩
  exact Int.le_trans corner.1 corner.2

theorem Inside.mul (hl : left'.Inside left) (hr : right'.Inside right) (pl : left'.Proper)
    (pr : right'.Proper) : (left' * right').Inside (left * right) := by
  have low : left.lo ≤ left'.lo ∧ left'.lo ≤ left.hi := ⟨hl.1, Int.le_trans pl hl.2⟩
  have high : left.lo ≤ left'.hi ∧ left'.hi ≤ left.hi := ⟨Int.le_trans hl.1 pl, hl.2⟩
  have low' : right.lo ≤ right'.lo ∧ right'.lo ≤ right.hi := ⟨hr.1, Int.le_trans pr hr.2⟩
  have high' : right.lo ≤ right'.hi ∧ right'.hi ≤ right.hi := ⟨Int.le_trans hr.1 pr, hr.2⟩
  have ll := product_between low low'
  have lh := product_between low high'
  have hl := product_between high low'
  have hh := product_between high high'
  constructor
  · exact Int.le_min.2 ⟨Int.le_min.2 ⟨ll.1, lh.1⟩, Int.le_min.2 ⟨hl.1, hh.1⟩⟩
  · exact Int.max_le.2 ⟨Int.max_le.2 ⟨ll.2, lh.2⟩, Int.max_le.2 ⟨hl.2, hh.2⟩⟩

end Products

section Bytes

variable {inner outer : Interval}

theorem proper_lowByte (proper : inner.Proper) : inner.lowByte.Proper := by
  unfold Proper at proper
  unfold lowByte Proper
  split
  · dsimp only
    omega
  · decide

theorem Inside.lowByte (inside : inner.Inside outer) (proper : inner.Proper) :
    inner.lowByte.Inside outer.lowByte := by
  unfold Interval.Inside at inside
  unfold Proper at proper
  unfold Interval.lowByte Interval.Inside
  split <;> split <;> dsimp only <;> omega

theorem proper_highByte (proper : inner.Proper) : inner.highByte.Proper := by
  unfold Proper at proper
  unfold highByte Proper
  dsimp only
  omega

theorem Inside.highByte (inside : inner.Inside outer) : inner.highByte.Inside outer.highByte := by
  unfold Interval.Inside at inside
  unfold Interval.highByte Interval.Inside
  dsimp only
  omega

theorem proper_clampNegative (range : Interval) : range.clampNegative.Proper :=
  Int.le_max_right range.hi (max range.lo 0)

/-- The clamp changes an interval only if some value in it is negative or none is in it at all. -/
theorem clampNegative_eq_self_iff (range : Interval) :
    range.clampNegative = range ↔ range.Proper ∧ 0 ≤ range.lo := by
  obtain ⟨lo, hi⟩ := range
  simp only [Interval.clampNegative, Proper, Interval.mk.injEq]
  omega

/-- An improper inner interval would be widened by the clamp. -/
theorem Inside.clampNegative (inside : inner.Inside outer) (proper : inner.Proper) :
    inner.clampNegative.Inside outer.clampNegative := by
  unfold Interval.Inside at inside
  unfold Proper at proper
  unfold Interval.clampNegative Interval.Inside
  dsimp only
  omega

end Bytes

end Interval
end Micro65
