import Micro65.Proofs.Expr.Bounds

set_option autoImplicit false

/-!
Values of operands. With one value for each label an operand has one value, computed in 64-bit words that
stop at their limits. The interval of an operand is that value where the labels are known, and holds it
where they are not.
-/

namespace Micro65

/-- The 64-bit word nearest to a number. -/
def nearestWord (value : Int) : Int64 := .ofInt (saturate value)

theorem toInt_nearestWord (value : Int) : (nearestWord value).toInt = saturate value := by
  have bounded := saturate_bounded value
  unfold leastBound greatestBound at bounded
  exact Int64.toInt_ofInt_of_le (by omega) (by omega)

def Half.value : Half → Int64 → Int64
  | low, word => word &&& 0xFF
  | high, word => word >>> 8

/-- A mask of a negative number is taken of its two's complement, as the remainder is. -/
theorem Half.toInt_value_low (word : Int64) : (low.value word).toInt = word.toInt % 256 := by
  have masked : (word.toBitVec &&& 0xFF#64).toNat = word.toBitVec.toNat % 256 := by
    rw [BitVec.toNat_and]
    exact Nat.and_two_pow_sub_one_eq_mod _ 8
  have size := word.toBitVec.isLt
  change (word.toBitVec &&& 0xFF#64).toInt = word.toBitVec.toInt % 256
  rw [BitVec.toInt_eq_toNat_cond, BitVec.toInt_eq_toNat_cond, masked]
  split <;> split <;> omega

theorem Half.toInt_value_high (word : Int64) : (high.value word).toInt = word.toInt / 256 := by
  change (word >>> 8).toBitVec.toInt = _
  rw [Int64.toBitVec_shiftRight]
  change (word.toBitVec.sshiftRight 8).toInt = _
  rw [BitVec.toInt_sshiftRight, Int.shiftRight_eq_div_pow]
  rfl

theorem Half.range_point (side : Half) (word : Int64) :
    side.range (.point word.toInt) = .point (side.value word).toInt := by
  cases side with
  | low =>
    rw [Half.toInt_value_low]
    exact if_pos rfl
  | high =>
    rw [Half.toInt_value_high]
    rfl

namespace Interval

theorem point_sub_point (first second : Int) :
    point first - point second = point (saturate (first - second)) := rfl

theorem point_mul_point (first second : Int) :
    point first * point second = point (saturate (first * second)) := by
  rw [mul_eq]
  simp [point]

theorem Proper.of_inside {inner outer : Interval} (proper : inner.Proper)
    (inside : inner.Inside outer) : outer.Proper :=
  Int.le_trans inside.1 (Int.le_trans proper inside.2)

theorem point_inside_iff (value : Int) (range : Interval) :
    (point value).Inside range ↔ range.contains value = true := by
  simp [Inside, contains, point]

end Interval

namespace Labels

/-- The table knows each of its labels, and these are their values. -/
def Pins (labels : Labels) (values : String → Option Int64) : Prop :=
  ∀ name, labels.get? name = (values name).map fun word => .point word.toInt

/-- Each label of the table has a value in its interval, and no other name has one. -/
def Admits (labels : Labels) (values : String → Option Int64) : Prop :=
  ∀ name, Option.Rel (fun (word : Int64) (range : Interval) => range.contains word.toInt)
    (values name) (labels.get? name)

/-- The table in which each label has its value alone. -/
def pinned (labels : Labels) (values : String → Option Int64) : Labels :=
  ⟨labels.toList.map fun label =>
    { label with range := .point ((values label.name).getD 0).toInt }⟩

theorem get?_pinned (labels : Labels) (values : String → Option Int64) (name : String) :
    (labels.pinned values).get? name =
      (labels.get? name).map fun _ => .point ((values name).getD 0).toInt := by
  unfold get? find? pinned
  rw [List.find?_map]
  change ((labels.toList.find? (·.name == name)).map _).map _ = _
  cases found : labels.toList.find? (·.name == name) with
  | none => rfl
  | some label =>
    have own := List.find?_some found
    rw [beq_iff_eq] at own
    simp only [Option.map_some, own]

variable {labels inner : Labels} {values : String → Option Int64}

theorem Pins.proper (pins : labels.Pins values) : labels.Proper := by
  intro name range held
  rw [pins name, Option.map_eq_some_iff] at held
  obtain ⟨word, -, rfl⟩ := held
  exact Interval.proper_point _

theorem Admits.pins (admits : labels.Admits values) : (labels.pinned values).Pins values := by
  intro name
  have own := admits name
  rw [get?_pinned]
  generalize labels.get? name = held at own ⊢
  generalize values name = given at own ⊢
  cases own with
  | none => rfl
  | some contained => rfl

theorem Admits.within (admits : labels.Admits values) :
    (labels.pinned values).Within labels := by
  intro name
  have own := admits name
  rw [get?_pinned]
  generalize labels.get? name = held at own ⊢
  generalize values name = given at own ⊢
  cases own with
  | none => exact .none
  | some contained => exact .some ((Interval.point_inside_iff _ _).2 contained)

end Labels

namespace Expr

/-- The value of an operand under the values of its labels. -/
def value (values : String → Option Int64) : Expr → Except AsmError Int64
  | literal word => .ok (.ofInt word.toNat)
  | label name =>
    match values name with
    | some word => .ok word
    | none => .error (.unknownLabel name)
  | register _ | indirect _ => .error .nonStaticValue
  | address inner => inner.value values
  | add left right => do
    return nearestWord ((← left.value values).toInt + (← right.value values).toInt)
  | sub left right => do
    return nearestWord ((← left.value values).toInt - (← right.value values).toInt)
  | mul left right => do
    return nearestWord ((← left.value values).toInt * (← right.value values).toInt)
  | half side inner => do return side.value (← inner.value values)

variable {labels : Labels} {values : String → Option Int64}

/-- What is joined from two values that are known is the point of the value that is computed. -/
theorem map_join {join : Interval → Interval → Interval} {op : Int → Int → Int}
    (exactly : ∀ first second,
      join (.point first) (.point second) = .point (saturate (op first second)))
    (left right : Except AsmError Int64) :
    (do return join (← left.map fun word => .point word.toInt)
          (← right.map fun word => .point word.toInt)) =
      Except.map (fun word => .point word.toInt)
        (do return nearestWord (op (← left).toInt (← right).toInt)) := by
  cases left with
  | error failure => rfl
  | ok first =>
    cases right with
    | error failure => rfl
    | ok second =>
      have same : join (.point first.toInt) (.point second.toInt) =
          .point (nearestWord (op first.toInt second.toInt)).toInt := by
        rw [exactly, toInt_nearestWord]
      exact congrArg Except.ok same

theorem range_of_pins (pins : labels.Pins values) (expr : Expr) :
    expr.range labels = (expr.value values).map fun word => .point word.toInt := by
  induction expr with
  | literal word =>
    have bounded := word.toNat_lt
    simp only [range, value, Except.map]
    rw [Int64.toInt_ofInt_of_le (by omega) (by omega)]
  | label name =>
    rw [range, value, pins name]
    cases values name <;> rfl
  | register which => rfl
  | indirect inner => rfl
  | address inner inductionHypothesis => exact inductionHypothesis
  | half side inner inductionHypothesis =>
    rw [range, value, inductionHypothesis]
    cases inner.value values with
    | error failure => rfl
    | ok word => exact congrArg Except.ok (side.range_point word)
  | add left right leftHypothesis rightHypothesis =>
    rw [range, value, leftHypothesis, rightHypothesis]
    exact map_join Interval.point_add_point _ _
  | sub left right leftHypothesis rightHypothesis =>
    rw [range, value, leftHypothesis, rightHypothesis]
    exact map_join Interval.point_sub_point _ _
  | mul left right leftHypothesis rightHypothesis =>
    rw [range, value, leftHypothesis, rightHypothesis]
    exact map_join Interval.point_mul_point _ _

/-- The interval of an operand is inclusion-monotone, exact and sound: under a table that knows more it lies
inside, where all labels are known it is the value of the operand, and that value is never outside. -/
theorem range_sound {inner outer : Labels} (within : inner.Within outer) (proper : inner.Proper)
    (bounded : outer.Bounded) (expr : Expr) :
    (∀ range, expr.range outer = .ok range → range.Proper ∧ range.Bounded ∧
      ∃ range', expr.range inner = .ok range' ∧ range'.Proper ∧ range'.Inside range) ∧
    (∀ values, inner.Pins values →
      expr.range inner = (expr.value values).map fun word => .point word.toInt) ∧
    ∀ values, outer.Admits values → ∀ range, expr.range outer = .ok range →
      ∃ word, expr.value values = .ok word ∧ range.contains word.toInt = true := by
  refine ⟨fun range evaluated => ?_, fun values pins => expr.range_of_pins pins,
    fun values admits range evaluated => ?_⟩
  · obtain ⟨range', evaluated', inside, proper'⟩ := expr.range_narrows within proper range evaluated
    exact ⟨.of_inside proper' inside, expr.range_bounded bounded evaluated, range', evaluated', proper',
      inside⟩
  · have pins := admits.pins
    obtain ⟨range', evaluated', inside, -⟩ :=
      expr.range_narrows admits.within pins.proper range evaluated
    rw [expr.range_of_pins pins] at evaluated'
    cases known : expr.value values with
    | error failure =>
      rw [known] at evaluated'
      contradiction
    | ok word =>
      rw [known] at evaluated'
      cases evaluated'
      exact ⟨word, rfl, (Interval.point_inside_iff _ _).1 inside⟩

/-- The low byte of a difference that lies on one of two pages while `@a` is not known. -/
theorem range_sound_page : ∃ (inner outer : Labels) (values : String → Option Int64) (expr : Expr),
    inner.Within outer ∧ inner.Proper ∧ outer.Bounded ∧ inner.Pins values ∧ outer.Admits values ∧
      expr = half .low (sub (literal 0x10) (mul (label "a") (literal 3))) ∧
      expr.range outer = .ok ⟨0x00, 0xFF⟩ ∧
      (∃ range', expr.range inner = .ok range' ∧ range'.Proper ∧ range'.Inside ⟨0x00, 0xFF⟩) ∧
      expr.range inner = .ok (.point 0xF0) ∧
      ∃ word, expr.value values = .ok word ∧
        (⟨0x00, 0xFF⟩ : Interval).contains word.toInt = true := by
  have within : (Labels.ofRanges [("a", .point 0x60)]).Within (.ofRanges [("a", ⟨-2, 0x60⟩)]) :=
    Labels.within_singleton ⟨by decide, by decide⟩
  have bounded : (Labels.ofRanges [("a", ⟨-2, 0x60⟩)]).Bounded := by
    intro name range held
    rw [Labels.eq_of_get?_singleton held]
    exact ⟨by decide, by decide⟩
  have pins : (Labels.ofRanges [("a", .point 0x60)]).Pins
      fun name => if "a" = name then some 0x60 else none := by
    intro name
    simp only [Labels.get?_singleton]
    split <;> rfl
  have admits : (Labels.ofRanges [("a", ⟨-2, 0x60⟩)]).Admits
      fun name => if "a" = name then some 0x60 else none := by
    intro name
    simp only [Labels.get?_singleton]
    split
    · exact .some (by decide)
    · exact .none
  obtain ⟨narrows, exactly, sound⟩ := range_sound within pins.proper bounded
    (half .low (sub (literal 0x10) (mul (label "a") (literal 3))))
  exact ⟨_, _, _, _, within, pins.proper, bounded, pins, admits, rfl, rfl, (narrows _ rfl).2.2,
    exactly _ pins, sound _ admits _ rfl⟩

end Expr
end Micro65
