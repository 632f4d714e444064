import Micro65.Proofs.Expr.Modes
import Micro65.Proofs.Labels.Tables

set_option autoImplicit false

/-!
Operands under a table that knows more. What an operand evaluates to can only become narrower, its
class stays as it is, and a mode that has been chosen is chosen again: a decision that was possible
with less knowledge holds for good.
-/

namespace Micro65

theorem Half.proper_range (side : Half) {range : Interval} (proper : range.Proper) :
    (side.range range).Proper := by
  cases side with
  | low => exact Interval.proper_lowByte proper
  | high => exact Interval.proper_highByte proper

theorem Half.range_inside (side : Half) {inner outer : Interval} (inside : inner.Inside outer)
    (proper : inner.Proper) : (side.range inner).Inside (side.range outer) := by
  cases side with
  | low => exact inside.lowByte proper
  | high => exact inside.highByte

/-- The failures that a narrower interval can do away with. -/
def AsmError.isOpen : AsmError → Bool
  | .valueOutOfRange _ _ | .ambiguousPageZero _ _ => true
  | _ => false

namespace Expr

variable {inner outer : Labels}

/-- Wherever the outer result is an interval, the inner one is a proper interval inside it. -/
def Narrows (inner outer : Except AsmError Interval) : Prop :=
  ∀ range, outer = .ok range → ∃ range', inner = .ok range' ∧ range'.Inside range ∧ range'.Proper

/-- What is joined from two results narrows with them, if the join is monotone. -/
theorem Narrows.join {left left' right right' : Except AsmError Interval}
    {join : Interval → Interval → Interval}
    (keep : ∀ {a a' b b'}, a'.Inside a → b'.Inside b → a'.Proper → b'.Proper →
      (join a' b').Inside (join a b) ∧ (join a' b').Proper)
    (narrowLeft : Narrows left' left) (narrowRight : Narrows right' right) :
    Narrows (do return join (← left') (← right')) (do return join (← left) (← right)) := by
  intro range evaluated
  rw [except_bind_eq_ok_iff] at evaluated
  obtain ⟨a, evaluatedLeft, evaluated⟩ := evaluated
  rw [except_bind_eq_ok_iff] at evaluated
  obtain ⟨b, evaluatedRight, joined⟩ := evaluated
  cases joined
  obtain ⟨a', rfl, insideLeft, properLeft⟩ := narrowLeft a evaluatedLeft
  obtain ⟨b', rfl, insideRight, properRight⟩ := narrowRight b evaluatedRight
  exact ⟨join a' b', rfl, keep insideLeft insideRight properLeft properRight⟩

/-- An operand depends on the labels that it mentions and on no others. -/
theorem range_congr {labels other : Labels} {expr : Expr}
    (same : ∀ name ∈ expr.labels, labels.get? name = other.get? name) :
    expr.range labels = expr.range other := by
  induction expr with
  | literal value => rfl
  | label name => rw [range, range, same name (by simp [Expr.labels])]
  | register which => rfl
  | indirect inner => rfl
  | address inner inductionHypothesis => exact inductionHypothesis same
  | half side inner inductionHypothesis => rw [range, range, inductionHypothesis same]
  | add left right leftHypothesis rightHypothesis =>
    simp only [Expr.labels, List.forall_mem_append] at same
    rw [range, range, leftHypothesis same.1, rightHypothesis same.2]
  | sub left right leftHypothesis rightHypothesis =>
    simp only [Expr.labels, List.forall_mem_append] at same
    rw [range, range, leftHypothesis same.1, rightHypothesis same.2]
  | mul left right leftHypothesis rightHypothesis =>
    simp only [Expr.labels, List.forall_mem_append] at same
    rw [range, range, leftHypothesis same.1, rightHypothesis same.2]

theorem range_narrows (within : inner.Within outer) (proper : inner.Proper) (expr : Expr) :
    Narrows (expr.range inner) (expr.range outer) := by
  induction expr with
  | literal value =>
    intro range evaluated
    cases evaluated
    exact ⟨_, rfl, Interval.inside_refl _, Interval.proper_point _⟩
  | label name =>
    intro range evaluated
    simp only [Expr.range] at evaluated ⊢
    split at evaluated
    next held found =>
      cases evaluated
      obtain ⟨range', found', inside⟩ := within.get? found
      rw [found']
      exact ⟨range', rfl, inside, proper name range' found'⟩
    next => contradiction
  | register which =>
    intro range evaluated
    contradiction
  | address expr inductionHypothesis => exact inductionHypothesis
  | indirect expr =>
    intro range evaluated
    contradiction
  | add left right leftHypothesis rightHypothesis =>
    exact Narrows.join (fun insideLeft insideRight properLeft properRight =>
      ⟨insideLeft.add insideRight, Interval.proper_add properLeft properRight⟩)
      leftHypothesis rightHypothesis
  | sub left right leftHypothesis rightHypothesis =>
    exact Narrows.join (fun insideLeft insideRight properLeft properRight =>
      ⟨insideLeft.sub insideRight, Interval.proper_sub properLeft properRight⟩)
      leftHypothesis rightHypothesis
  | mul left right leftHypothesis rightHypothesis =>
    exact Narrows.join (fun insideLeft insideRight properLeft properRight =>
      ⟨insideLeft.mul insideRight properLeft properRight,
        Interval.proper_mul properLeft properRight⟩)
      leftHypothesis rightHypothesis
  | half side expr inductionHypothesis =>
    intro range evaluated
    rw [Expr.range, except_bind_eq_ok_iff] at evaluated
    obtain ⟨whole, evaluatedWhole, halved⟩ := evaluated
    cases halved
    obtain ⟨range', evaluated', inside, proper'⟩ := inductionHypothesis whole evaluatedWhole
    rw [Expr.range, evaluated']
    exact ⟨_, rfl, side.range_inside inside proper', side.proper_range proper'⟩

/-- What an operand evaluates to under a table that knows more lies inside. -/
theorem range_inside (within : inner.Within outer) (proper : inner.Proper) {expr : Expr}
    {range range' : Interval} (evaluated : expr.range inner = .ok range')
    (evaluatedOuter : expr.range outer = .ok range) : range'.Inside range := by
  obtain ⟨narrow, again, inside, -⟩ := expr.range_narrows within proper range evaluatedOuter
  rw [evaluated, Except.ok.injEq] at again
  rw [again]
  exact inside

theorem proper_range {labels : Labels} (proper : labels.Proper) (expr : Expr) {range : Interval}
    (evaluated : expr.range labels = .ok range) : range.Proper := by
  obtain ⟨range', evaluated', -, proper'⟩ :=
    expr.range_narrows (Labels.Within.refl labels) proper range evaluated
  rw [evaluated, Except.ok.injEq] at evaluated'
  exact evaluated' ▸ proper'

/-- The one classification is of the same class as the other, and its interval lies inside. -/
structure Narrower (inner outer : OperandClass × Interval) : Prop where
  sameClass : inner.1 = outer.1
  inside : inner.2.Inside outer.2
  proper : inner.2.Proper

theorem narrower_compound : Narrower classify.compound classify.compound :=
  ⟨rfl, Interval.inside_refl _, Interval.proper_unknown⟩

/-- Two classifications of the same class, each with its interval. -/
theorem Narrower.pair {inner outer : OperandClass × Interval} (narrower : Narrower inner outer) :
    ∃ kind range range', inner = (kind, range') ∧ outer = (kind, range) ∧ range'.Inside range ∧
      range'.Proper :=
  ⟨outer.1, outer.2, inner.2, Prod.ext narrower.sameClass rfl, rfl, narrower.inside,
    narrower.proper⟩

theorem classify_narrows (within : inner.Within outer) (proper : inner.Proper) (expr : Expr) :
    Narrower (expr.classify inner) (expr.classify outer) := by
  induction expr with
  | literal value => exact ⟨rfl, Interval.inside_refl _, Interval.proper_point _⟩
  | label name =>
    have same := within name
    have known := proper name
    simp only [classify]
    generalize inner.get? name = a at same known ⊢
    generalize outer.get? name = b at same ⊢
    cases same with
    | none => exact ⟨rfl, Interval.inside_refl _, Interval.proper_unknown⟩
    | some inside => exact ⟨rfl, inside, known _ rfl⟩
  | register which => exact ⟨rfl, Interval.inside_refl _, Interval.proper_unknown⟩
  | indirect expr => exact narrower_compound
  | address expr inductionHypothesis =>
    obtain ⟨kind, range, range', known, known', inside, properRange⟩ := inductionHypothesis.pair
    simp only [classify, known, known']
    cases kind with
    | value => exact ⟨rfl, inside, properRange⟩
    | address => exact ⟨rfl, inside, properRange⟩
    | register which => exact narrower_compound
    | compound => exact narrower_compound
  | half side expr inductionHypothesis =>
    obtain ⟨kind, range, range', known, known', inside, properRange⟩ := inductionHypothesis.pair
    simp only [classify, known, known']
    cases kind with
    | value => exact ⟨rfl, side.range_inside inside properRange, side.proper_range properRange⟩
    | address => exact ⟨rfl, side.range_inside inside properRange, side.proper_range properRange⟩
    | register which => exact narrower_compound
    | compound => exact narrower_compound
  | add left right leftHypothesis rightHypothesis =>
    obtain ⟨kindLeft, a, a', known, known', insideLeft, properLeft⟩ := leftHypothesis.pair
    obtain ⟨kindRight, b, b', other, other', insideRight, properRight⟩ := rightHypothesis.pair
    simp only [classify, known, known', other, other']
    have inside := insideLeft.add insideRight
    have proper := Interval.proper_add properLeft properRight
    cases kindLeft <;> cases kindRight <;>
      first
        | exact narrower_compound
        | exact ⟨rfl, inside, proper⟩
  | sub left right leftHypothesis rightHypothesis =>
    obtain ⟨kindLeft, a, a', known, known', insideLeft, properLeft⟩ := leftHypothesis.pair
    obtain ⟨kindRight, b, b', other, other', insideRight, properRight⟩ := rightHypothesis.pair
    simp only [classify, known, known', other, other']
    have inside := insideLeft.sub insideRight
    have proper := Interval.proper_sub properLeft properRight
    cases kindLeft <;> cases kindRight <;>
      first
        | exact narrower_compound
        | exact ⟨rfl, inside, proper⟩
        | exact ⟨rfl, inside.clampNegative proper, Interval.proper_clampNegative _⟩
  | mul left right leftHypothesis rightHypothesis =>
    obtain ⟨kindLeft, a, a', known, known', insideLeft, properLeft⟩ := leftHypothesis.pair
    obtain ⟨kindRight, b, b', other, other', insideRight, properRight⟩ := rightHypothesis.pair
    simp only [classify, known, known', other, other']
    have inside := insideLeft.mul insideRight properLeft properRight
    have proper := Interval.proper_mul properLeft properRight
    cases kindLeft <;> cases kindRight <;>
      first
        | exact narrower_compound
        | exact ⟨rfl, inside, proper⟩

/-- The one result is the other, unless the other failed for an interval that is too wide. -/
def Settles {α : Type} (inner outer : Except AsmError α) : Prop :=
  inner = outer ∨ ∃ failure, outer = .error failure ∧ failure.isOpen = true

theorem Settles.bind {α β : Type} {first first' : Except AsmError α}
    {next next' : α → Except AsmError β} (settles : Settles first' first)
    (settlesNext : ∀ value, Settles (next' value) (next value)) :
    Settles (first' >>= next') (first >>= next) := by
  rcases settles with rfl | ⟨failure, rfl, isOpen⟩
  · cases first' with
    | error failure => exact .inl rfl
    | ok value => exact settlesNext value
  · exact .inr ⟨failure, rfl, isOpen⟩

theorem Settles.eq_ok {α : Type} {first first' : Except AsmError α} {value : α}
    (settles : Settles first' first) (done : first = .ok value) : first' = .ok value := by
  rcases settles with same | ⟨failure, failed, -⟩
  · exact same.trans done
  · exact absurd (failed.symm.trans done) (by simp)

theorem valueMode_settles (expr : Expr) {range range' : Interval} (inside : range'.Inside range) :
    Settles (expr.valueMode range') (expr.valueMode range) := by
  unfold valueMode
  by_cases bounded : range.within 0x00 0xFF = true
  · rw [if_pos bounded, if_pos (inside.within bounded)]
    exact .inl rfl
  · rw [if_neg bounded]
    exact .inr ⟨.valueOutOfRange range.lo range.hi, rfl, rfl⟩

/-- The page that is known of an interval is the page of every part of it. -/
theorem addressMode_settles (expr : Expr) {range range' : Interval} (inside : range'.Inside range)
    (proper : range'.Proper) : Settles (expr.addressMode range') (expr.addressMode range) := by
  unfold addressMode
  by_cases bounded : range.within 0x0000 0xFFFF = true
  · by_cases ambiguous : range.lo < 0x100 ∧ 0x100 ≤ range.hi
    · refine .inr ⟨.ambiguousPageZero range.lo range.hi, ?_, rfl⟩
      rw [bounded, if_neg (by simp), if_pos ambiguous]
    · have part := inside.within bounded
      unfold Interval.Inside at inside
      unfold Interval.Proper at proper
      have clear : ¬(range'.lo < 0x100 ∧ 0x100 ≤ range'.hi) := by omega
      have page : range'.hi < 0x100 ↔ range.hi < 0x100 := by omega
      rw [bounded, part, if_neg ambiguous, if_neg clear]
      simp only [page]
      exact .inl rfl
  · refine .inr ⟨.valueOutOfRange range.lo range.hi, ?_, rfl⟩
    rw [Bool.not_eq_true] at bounded
    rw [bounded, if_pos (by simp)]

/-- The classes that intervals decide keep their mode; what is left is decided by shape. -/
theorem mode_settles_of_compound (within : inner.Within outer) (proper : inner.Proper) {expr : Expr}
    (byShape : Settles (expr.compoundMode inner) (expr.compoundMode outer)) :
    Settles (expr.mode inner) (expr.mode outer) := by
  obtain ⟨kind, range, range', known, known', inside, properRange⟩ :=
    (expr.classify_narrows within proper).pair
  rw [mode, mode, known, known']
  cases kind with
  | value => exact expr.valueMode_settles inside
  | address => exact expr.addressMode_settles inside properRange
  | register which => exact .inl rfl
  | compound => exact byShape.bind fun _ => .inl rfl

theorem mode_settles (within : inner.Within outer) (proper : inner.Proper) (expr : Expr) :
    Settles (expr.mode inner) (expr.mode outer) := by
  induction expr with
  | add left right leftHypothesis rightHypothesis =>
    refine mode_settles_of_compound within proper ?_
    simp only [compoundMode]
    exact leftHypothesis.bind fun _ => rightHypothesis.bind fun _ => .inl rfl
  | indirect expr inductionHypothesis =>
    refine mode_settles_of_compound within proper ?_
    simp only [compoundMode]
    exact inductionHypothesis.bind fun _ => .inl rfl
  | _ =>
    refine mode_settles_of_compound within proper ?_
    simp only [compoundMode]
    exact .inl rfl

theorem mode_narrows (within : inner.Within outer) (proper : inner.Proper) (expr : Expr)
    {result : Mode × Option Expr} (chosen : expr.mode outer = .ok result) :
    expr.mode inner = .ok result :=
  (expr.mode_settles within proper).eq_ok chosen

/-- Addressing modes are stable: what has been chosen under a table is chosen under every table within it,
with the same parameter, and a failure goes away only if it was one of an interval. -/
theorem mode_stable (within : inner.Within outer) (proper : inner.Proper) (expr : Expr) :
    (∀ mode param, expr.mode outer = .ok (mode, param) → expr.mode inner = .ok (mode, param)) ∧
      ∀ failure, expr.mode outer = .error failure →
        failure.isOpen = true ∨ expr.mode inner = .error failure := by
  have settles := expr.mode_settles within proper
  refine ⟨fun mode param chosen => settles.eq_ok chosen, fun failure failed => ?_⟩
  rcases settles with same | ⟨cause, failed', isOpen⟩
  · exact .inr (same.trans failed)
  · rw [failed, Except.error.injEq] at failed'
    exact .inl (failed' ▸ isOpen)

/-- A distance of a label from itself, of which the wider table knows only that it is no more than
`$10`, inside an indirection that is indexed. -/
theorem mode_stable_distance : ∃ (inner outer : Labels) (expr : Expr), inner.Within outer ∧
    inner.Proper ∧
    expr = add (indirect (add (address (literal 0x40)) (sub (label "a") (label "a")))) (register .y) ∧
    expr.mode outer =
      .ok (.indY, some (add (address (literal 0x40)) (sub (label "a") (label "a")))) ∧
    expr.mode inner =
      .ok (.indY, some (add (address (literal 0x40)) (sub (label "a") (label "a")))) := by
  have within : (Labels.ofRanges [("a", .point 0x308)]).Within
      (.ofRanges [("a", ⟨0x300, 0x310⟩)]) := Labels.within_singleton ⟨by decide, by decide⟩
  have proper : (Labels.ofRanges [("a", .point 0x308)]).Proper :=
    Labels.proper_singleton (Interval.proper_point _)
  have known : (Labels.ofRanges [("a", ⟨0x300, 0x310⟩)]).get? "a" = some ⟨0x300, 0x310⟩ := by
    simp [Labels.get?_singleton]
  have chosen : (add (indirect (add (address (literal 0x40)) (sub (label "a") (label "a"))))
      (register .y)).mode (.ofRanges [("a", ⟨0x300, 0x310⟩)]) =
        .ok (.indY, some (add (address (literal 0x40)) (sub (label "a") (label "a")))) := by
    simp only [mode, classify, classify.compound, compoundMode, known, Option.getD_some]
    rfl
  exact ⟨_, _, _, within, proper, rfl, chosen, (mode_stable within proper _).1 _ _ chosen⟩

end Expr
end Micro65
