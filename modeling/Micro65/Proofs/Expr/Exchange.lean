import Micro65.Proofs.Expr.Agreement

set_option autoImplicit false

/-!
Sums with their sides exchanged. An index may stand on either side of a base, and the interval of a sum does
not depend on the order either; so an operand in which any of its sums are turned round is encoded in the same
mode, with a parameter of the same values.
-/

namespace Micro65

theorem Interval.add_comm (left right : Interval) : left + right = right + left := by
  change left.add right = right.add left
  rw [Interval.add, Interval.add, Int.add_comm left.lo, Int.add_comm left.hi]

namespace Expr

/-- The one expression becomes the other if the sides of some of its sums are exchanged. -/
inductive Exchanged : Expr → Expr → Prop where
  | literal value : Exchanged (literal value) (literal value)
  | label name : Exchanged (label name) (label name)
  | register which : Exchanged (register which) (register which)
  | address {inner inner'} : Exchanged inner inner' → Exchanged (address inner) (address inner')
  | add {left left' right right'} : Exchanged left left' → Exchanged right right' →
      Exchanged (add left right) (add left' right')
  | exchange {left left' right right'} : Exchanged left left' → Exchanged right right' →
      Exchanged (add left right) (add right' left')
  | sub {left left' right right'} : Exchanged left left' → Exchanged right right' →
      Exchanged (sub left right) (sub left' right')
  | mul {left left' right right'} : Exchanged left left' → Exchanged right right' →
      Exchanged (mul left right) (mul left' right')
  | indirect {inner inner'} : Exchanged inner inner' → Exchanged (indirect inner) (indirect inner')
  | half {side inner inner'} : Exchanged inner inner' → Exchanged (half side inner) (half side inner')

variable {labels : Labels} {expr other : Expr}

theorem Exchanged.symm (exchanged : Exchanged expr other) : Exchanged other expr := by
  induction exchanged with
  | literal value => exact .literal value
  | label name => exact .label name
  | register which => exact .register which
  | address _ inner => exact .address inner
  | add _ _ left right => exact .add left right
  | exchange _ _ left right => exact .exchange right left
  | sub _ _ left right => exact .sub left right
  | mul _ _ left right => exact .mul left right
  | indirect _ inner => exact .indirect inner
  | half _ inner => exact .half inner

/-! ### Intervals -/

theorem classify_add_comm (left right : Expr) :
    (add left right).classify labels = (add right left).classify labels := by
  simp only [classify]
  rcases left.classify labels with ⟨kindLeft, a⟩
  rcases right.classify labels with ⟨kindRight, b⟩
  cases kindLeft <;> cases kindRight <;> first | rfl | exact congrArg _ (a.add_comm b)

theorem Exchanged.classify_eq (exchanged : Exchanged expr other) :
    other.classify labels = expr.classify labels := by
  induction exchanged with
  | literal value => rfl
  | label name => rfl
  | register which => rfl
  | indirect _ _ => rfl
  | address _ inner => rw [classify, classify, inner]
  | half _ inner => rw [classify, classify, inner]
  | add _ _ left right => rw [classify, classify, left, right]
  | exchange _ _ left right => rw [classify_add_comm, classify, classify, left, right]
  | sub _ _ left right => rw [classify, classify, left, right]
  | mul _ _ left right => rw [classify, classify, left, right]

/-- Which of two failures is found first depends on the order; the interval does not. -/
theorem Exchanged.range_eq (exchanged : Exchanged expr other) {range : Interval}
    (evaluated : expr.range labels = .ok range) : other.range labels = .ok range := by
  induction exchanged generalizing range with
  | literal value => exact evaluated
  | label name => exact evaluated
  | register which => exact evaluated
  | indirect _ _ => exact evaluated
  | address _ inner => exact inner evaluated
  | half _ inner =>
    rw [Expr.range, except_bind_eq_ok_iff] at evaluated ⊢
    obtain ⟨whole, known, done⟩ := evaluated
    exact ⟨whole, inner known, done⟩
  | add _ _ left right | sub _ _ left right | mul _ _ left right =>
    simp only [Expr.range, except_bind_eq_ok_iff] at evaluated ⊢
    obtain ⟨a, knownLeft, b, knownRight, done⟩ := evaluated
    exact ⟨a, left knownLeft, b, right knownRight, done⟩
  | exchange _ _ left right =>
    simp only [Expr.range, except_bind_eq_ok_iff] at evaluated ⊢
    obtain ⟨a, knownLeft, b, knownRight, done⟩ := evaluated
    exact ⟨b, right knownRight, a, left knownLeft, by rw [Interval.add_comm]; exact done⟩

/-! ### Modes -/

/-- Where the one operand has a mode, the other one has the same, with an exchanged parameter or, as the first
one, with none. -/
def Follows (labels : Labels) (expr other : Expr) : Prop :=
  ∀ mode param, expr.mode labels = .ok (mode, param) →
    ∃ param', other.mode labels = .ok (mode, param') ∧ Option.Rel Exchanged param param'

/-- Operands whose class is known have their mode from their interval; for the others the shape decides. -/
theorem Exchanged.follows_of_compound (exchanged : Exchanged expr other)
    (byShape : ∀ mode param, expr.compoundMode labels = .ok (mode, param) →
      ∃ param', other.compoundMode labels = .ok (mode, param') ∧ Exchanged param param') :
    Follows labels expr other := by
  intro mode param chosen
  rw [Expr.mode] at chosen ⊢
  rw [exchanged.classify_eq]
  split at chosen
  next range _ =>
    unfold valueMode at chosen ⊢
    split at chosen
    next bounded =>
      cases chosen
      exact ⟨_, if_pos bounded, .some exchanged⟩
    next => contradiction
  next range _ =>
    unfold addressMode at chosen ⊢
    split at chosen
    · contradiction
    next bounded =>
      split at chosen
      · contradiction
      next clear =>
        cases chosen
        exact ⟨_, by rw [if_neg bounded, if_neg clear], .some exchanged⟩
  next which range _ =>
    cases chosen
    exact ⟨none, rfl, .none⟩
  next range _ =>
    obtain ⟨⟨mode', param'⟩, shaped, done⟩ := (except_bind_eq_ok_iff _ _ _).1 chosen
    cases done
    obtain ⟨other', shaped', same⟩ := byShape _ _ shaped
    exact ⟨some other', (except_bind_eq_ok_iff _ _ _).2 ⟨_, shaped', rfl⟩, .some same⟩

/-- A sum has the mode of its sides, whichever of them comes first. -/
theorem compoundMode_of_follows {left left' right right' : Expr} {mode : Mode} {param : Expr}
    (followsLeft : Follows labels left left') (followsRight : Follows labels right right')
    (shaped : (add left right).compoundMode labels = .ok (mode, param)) :
    ∃ param', (add left' right').compoundMode labels = .ok (mode, param') ∧
      (add right' left').compoundMode labels = .ok (mode, param') ∧ Exchanged param param' := by
  obtain ⟨⟨modeLeft, paramLeft⟩, ⟨modeRight, paramRight⟩, chosenLeft, chosenRight, indexed⟩ :=
    (compoundMode_add_eq_ok_iff ..).1 shaped
  obtain ⟨paramLeft', chosenLeft', sameLeft⟩ := followsLeft _ _ chosenLeft
  obtain ⟨paramRight', chosenRight', sameRight⟩ := followsRight _ _ chosenRight
  simp only [compoundMode_add_eq_ok_iff, indexedMode_eq_ok_iff] at indexed ⊢
  obtain ⟨indexed, rfl⟩ | ⟨indexed, rfl⟩ := indexed
  · cases sameLeft with
    | @some _ param' same =>
      exact ⟨param', ⟨_, _, chosenLeft', chosenRight', .inl ⟨indexed, rfl⟩⟩,
        ⟨_, _, chosenRight', chosenLeft', .inr ⟨indexed, rfl⟩⟩, same⟩
  · cases sameRight with
    | @some _ param' same =>
      exact ⟨param', ⟨_, _, chosenLeft', chosenRight', .inr ⟨indexed, rfl⟩⟩,
        ⟨_, _, chosenRight', chosenLeft', .inl ⟨indexed, rfl⟩⟩, same⟩

theorem Exchanged.follows (exchanged : Exchanged expr other) : Follows labels expr other := by
  induction exchanged with
  | add left right followsLeft followsRight =>
    refine (Exchanged.add left right).follows_of_compound fun mode param shaped => ?_
    obtain ⟨param', straight, -, same⟩ := compoundMode_of_follows followsLeft followsRight shaped
    exact ⟨param', straight, same⟩
  | exchange left right followsLeft followsRight =>
    refine (Exchanged.exchange left right).follows_of_compound fun mode param shaped => ?_
    obtain ⟨param', -, turned, same⟩ := compoundMode_of_follows followsLeft followsRight shaped
    exact ⟨param', turned, same⟩
  | indirect inner followsInner =>
    refine (Exchanged.indirect inner).follows_of_compound fun mode param shaped => ?_
    obtain ⟨⟨modeInner, paramInner⟩, chosen, shaped⟩ :=
      (compoundMode_indirect_eq_ok_iff ..).1 shaped
    obtain ⟨paramInner', chosen', same⟩ := followsInner _ _ chosen
    obtain ⟨indirect, rfl⟩ := indirectMode_eq_ok shaped
    cases same with
    | @some _ param' same =>
      refine ⟨param', (compoundMode_indirect_eq_ok_iff ..).2 ⟨_, chosen', ?_⟩, same⟩
      simp only [indirectMode, indirect]
  | literal value => exact (Exchanged.literal value).follows_of_compound (by simp [compoundMode])
  | label name => exact (Exchanged.label name).follows_of_compound (by simp [compoundMode])
  | register which => exact (Exchanged.register which).follows_of_compound (by simp [compoundMode])
  | address inner _ => exact (Exchanged.address inner).follows_of_compound (by simp [compoundMode])
  | sub left right _ _ => exact (Exchanged.sub left right).follows_of_compound (by simp [compoundMode])
  | mul left right _ _ => exact (Exchanged.mul left right).follows_of_compound (by simp [compoundMode])
  | half inner _ => exact (Exchanged.half inner).follows_of_compound (by simp [compoundMode])

/-- The order of the sides of sums, at any depth, decides neither whether an operand can be encoded nor its mode,
and its parameter has the same interval. -/
theorem mode_exchanged (exchanged : Exchanged expr other)
    (defined : ∀ name ∈ expr.labels, name ∈ labels.names) :
    ((∃ chosen, expr.mode labels = .ok chosen) ↔ ∃ chosen, other.mode labels = .ok chosen) ∧
      ∀ mode param mode' param', expr.mode labels = .ok (mode, param) →
        other.mode labels = .ok (mode', param') →
        mode' = mode ∧ Option.Rel (fun first second => ∃ range,
          first.range labels = .ok range ∧ second.range labels = .ok range) param param' := by
  have follows : Follows labels expr other := exchanged.follows
  have back : Follows labels other expr := exchanged.symm.follows
  refine ⟨⟨fun ⟨_, chosen⟩ => ?_, fun ⟨_, chosen⟩ => ?_⟩, ?_⟩
  · obtain ⟨_, chosen', -⟩ := follows _ _ chosen
    exact ⟨_, chosen'⟩
  · obtain ⟨_, chosen', -⟩ := back _ _ chosen
    exact ⟨_, chosen'⟩
  · intro mode param mode' param' chosen chosen'
    obtain ⟨param'', again, same⟩ := follows _ _ chosen
    rw [chosen', Except.ok.injEq, Prod.mk.injEq] at again
    obtain ⟨rfl, rfl⟩ := again
    refine ⟨rfl, ?_⟩
    cases same with
    | none => exact .none
    | some same =>
      obtain ⟨part, fits⟩ := encodes_of_mode chosen
      obtain ⟨range, evaluated⟩ := exists_range_of_known fits.known
        (forall_parts defined_children defined _ part)
      exact .some ⟨range, evaluated, same.range_eq evaluated⟩

/-- An index in front of its base, around a pointer whose sum is turned round as well. -/
theorem mode_exchanged_index : ∃ (labels : Labels) (expr other : Expr) (param param' : Expr),
    expr = add (indirect (add (label "p") (literal 2))) (register .y) ∧
    other = add (register .y) (indirect (add (literal 2) (label "p"))) ∧
    Exchanged expr other ∧ (∀ name ∈ expr.labels, name ∈ labels.names) ∧
    expr.mode labels = .ok (.indY, some param) ∧ other.mode labels = .ok (.indY, some param') ∧
    ∃ range, param.range labels = .ok range ∧ param'.range labels = .ok range := by
  have exchanged : Exchanged (add (indirect (add (label "p") (literal 2))) (register .y))
      (add (register .y) (indirect (add (literal 2) (label "p")))) :=
    .exchange (.indirect (.exchange (.label "p") (.literal 2))) (.register .y)
  have defined : ∀ name ∈ (add (indirect (add (label "p") (literal 2))) (register .y)).labels,
      name ∈ (Labels.ofRanges [("p", ⟨0x10, 0x20⟩)]).names := by decide
  have known : (Labels.ofRanges [("p", ⟨0x10, 0x20⟩)]).get? "p" = some ⟨0x10, 0x20⟩ := by
    simp [Labels.get?_singleton]
  have chosen : (add (indirect (add (label "p") (literal 2))) (register .y)).mode
      (.ofRanges [("p", ⟨0x10, 0x20⟩)]) = .ok (.indY, some (add (label "p") (literal 2))) := by
    simp only [Expr.mode, classify, classify.compound, compoundMode, known, Option.getD_some]
    rfl
  obtain ⟨both, same⟩ := mode_exchanged exchanged defined
  obtain ⟨⟨mode', given⟩, chosen'⟩ := both.1 ⟨_, chosen⟩
  obtain ⟨rfl, evaluated⟩ := same _ _ _ _ chosen chosen'
  cases evaluated with
  | some evaluated =>
    exact ⟨_, _, _, _, _, rfl, rfl, exchanged, defined, chosen, chosen', evaluated⟩

end Expr
end Micro65
