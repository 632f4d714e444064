import Micro65.Proofs.Expr.Evaluation

set_option autoImplicit false

/-!
Agreement of the two evaluations of an operand. Classification takes a difference of addresses for one
that does not become negative; in everything else it finds the interval that the operand has. So the page
for which a mode has been chosen is the page of the value that is encoded. Which class an operand is of is
seen from its shape, whatever is known of its labels.
-/

namespace Micro65

namespace Expr

/-- Somewhere in the operand an address is subtracted from an address. -/
def hasDistance (labels : Labels) : Expr → Bool
  | literal _ | label _ | register _ => false
  | address inner | indirect inner | half _ inner => inner.hasDistance labels
  | add left right | mul left right => left.hasDistance labels || right.hasDistance labels
  | sub left right =>
    left.hasDistance labels || right.hasDistance labels ||
      ((left.classify labels).1 == .address && (right.classify labels).1 == .address)

/-- Wherever an address is subtracted from an address, the difference is known not to be negative. -/
def Forward (labels : Labels) (expr : Expr) : Prop :=
  ∀ left right, sub left right ∈ expr.parts →
    (left.classify labels).1 = .address → (right.classify labels).1 = .address →
      ∀ range, (sub left right).range labels = .ok range → range.Proper ∧ 0 ≤ range.lo

variable {labels : Labels} {expr : Expr}

/-! ### Distances -/

theorem hasDistance_children (plain : expr.hasDistance labels = false) :
    ∀ child ∈ expr.children, child.hasDistance labels = false := by
  cases expr <;> simp_all [children, hasDistance]

theorem hasDistance_eq_false_iff : expr.hasDistance labels = false ↔
    ∀ left right, sub left right ∈ expr.parts →
      ¬((left.classify labels).1 = .address ∧ (right.classify labels).1 = .address) := by
  constructor
  · intro plain left right part
    have own := forall_parts hasDistance_children plain _ part
    simp_all [hasDistance]
  · intro apart
    induction expr with
    | literal value => rfl
    | label name => rfl
    | register which => rfl
    | address inner inductionHypothesis | indirect inner inductionHypothesis
    | half side inner inductionHypothesis =>
      exact inductionHypothesis fun left right part =>
        apart left right (List.mem_cons_of_mem _ part)
    | add left right leftHypothesis rightHypothesis
    | mul left right leftHypothesis rightHypothesis =>
      have first := leftHypothesis fun before after part =>
        apart before after (List.mem_cons_of_mem _ (List.mem_append_left _ part))
      have second := rightHypothesis fun before after part =>
        apart before after (List.mem_cons_of_mem _ (List.mem_append_right _ part))
      rw [hasDistance, first, second, Bool.or_self]
    | sub left right leftHypothesis rightHypothesis =>
      have first := leftHypothesis fun before after part =>
        apart before after (List.mem_cons_of_mem _ (List.mem_append_left _ part))
      have second := rightHypothesis fun before after part =>
        apart before after (List.mem_cons_of_mem _ (List.mem_append_right _ part))
      have own := apart left right (self_mem_parts _)
      rw [hasDistance, first, second, Bool.or_self, Bool.false_or]
      simpa using own

theorem Forward.of_plain (plain : expr.hasDistance labels = false) : Forward labels expr :=
  fun left right part addressLeft addressRight =>
    absurd ⟨addressLeft, addressRight⟩ (hasDistance_eq_false_iff.1 plain left right part)

theorem Forward.children (forward : Forward labels expr) :
    ∀ child ∈ expr.children, Forward labels child :=
  fun _ member left right part => forward left right (parts_subset member part)

/-! ### Intervals -/

/-- Where an operand is classified as a value or an address, it evaluates to the interval found. -/
def Agrees (classified : OperandClass × Interval) (evaluated : Except AsmError Interval) : Prop :=
  classified.1 = .value ∨ classified.1 = .address → evaluated = .ok classified.2

theorem Agrees.compound (evaluated : Except AsmError Interval) :
    Agrees classify.compound evaluated := by
  rintro (static | static) <;> contradiction

/-- What is joined from two static operands. -/
theorem Agrees.join {kind kindLeft kindRight : OperandClass} {a b : Interval}
    {left right : Except AsmError Interval} (join : Interval → Interval → Interval)
    (agreesLeft : Agrees (kindLeft, a) left) (agreesRight : Agrees (kindRight, b) right)
    (staticLeft : kindLeft = .value ∨ kindLeft = .address)
    (staticRight : kindRight = .value ∨ kindRight = .address) :
    Agrees (kind, join a b) (do return join (← left) (← right)) := by
  intro _
  rw [agreesLeft staticLeft, agreesRight staticRight]
  rfl

/-- A distance that is not negative is not changed by the clamp. -/
theorem Agrees.distance {a b : Interval} {left right : Except AsmError Interval}
    (agreesLeft : Agrees (.address, a) left) (agreesRight : Agrees (.address, b) right)
    (forward : ∀ range, (do return (← left) - (← right)) = Except.ok range →
      range.Proper ∧ 0 ≤ range.lo) :
    Agrees (.value, (a - b).clampNegative) (do return (← left) - (← right)) := by
  intro _
  rw [agreesLeft (.inr rfl), agreesRight (.inr rfl)] at forward ⊢
  rw [(Interval.clampNegative_eq_self_iff _).2 (forward (a - b) rfl)]
  rfl

/-- Unless a distance is negative, the two evaluations agree. -/
theorem classify_agrees (forward : Forward labels expr)
    (defined : ∀ name ∈ expr.labels, name ∈ labels.names) :
    Agrees (expr.classify labels) (expr.range labels) := by
  induction expr with
  | literal value => exact fun _ => rfl
  | label name =>
    obtain ⟨held, found⟩ := Option.isSome_iff_exists.1
      ((Labels.isSome_get?_iff labels name).2 (defined name List.mem_cons_self))
    simp only [Agrees, classify, Expr.range, found]
    exact fun _ => rfl
  | register which => rintro (static | static) <;> contradiction
  | indirect inner => exact .compound _
  | address inner inductionHypothesis =>
    have agrees := inductionHypothesis (forward.children _ List.mem_cons_self) defined
    rcases known : inner.classify labels with ⟨kind, range⟩
    rw [known] at agrees
    simp only [classify, known]
    cases kind with
    | value => exact fun _ => agrees (.inl rfl)
    | address => exact fun _ => agrees (.inr rfl)
    | register which => exact .compound _
    | compound => exact .compound _
  | half side inner inductionHypothesis =>
    have agrees := inductionHypothesis (forward.children _ List.mem_cons_self) defined
    rcases known : inner.classify labels with ⟨kind, range⟩
    rw [known] at agrees
    simp only [classify, known, Expr.range]
    cases kind with
    | value =>
      rw [agrees (.inl rfl)]
      exact fun _ => rfl
    | address =>
      rw [agrees (.inr rfl)]
      exact fun _ => rfl
    | register which => exact .compound _
    | compound => exact .compound _
  | add left right leftHypothesis rightHypothesis =>
    rw [Expr.labels, List.forall_mem_append] at defined
    have ahead := forward.children
    have agreesLeft := leftHypothesis (ahead left List.mem_cons_self) defined.1
    have agreesRight := rightHypothesis (ahead right (by simp [children])) defined.2
    rcases known : left.classify labels with ⟨kindLeft, a⟩
    rcases other : right.classify labels with ⟨kindRight, b⟩
    rw [known] at agreesLeft
    rw [other] at agreesRight
    simp only [classify, known, other, Expr.range]
    cases kindLeft <;> cases kindRight <;>
      first
        | exact .compound _
        | exact agreesLeft.join (· + ·) agreesRight (by decide) (by decide)
  | sub left right leftHypothesis rightHypothesis =>
    rw [Expr.labels, List.forall_mem_append] at defined
    have ahead := forward.children
    have agreesLeft := leftHypothesis (ahead left List.mem_cons_self) defined.1
    have agreesRight := rightHypothesis (ahead right (by simp [children])) defined.2
    -- Only here do the two differ: a negative distance would be clamped by the one.
    have positive := forward left right (self_mem_parts _)
    rcases known : left.classify labels with ⟨kindLeft, a⟩
    rcases other : right.classify labels with ⟨kindRight, b⟩
    rw [known] at agreesLeft positive
    rw [other] at agreesRight positive
    simp only [classify, known, other, Expr.range]
    cases kindLeft <;> cases kindRight <;>
      first
        | exact .compound _
        | exact agreesLeft.join (· - ·) agreesRight (by decide) (by decide)
        | exact agreesLeft.distance agreesRight (positive rfl rfl)
  | mul left right leftHypothesis rightHypothesis =>
    rw [Expr.labels, List.forall_mem_append] at defined
    have ahead := forward.children
    have agreesLeft := leftHypothesis (ahead left List.mem_cons_self) defined.1
    have agreesRight := rightHypothesis (ahead right (by simp [children])) defined.2
    rcases known : left.classify labels with ⟨kindLeft, a⟩
    rcases other : right.classify labels with ⟨kindRight, b⟩
    rw [known] at agreesLeft
    rw [other] at agreesRight
    simp only [classify, known, other, Expr.range]
    cases kindLeft <;> cases kindRight <;>
      first
        | exact .compound _
        | exact agreesLeft.join (· * ·) agreesRight (by decide) (by decide)

/-! ### Classes -/

/-- Two tables classify an operand alike, each with its interval. -/
theorem classify_alike (labels other : Labels) (expr : Expr) : ∃ kind range range',
    expr.classify labels = (kind, range) ∧ expr.classify other = (kind, range') := by
  induction expr with
  | literal value => exact ⟨_, _, _, rfl, rfl⟩
  | label name => exact ⟨_, _, _, rfl, rfl⟩
  | register which => exact ⟨_, _, _, rfl, rfl⟩
  | indirect inner => exact ⟨_, _, _, rfl, rfl⟩
  | address inner inductionHypothesis | half side inner inductionHypothesis =>
    obtain ⟨kind, range, range', known, known'⟩ := inductionHypothesis
    simp only [classify, known, known']
    cases kind <;> exact ⟨_, _, _, rfl, rfl⟩
  | add left right leftHypothesis rightHypothesis | sub left right leftHypothesis rightHypothesis
  | mul left right leftHypothesis rightHypothesis =>
    obtain ⟨kindLeft, a, a', known, known'⟩ := leftHypothesis
    obtain ⟨kindRight, b, b', same, same'⟩ := rightHypothesis
    simp only [classify, known, known', same, same']
    cases kindLeft <;> cases kindRight <;> exact ⟨_, _, _, rfl, rfl⟩

/-- The two evaluations agree. As soon as its labels are defined, an operand that is classified as a value or
an address evaluates, and to the interval found unless an address is subtracted from an address inside it.
Its class is the same under every table. -/
theorem evaluations_agree (expr : Expr) :
    (∀ labels : Labels, (∀ name ∈ expr.labels, name ∈ labels.names) →
      ∀ kind range, expr.classify labels = (kind, range) → kind = .value ∨ kind = .address →
        ∃ range', expr.range labels = .ok range' ∧
          ((∀ left right, sub left right ∈ expr.parts →
            ¬((left.classify labels).1 = .address ∧ (right.classify labels).1 = .address)) →
              range' = range)) ∧
    ∀ labels other : Labels, (expr.classify labels).1 = (expr.classify other).1 := by
  refine ⟨fun labels defined kind range classified static => ?_, fun labels other => ?_⟩
  · have known : Known (expr.classify labels) := by
      rw [classified]
      exact static
    obtain ⟨range', evaluated⟩ := exists_range_of_known known defined
    refine ⟨range', evaluated, fun apart => ?_⟩
    have agrees := classify_agrees (.of_plain (hasDistance_eq_false_iff.2 apart)) defined
    rw [classified, evaluated] at agrees
    exact Except.ok.inj (agrees static)
  · obtain ⟨kind, range, range', known, known'⟩ := classify_alike labels other expr
    rw [known, known']

/-- The low byte of an address in front of a label. Where the label is not known it is still a value, but it
may be any byte. -/
theorem evaluations_agree_low_byte : ∃ (labels : Labels) (expr : Expr),
    expr = half .low (sub (label "a") (mul (literal 2) (literal 3))) ∧
    (∀ name ∈ expr.labels, name ∈ labels.names) ∧
    expr.classify labels = (.value, ⟨0xF2, 0xF9⟩) ∧ expr.range labels = .ok ⟨0xF2, 0xF9⟩ ∧
    expr.classify .empty = (.value, ⟨0x00, 0xFF⟩) ∧
    (expr.classify labels).1 = (expr.classify .empty).1 := by
  have defined : ∀ name ∈ (half .low (sub (label "a") (mul (literal 2) (literal 3)))).labels,
      name ∈ (Labels.ofRanges [("a", ⟨0x12F8, 0x12FF⟩)]).names := by decide
  have classified : (half .low (sub (label "a") (mul (literal 2) (literal 3)))).classify
      (.ofRanges [("a", ⟨0x12F8, 0x12FF⟩)]) = (.value, ⟨0xF2, 0xF9⟩) := rfl
  obtain ⟨agree, same⟩ := evaluations_agree (half .low (sub (label "a") (mul (literal 2) (literal 3))))
  obtain ⟨range, evaluated, equal⟩ := agree _ defined _ _ classified (.inl rfl)
  have plain : range = ⟨0xF2, 0xF9⟩ := equal fun left right part => by
    simp only [parts, List.mem_cons, List.mem_append] at part
    obtain ⟨rfl, rfl⟩ : left = label "a" ∧ right = mul (literal 2) (literal 3) := by simpa using part
    exact fun addresses => by cases addresses.2
  exact ⟨_, _, rfl, defined, classified, plain ▸ evaluated, rfl, same _ _⟩

/-- The distance from a label further on is negative, and classification takes it for zero. -/
example : (sub (label "a") (label "b")).classify (.ofRanges [("a", .point 0x10), ("b", ⟨0x20, 0x30⟩)]) =
      (.value, .point 0) ∧
    (sub (label "a") (label "b")).range (.ofRanges [("a", .point 0x10), ("b", ⟨0x20, 0x30⟩)]) =
      .ok ⟨-0x20, -0x10⟩ :=
  ⟨rfl, rfl⟩

end Expr

/-! ### Pages -/

namespace Mode

/-- All values of an interval are such as the mode encodes: those of one byte, or those of two that do
not fit into one. -/
def Covers (mode : Mode) (range : Interval) : Prop :=
  (mode.operandLength = 1 → range.within 0x00 0xFF = true) ∧
    (mode.operandLength = 2 → range.within 0x100 0xFFFF = true)

/-- A mode covers the values of what it encodes. -/
theorem Fits.covers {mode : Mode} {classified : OperandClass × Interval}
    (fits : mode.Fits classified) : mode.Covers classified.2 := by
  cases mode <;>
    first
      | exact ⟨fun _ => fits.2, nofun⟩
      | exact ⟨nofun, fun _ => fits.2⟩
      | contradiction

end Mode

namespace Expr

variable {labels : Labels} {expr param : Expr} {mode : Mode}

/-- What the encoded operand evaluates to is covered by the mode. -/
def Paged (labels : Labels) (mode : Mode) (param : Expr) : Prop :=
  ∃ range, param.range labels = .ok range ∧ mode.Covers range

/-- A mode covers all values of the operand that it was chosen for. -/
theorem mode_paged (forward : Forward labels expr)
    (defined : ∀ name ∈ expr.labels, name ∈ labels.names)
    (chosen : expr.mode labels = .ok (mode, some param)) : Paged labels mode param := by
  obtain ⟨part, fits⟩ := encodes_of_mode chosen
  have agrees := classify_agrees (forall_parts Forward.children forward param part)
    (forall_parts defined_children defined param part)
  exact ⟨_, agrees fits.known, fits.covers⟩

end Expr
end Micro65
