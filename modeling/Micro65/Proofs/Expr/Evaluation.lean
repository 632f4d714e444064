import Micro65.Proofs.Expr.Params

set_option autoImplicit false

/-!
Operands that evaluate. Under a table with all their labels the only ones that do not are those with a
register or an indirection in them; so whatever is classified as a value or an address evaluates.
-/

namespace Micro65.Expr

/-- No register and no indirection occurs in the expression. -/
def isStatic : Expr → Bool
  | literal _ | label _ => true
  | register _ | indirect _ => false
  | address inner | half _ inner => inner.isStatic
  | add left right | sub left right | mul left right => left.isStatic && right.isStatic

/-- The expression evaluates, unless it has no value before the program runs. -/
def Evaluates (labels : Labels) (expr : Expr) : Prop :=
  if expr.isStatic = true then ∃ range, expr.range labels = .ok range
  else expr.range labels = .error .nonStaticValue

variable {labels : Labels} {expr left right : Expr}

theorem defined_children {names : List String} (defined : ∀ name ∈ expr.labels, name ∈ names) :
    ∀ child ∈ expr.children, ∀ name ∈ child.labels, name ∈ names := by
  cases expr <;> simp_all [children, Expr.labels, or_imp, forall_and]

theorem Evaluates.join (combine : Interval → Interval → Interval)
    (range : expr.range labels = do return combine (← left.range labels) (← right.range labels))
    (static : expr.isStatic = (left.isStatic && right.isStatic)) (evaluates : left.Evaluates labels)
    (evaluates' : right.Evaluates labels) : expr.Evaluates labels := by
  unfold Evaluates at *
  rw [range, static]
  cases leftStatic : left.isStatic with
  | false =>
    rw [leftStatic, if_neg Bool.false_ne_true] at evaluates
    rw [evaluates]
    rfl
  | true =>
    rw [leftStatic, if_pos rfl] at evaluates
    obtain ⟨first, evaluates⟩ := evaluates
    rw [evaluates, Bool.true_and]
    cases rightStatic : right.isStatic with
    | false =>
      rw [rightStatic, if_neg Bool.false_ne_true] at evaluates'
      rw [evaluates']
      rfl
    | true =>
      rw [rightStatic, if_pos rfl] at evaluates'
      obtain ⟨second, evaluates'⟩ := evaluates'
      rw [evaluates']
      exact ⟨combine first second, rfl⟩

/-- With its labels in the table an expression evaluates, whatever their intervals are. -/
theorem evaluates_of_defined (defined : ∀ name ∈ expr.labels, name ∈ labels.names) :
    expr.Evaluates labels := by
  induction expr with
  | literal value => exact ⟨_, rfl⟩
  | label name =>
    have known := (labels.isSome_get?_iff name).2 (defined name (List.mem_singleton_self name))
    obtain ⟨range, found⟩ := Option.isSome_iff_exists.1 known
    refine ⟨range, ?_⟩
    rw [Expr.range, found]
  | register which => rfl
  | indirect inner inductionHypothesis => rfl
  | address inner inductionHypothesis => exact inductionHypothesis defined
  | half side inner inductionHypothesis =>
    have below := inductionHypothesis defined
    unfold Evaluates at below ⊢
    rw [isStatic, Expr.range]
    split at below
    next static =>
      obtain ⟨range, evaluated⟩ := below
      rw [if_pos static, evaluated]
      exact ⟨side.range range, rfl⟩
    next dynamic =>
      rw [if_neg dynamic, below]
      rfl
  | add left right leftHypothesis rightHypothesis | sub left right leftHypothesis rightHypothesis
  | mul left right leftHypothesis rightHypothesis =>
    have first := leftHypothesis fun name member => defined name (List.mem_append_left _ member)
    have second := rightHypothesis fun name member => defined name (List.mem_append_right _ member)
    exact Evaluates.join _ rfl rfl first second

theorem isStatic_of_known (known : Known (expr.classify labels)) : expr.isStatic = true := by
  have parts := known_children known
  induction expr with
  | literal value => rfl
  | label name => rfl
  | register which => simp [Known, classify] at known
  | indirect inner => simp [Known, classify, classify.compound] at known
  | address inner inductionHypothesis | half side inner inductionHypothesis =>
    rw [children, List.forall_mem_singleton] at parts
    exact inductionHypothesis parts (known_children parts)
  | add left right leftHypothesis rightHypothesis | sub left right leftHypothesis rightHypothesis
  | mul left right leftHypothesis rightHypothesis =>
    rw [children, List.forall_mem_cons, List.forall_mem_singleton] at parts
    rw [isStatic, leftHypothesis parts.1 (known_children parts.1),
      rightHypothesis parts.2 (known_children parts.2), Bool.and_self]

/-- Values and addresses evaluate to an interval wherever their labels are defined. -/
theorem exists_range_of_known (known : Known (expr.classify labels))
    (defined : ∀ name ∈ expr.labels, name ∈ labels.names) :
    ∃ range, expr.range labels = .ok range := by
  have evaluates := evaluates_of_defined defined
  unfold Evaluates at evaluates
  rwa [if_pos (isStatic_of_known known)] at evaluates

end Micro65.Expr
