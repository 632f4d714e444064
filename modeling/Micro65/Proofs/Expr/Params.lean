import Micro65.Proofs.Expr.Modes
import Micro65.Proofs.Interval.Narrowing
import Micro65.Proofs.Labels.Tables

set_option autoImplicit false

/-!
Parameters of operands. What is encoded after an opcode is the operand or a part of it, however deep inside
sums and brackets: a value or an address that is known before the program runs, on the page that the mode
encodes.
-/

namespace Micro65

/-- A classified expression has a value before the program runs. -/
def Expr.Known (classified : OperandClass × Interval) : Prop :=
  classified.1 = .value ∨ classified.1 = .address

/-- A classified expression is such as the mode encodes. Registers encode nothing. -/
def Mode.Fits : Mode → OperandClass × Interval → Prop
  | .imm, (kind, range) => kind = .value ∧ range.within 0x00 0xFF = true
  | .zpg, (kind, range) | .zpgX, (kind, range) | .zpgY, (kind, range) | .ind, (kind, range)
  | .indX, (kind, range) | .indY, (kind, range) =>
    kind = .address ∧ range.within 0x00 0xFF = true
  | .abs, (kind, range) | .absX, (kind, range) | .absY, (kind, range) =>
    kind = .address ∧ range.within 0x100 0xFFFF = true
  | .acc, _ | .regX, _ | .regY, _ => False

namespace Mode.Fits

variable {base index mode : Mode} {classified : OperandClass × Interval}

/-- An index leaves class and page of the base. -/
theorem indexed (fits : base.Fits classified) (indexed : base.indexed? index = some mode) :
    mode.Fits classified := by
  cases base <;> cases index <;> cases indexed <;> exact fits

theorem indirect (fits : base.Fits classified) (indirect : base.indirect? = some mode) :
    mode.Fits classified := by
  cases base <;> cases indirect <;> exact fits

theorem known (fits : mode.Fits classified) : Expr.Known classified := by
  cases mode <;> first | exact .inl fits.1 | exact .inr fits.1 | contradiction

end Mode.Fits

namespace Expr

/-- What an expression is directly made of. -/
def children : Expr → List Expr
  | literal _ | label _ | register _ => []
  | address inner | indirect inner | half _ inner => [inner]
  | add left right | sub left right | mul left right => [left, right]

/-- The expression and all that it is made of. -/
def parts (expr : Expr) : List Expr :=
  expr :: match expr with
    | literal _ | label _ | register _ => []
    | address inner | indirect inner | half _ inner => inner.parts
    | add left right | sub left right | mul left right => left.parts ++ right.parts

variable {labels : Labels} {expr left right param : Expr} {mode : Mode} {range : Interval}

theorem self_mem_parts (expr : Expr) : expr ∈ expr.parts := by
  unfold parts
  exact List.mem_cons_self

theorem parts_eq (expr : Expr) : expr.parts = expr :: expr.children.flatMap parts := by
  cases expr <;> simp [parts, children]

theorem parts_subset {child : Expr} (member : child ∈ expr.children) : child.parts ⊆ expr.parts := by
  intro part inside
  rw [expr.parts_eq]
  exact List.mem_cons_of_mem _ (List.mem_flatMap.2 ⟨child, member, inside⟩)

/-- What an expression hands down to what it is directly made of, all its parts have. -/
theorem forall_parts {Holds : Expr → Prop}
    (inherited : ∀ {expr}, Holds expr → ∀ child ∈ expr.children, Holds child)
    (holds : Holds expr) : ∀ part ∈ expr.parts, Holds part := by
  have down := inherited holds
  induction expr with
  | literal value => simpa [parts] using holds
  | label name => simpa [parts] using holds
  | register which => simpa [parts] using holds
  | address inner inductionHypothesis | indirect inner inductionHypothesis
  | half _ inner inductionHypothesis =>
    rw [children, List.forall_mem_singleton] at down
    rw [parts, List.forall_mem_cons]
    exact ⟨holds, inductionHypothesis down (inherited down)⟩
  | add left right leftHypothesis rightHypothesis | sub left right leftHypothesis rightHypothesis
  | mul left right leftHypothesis rightHypothesis =>
    rw [children, List.forall_mem_cons, List.forall_mem_singleton] at down
    rw [parts, List.forall_mem_cons, List.forall_mem_append]
    exact ⟨holds, leftHypothesis down.1 (inherited down.1), rightHypothesis down.2 (inherited down.2)⟩

/-- Whatever is known is made of what is known. -/
theorem known_children (known : Known (expr.classify labels)) :
    ∀ child ∈ expr.children, Known (child.classify labels) := by
  cases expr with
  | literal value => simp [children]
  | label name => simp [children]
  | register which => simp [children]
  | indirect inner => simp [classify, classify.compound, Known] at known
  | address inner | half side inner | add left right | sub left right | mul left right =>
    simp only [classify] at known
    split at known <;> simp_all [children, classify.compound, Known]

/-! ### Modes -/

/-- The parameter of an operand is a part of it, such as the mode encodes. -/
structure Encodes (labels : Labels) (expr : Expr) (mode : Mode) (param : Expr) : Prop where
  part : param ∈ expr.parts
  fits : mode.Fits (param.classify labels)

theorem encodes_of_valueMode (classified : expr.classify labels = (.value, range))
    (chosen : expr.valueMode range = .ok (mode, some param)) : Encodes labels expr mode param := by
  unfold valueMode at chosen
  split at chosen
  next bounded =>
    cases chosen
    exact ⟨self_mem_parts expr, by rw [classified]; exact ⟨rfl, bounded⟩⟩
  next => contradiction

theorem encodes_of_addressMode (classified : expr.classify labels = (.address, range))
    (chosen : expr.addressMode range = .ok (mode, some param)) : Encodes labels expr mode param := by
  unfold addressMode at chosen
  split at chosen
  · contradiction
  next bounded =>
    split at chosen
    · contradiction
    next clear =>
      rw [Bool.not_eq_true', Bool.not_eq_false, Interval.within_iff] at bounded
      cases chosen
      refine ⟨self_mem_parts expr, ?_⟩
      rw [classified]
      split
      next zeroPage => exact ⟨rfl, (Interval.within_iff _ _ _).2 ⟨bounded.1, by omega⟩⟩
      next => exact ⟨rfl, (Interval.within_iff _ _ _).2 ⟨by omega, bounded.2⟩⟩

/-- What the intervals decide is encoded whole; what is left is decided by shape. -/
theorem encodes_of_compound
    (byShape : ∀ mode param, expr.compoundMode labels = .ok (mode, param) →
      Encodes labels expr mode param)
    (chosen : expr.mode labels = .ok (mode, some param)) : Encodes labels expr mode param := by
  rw [Expr.mode] at chosen
  split at chosen
  next range classified => exact encodes_of_valueMode classified chosen
  next range classified => exact encodes_of_addressMode classified chosen
  next => cases chosen
  next =>
    rw [except_bind_eq_ok_iff] at chosen
    obtain ⟨⟨mode', param'⟩, shaped, done⟩ := chosen
    cases done
    exact byShape mode param shaped

theorem encodes_of_mode (chosen : expr.mode labels = .ok (mode, some param)) :
    Encodes labels expr mode param := by
  induction expr generalizing mode param with
  | add left right leftHypothesis rightHypothesis =>
    refine encodes_of_compound ?_ chosen
    intro mode param shaped
    obtain ⟨⟨modeLeft, paramLeft⟩, ⟨modeRight, paramRight⟩, chosenLeft, chosenRight, shaped⟩ :=
      (compoundMode_add_eq_ok_iff ..).1 shaped
    obtain ⟨indexed, rfl⟩ | ⟨indexed, rfl⟩ := (indexedMode_eq_ok_iff ..).1 shaped
    · obtain ⟨part, fits⟩ := leftHypothesis chosenLeft
      exact ⟨List.mem_cons_of_mem _ (List.mem_append_left _ part), fits.indexed indexed⟩
    · obtain ⟨part, fits⟩ := rightHypothesis chosenRight
      exact ⟨List.mem_cons_of_mem _ (List.mem_append_right _ part), fits.indexed indexed⟩
  | indirect inner inductionHypothesis =>
    refine encodes_of_compound ?_ chosen
    intro mode param shaped
    obtain ⟨⟨modeInner, paramInner⟩, chosenInner, shaped⟩ :=
      (compoundMode_indirect_eq_ok_iff ..).1 shaped
    obtain ⟨indirect, rfl⟩ := indirectMode_eq_ok shaped
    obtain ⟨part, fits⟩ := inductionHypothesis chosenInner
    exact ⟨List.mem_cons_of_mem _ part, fits.indirect indirect⟩
  | _ =>
    refine encodes_of_compound ?_ chosen
    intro mode param shaped
    simp [compoundMode] at shaped

/-- The parameter of an operand is the operand or a part of it, has no register and no indirection in it,
and is of the class and on the page that the mode encodes. A register alone has no parameter. -/
theorem mode_encodes {given : Option Expr} (chosen : expr.mode labels = .ok (mode, given)) :
    (∀ param, given = some param → param ∈ expr.parts ∧
      (∀ part ∈ param.parts, (∀ which, part ≠ register which) ∧ ∀ inner, part ≠ indirect inner) ∧
      mode.Fits (param.classify labels)) ∧
    (given = none → ∃ which, expr = register which ∧ mode = registerMode which) := by
  constructor
  · rintro param rfl
    obtain ⟨part, fits⟩ := encodes_of_mode chosen
    refine ⟨part, fun inner member => ?_, fits⟩
    have known := forall_parts known_children fits.known inner member
    constructor
    · rintro which rfl
      simp [classify, Known] at known
    · rintro cell rfl
      simp [classify, classify.compound, Known] at known
  · rintro rfl
    obtain ⟨⟨which, rfl⟩, -⟩ | ⟨-, given, -⟩ := mode_param chosen
    · simp only [Expr.mode, classify, Except.ok.injEq, Prod.mk.injEq] at chosen
      exact ⟨which, rfl, chosen.1.symm⟩
    · contradiction

/-- A sum inside brackets, beside an index. -/
theorem mode_encodes_indexed :
    (add (indirect (add (label "p") (literal 2))) (register .y)).mode
      (.ofRanges [("p", ⟨0x10, 0x20⟩)]) = .ok (.indY, some (add (label "p") (literal 2))) ∧
    add (label "p") (literal 2) ∈
      (add (indirect (add (label "p") (literal 2))) (register .y)).parts ∧
    (∀ part ∈ (add (label "p") (literal 2)).parts,
      (∀ which, part ≠ register which) ∧ ∀ inner, part ≠ indirect inner) ∧
    Mode.indY.Fits ((add (label "p") (literal 2)).classify (.ofRanges [("p", ⟨0x10, 0x20⟩)])) := by
  have known : (Labels.ofRanges [("p", ⟨0x10, 0x20⟩)]).get? "p" = some ⟨0x10, 0x20⟩ := by
    simp [Labels.get?_singleton]
  have chosen : (add (indirect (add (label "p") (literal 2))) (register .y)).mode
      (.ofRanges [("p", ⟨0x10, 0x20⟩)]) = .ok (.indY, some (add (label "p") (literal 2))) := by
    simp only [Expr.mode, classify, classify.compound, compoundMode, known, Option.getD_some]
    rfl
  exact ⟨chosen, (mode_encodes chosen).1 _ rfl⟩

end Expr
end Micro65
