import Micro65.Asm.Statement
import Micro65.Proofs.Expr.Grammar

set_option autoImplicit false

/-!
The grammar of statements. A line of tokens is read as a statement exactly if it derives from the rules for
empty lines, constants, labels and code.
-/

namespace Micro65

theorem checkLineEnd_eq_ok_iff (lexemes : List Lexeme) :
    checkLineEnd lexemes = .ok () ↔ lexemes = [] := by
  cases lexemes <;> simp [checkLineEnd]

theorem Expr.Derives.ne_nil {constants : Constants} {level : Level} {tokens behind : List Token}
    {expr : Expr} (derives : Derives constants level tokens behind expr) : tokens ≠ [] := by
  induction derives with
  | factor _ inductionHypothesis | term _ inductionHypothesis => exact inductionHypothesis
  | _ => simp

/-- An expression fills a line exactly if all the tokens are written for it. -/
theorem Expr.parse_eq_ok_nil_iff (constants : Constants) (lexemes : List Lexeme) (expr : Expr) :
    Expr.parse constants lexemes = .ok (expr, []) ↔
      Derives constants .sum (lexemes.map Lexeme.token) [] expr := by
  rw [parse_eq_ok_iff]
  constructor
  · rintro ⟨-, consumed, same, derives⟩
    rw [List.append_nil] at same
    exact same ▸ derives
  · intro derives
    exact ⟨Token.ends_nil, lexemes, (List.append_nil lexemes).symm, derives⟩

/-- The tokens behind the mnemonic are written for the code. -/
inductive Code.Derives (constants : Constants) (spelling : String) : List Token → Code → Prop where
  | bare {kind} : Mnemonic.ofSpelling? spelling = some kind → kind.takesOperand = false →
      Derives constants spelling [] ⟨spelling, kind, none⟩
  | operand {kind tokens operand} : Mnemonic.ofSpelling? spelling = some kind →
      kind.takesOperand = true → Expr.Derives constants .sum tokens [] operand →
      Derives constants spelling tokens ⟨spelling, kind, some operand⟩

theorem Code.parse_eq_ok_nil_iff (constants : Constants) (spelling : String) (lexemes : List Lexeme)
    (code : Code) :
    Code.parse constants spelling lexemes = .ok (code, []) ↔
      Code.Derives constants spelling (lexemes.map Lexeme.token) code := by
  constructor
  · intro parsed
    unfold Code.parse at parsed
    split at parsed
    · contradiction
    next kind known =>
      rw [Mnemonic.parse_eq_ok_iff] at known
      split at parsed
      next nothing takes =>
        cases parsed
        exact .bare known takes
      next => contradiction
      next => contradiction
      next some takes =>
        obtain ⟨⟨operand, rest⟩, read, done⟩ := (except_bind_eq_ok_iff _ _ _).1 parsed
        cases done
        exact .operand known takes ((Expr.parse_eq_ok_nil_iff _ _ _).1 read)
  · intro derives
    unfold Code.parse
    generalize written : lexemes.map Lexeme.token = tokens at derives
    cases derives with
    | bare known takes =>
      obtain rfl := List.map_eq_nil_iff.1 written
      simp only [(Mnemonic.parse_eq_ok_iff _ _).2 known, takes]
      rfl
    | operand known takes derives =>
      have some : lexemes.isEmpty = false := by
        rw [List.isEmpty_eq_false_iff]
        rintro rfl
        exact derives.ne_nil written.symm
      rw [← written] at derives
      simp only [(Mnemonic.parse_eq_ok_iff _ _).2 known, takes, some,
        (Expr.parse_eq_ok_nil_iff _ _ _).2 derives]
      rfl

namespace Statement

/-- The tokens are written for the statement. -/
inductive Derives (constants : Constants) : List Token → Statement → Prop where
  | empty : Derives constants [] .empty
  | const {name tokens value} : Expr.Derives constants .sum tokens [] value →
      Derives constants (.const name :: .equal :: tokens) (.const name value)
  | label name : Derives constants [.label name, .colon] (.code (some name) none)
  | labelled {name spelling tokens code} : Code.Derives constants spelling tokens code →
      Derives constants (.label name :: .colon :: .ident spelling :: tokens)
        (.code (some name) (some code))
  | code {spelling tokens code} : Code.Derives constants spelling tokens code →
      Derives constants (.ident spelling :: tokens) (.code none (some code))

variable {constants : Constants} {lexemes : List Lexeme} {statement : Statement}

theorem body_eq_ok_iff (spelling : String) (label : Option String) :
    (do
      let (body, rest) ← Code.parse constants spelling lexemes
      checkLineEnd rest
      return .code label (some body) : Except AsmError Statement) = .ok statement ↔
      ∃ code, Code.Derives constants spelling (lexemes.map Lexeme.token) code ∧
        .code label (some code) = statement := by
  simp only [except_bind_eq_ok_iff, ← Code.parse_eq_ok_nil_iff]
  constructor
  · rintro ⟨⟨code, rest⟩, read, _, filled, done⟩
    obtain rfl := (checkLineEnd_eq_ok_iff rest).1 filled
    exact ⟨code, read, Except.ok.inj done⟩
  · rintro ⟨code, read, rfl⟩
    exact ⟨_, read, (), rfl, rfl⟩

theorem derives_of_parseLabelled {label : String}
    (parsed : parseLabelled constants label lexemes = .ok statement) :
    Derives constants (.label label :: .colon :: lexemes.map Lexeme.token) statement := by
  unfold parseLabelled at parsed
  split at parsed
  · cases parsed
    exact .label label
  next first rest =>
    obtain ⟨token, column⟩ := first
    dsimp only at parsed
    split at parsed
    next spelling =>
      obtain ⟨code, derives, rfl⟩ := (body_eq_ok_iff _ _).1 parsed
      exact .labelled derives
    next => contradiction

theorem derives_of_parse (parsed : parse constants lexemes = .ok statement) :
    Derives constants (lexemes.map Lexeme.token) statement := by
  unfold parse at parsed
  split at parsed
  · cases parsed
    exact .empty
  next first rest =>
    obtain ⟨token, column⟩ := first
    dsimp only at parsed
    split at parsed
    next name =>
      obtain ⟨⟨after, shorter⟩, colon, parsed⟩ := (except_bind_eq_ok_iff _ _ _).1 parsed
      obtain ⟨place, same⟩ := (expect_eq_ok_iff _ _ _).1 colon
      rw [same]
      exact derives_of_parseLabelled parsed
    next name =>
      obtain ⟨⟨after, shorter⟩, equal, parsed⟩ := (except_bind_eq_ok_iff _ _ _).1 parsed
      obtain ⟨⟨value, left⟩, read, parsed⟩ := (except_bind_eq_ok_iff _ _ _).1 parsed
      obtain ⟨_, filled, done⟩ := (except_bind_eq_ok_iff _ _ _).1 parsed
      obtain ⟨place, same⟩ := (expect_eq_ok_iff _ _ _).1 equal
      obtain rfl := (checkLineEnd_eq_ok_iff left).1 filled
      cases done
      rw [same]
      exact .const ((Expr.parse_eq_ok_nil_iff _ _ _).1 read)
    next spelling =>
      obtain ⟨code, derives, rfl⟩ := (body_eq_ok_iff _ _).1 parsed
      exact .code derives
    next => contradiction

/-- A statement is read of exactly the lines that are written for it. -/
theorem parse_eq_ok_iff :
    parse constants lexemes = .ok statement ↔
      Derives constants (lexemes.map Lexeme.token) statement := by
  refine ⟨derives_of_parse, fun derives => ?_⟩
  generalize written : lexemes.map Lexeme.token = tokens at derives
  cases derives with
  | empty =>
    obtain rfl := List.map_eq_nil_iff.1 written
    rfl
  | label name =>
    obtain ⟨_, others, rfl, second⟩ := exists_of_map_eq_cons written
    obtain ⟨_, rest, rfl, third⟩ := exists_of_map_eq_cons second
    obtain rfl := List.map_eq_nil_iff.1 third
    rfl
  | labelled derives =>
    obtain ⟨_, others, rfl, second⟩ := exists_of_map_eq_cons written
    obtain ⟨_, others, rfl, third⟩ := exists_of_map_eq_cons second
    obtain ⟨_, rest, rfl, rfl⟩ := exists_of_map_eq_cons third
    exact (body_eq_ok_iff _ _).2 ⟨_, derives, rfl⟩
  | code derives =>
    obtain ⟨_, rest, rfl, rfl⟩ := exists_of_map_eq_cons written
    exact (body_eq_ok_iff _ _).2 ⟨_, derives, rfl⟩
  | const derives =>
    obtain ⟨_, others, rfl, second⟩ := exists_of_map_eq_cons written
    obtain ⟨_, rest, rfl, rfl⟩ := exists_of_map_eq_cons second
    have read := (Expr.parse_eq_ok_nil_iff _ _ _).2 derives
    refine (except_bind_eq_ok_iff _ _ _).2 ⟨⟨rest, by simp⟩, rfl, ?_⟩
    exact (except_bind_eq_ok_iff _ _ _).2 ⟨_, read, rfl⟩

end Statement
end Micro65
