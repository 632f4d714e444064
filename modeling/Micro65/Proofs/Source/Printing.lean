import Micro65.Proofs.Expr.Printing
import Micro65.Proofs.Source.Parsing

set_option autoImplicit false

/-!
Operands of parsed sources in print. The labels of an operand are tokens of its line, or of the lines of the
constants that it uses, so its printed text can be read; and it is read as the same operand exactly if this one
needs no grouping parentheses.
-/

namespace Micro65

/-- The values of the constants mention only labels that can be written. -/
def Constants.Named (constants : Constants) : Prop :=
  ∀ name value, constants.lookup name = some value → value.Named

theorem Constants.Named.cons {constants : Constants} {value : Expr} (named : constants.Named)
    (own : value.Named) (name : String) : Constants.Named ((name, value) :: constants) := by
  intro other found known
  rw [List.lookup_cons] at known
  split at known
  · cases known
    exact own
  · exact named other found known

section Written

variable {constants : Constants} {tokens : List Token}

theorem Expr.Derives.named {level : Level} {behind : List Token} {expr : Expr}
    (derives : Derives constants level tokens behind expr) (known : constants.Named)
    (spelled : ∀ token ∈ tokens, Token.Spelled token.text.toList token) : expr.Named := by
  induction derives with
  | byte | word | register => exact nofun
  | label name =>
    intro other member
    obtain rfl := List.mem_singleton.1 member
    exact spelled _ List.mem_cons_self
  | constant found => exact known _ _ found
  | parens _ inductionHypothesis | brackets _ inductionHypothesis =>
    exact inductionHypothesis fun token member => spelled token (by simp [member])
  | address _ _ inductionHypothesis | half _ _ _ inductionHypothesis =>
    exact inductionHypothesis fun token member => spelled token (List.mem_cons_of_mem _ member)
  | factor _ inductionHypothesis | term _ inductionHypothesis => exact inductionHypothesis spelled
  | times _ _ first second | plus _ _ first second | minus _ _ first second =>
    rw [List.forall_mem_append, List.forall_mem_cons] at spelled
    exact List.forall_mem_append.2 ⟨first spelled.1, second spelled.2.2⟩

theorem Code.Derives.named {spelling : String} {code : Code}
    (derives : Derives constants spelling tokens code) (known : constants.Named)
    (spelled : ∀ token ∈ tokens, Token.Spelled token.text.toList token) :
    ∀ operand ∈ code.operand, operand.Named := by
  cases derives with
  | bare => exact nofun
  | operand _ _ derives =>
    rintro _ ⟨⟩
    exact derives.named known spelled

namespace Statement

/-- The labels that the statement mentions can be written. -/
def Named : Statement → Prop
  | .const _ value => value.Named
  | .code _ (some body) => ∀ operand ∈ body.operand, operand.Named
  | _ => True

theorem Derives.named {statement : Statement} (derives : Derives constants tokens statement)
    (known : constants.Named) (spelled : ∀ token ∈ tokens, Token.Spelled token.text.toList token) :
    statement.Named := by
  cases derives with
  | empty | label => trivial
  | const derives => exact derives.named known fun token member => spelled token (by simp [member])
  | labelled derives => exact derives.named known fun token member => spelled token (by simp [member])
  | code derives => exact derives.named known fun token member => spelled token (by simp [member])

theorem ofLine_named {line : String} {statement : Statement} (known : constants.Named)
    (read : ofLine constants line = .ok statement) : statement.Named := by
  obtain ⟨lexemes, scanned, parsed⟩ := (except_bind_eq_ok_iff _ _ _).1 read
  exact (parse_eq_ok_iff.1 parsed).named known (Lexeme.lexes_of_scan scanned).spelled

end Statement

end Written

namespace SourceFile

variable {context after : Context}

/-- A line leaves constants that can be written, and so can its operand. -/
theorem parseLine_named {position : Position} {text : String} {instruction : Option Instruction}
    (known : context.constants.Named)
    (parsed : parseLine context position text = .ok (after, instruction)) :
    after.constants.Named ∧ ∀ inst ∈ instruction, ∀ operand ∈ inst.operand, operand.Named := by
  obtain ⟨statement, read, takes⟩ := (parseLine_eq_ok_iff _ _ _ _ _).1 parsed
  have named := Statement.ofLine_named known read
  cases takes with
  | empty => exact ⟨known, by simp⟩
  | const => exact ⟨known.cons named _, by simp⟩
  | label => exact ⟨known, by simp⟩
  | code =>
    refine ⟨known, ?_⟩
    rintro _ ⟨⟩
    exact named

theorem Parses.named {name : String} {number : Nat} {texts : List String} {lines : List Line}
    (parses : Parses name context number texts after lines) (known : context.constants.Named) :
    ∀ inst ∈ lines.filterMap (·.instruction), ∀ operand ∈ inst.operand, operand.Named := by
  induction parses with
  | nil => simp
  | @cons _ _ _ _ _ _ instruction _ first _ inductionHypothesis =>
    obtain ⟨known, own⟩ := parseLine_named known first
    cases instruction with
    | none => exact inductionHypothesis known
    | some inst => exact List.forall_mem_cons.2 ⟨own inst rfl, inductionHypothesis known⟩

/-- The printed text of an operand is made of the tokens of its parts, and is read as the operand exactly if
no grouping parentheses are needed: if sums and products are grouped to the left, no factor of a product is a
sum, and each of the prefixes stands where nothing follows what it applies to. -/
theorem operand_readsBack_iff {name text : String} {file : SourceFile}
    (parsed : parse name text = .ok file) :
    ∀ inst ∈ file.instructions, ∀ operand, inst.operand = some operand →
      (∃ lexemes, Lexeme.scan operand.text = .ok lexemes ∧
        lexemes.map Lexeme.token = operand.printed) ∧
      (operand.ReadsBack ↔ operand.Ungrouped .sum True) := by
  intro inst member operand given
  obtain ⟨after, lines, parses, -, rfl⟩ := (parse_eq_ok_iff _ _ _).1 parsed
  have named : operand.Named := parses.named nofun inst member operand given
  exact ⟨Expr.scan_text named, Expr.readsBack_iff named⟩

/-- A constant with a prefix, at the end of a sum. -/
theorem operand_readsBack_constant : ∃ (file : SourceFile) (inst : Instruction) (operand : Expr),
    parse "t.s" "%b = lo @p - $01 * $02\n@p: LDA ($03 - $04) + %b" = .ok file ∧
    inst ∈ file.instructions ∧ inst.operand = some operand ∧
    operand.text = "$03 - $04 + lo(@p - $01 * $02)" ∧ operand.ReadsBack := by
  obtain ⟨file, parsed, same⟩ : ∃ file,
      parse "t.s" "%b = lo @p - $01 * $02\n@p: LDA ($03 - $04) + %b" = .ok file ∧
      file.instructions.map Instruction.operand = [some (.add (.sub (.literal 3) (.literal 4))
        (.half .low (.sub (.label "p") (.mul (.literal 1) (.literal 2)))))] := by
    decide +kernel
  obtain ⟨inst, member, given⟩ := List.mem_map.1 (same ▸ List.mem_singleton_self _)
  refine ⟨file, inst, _, parsed, member, given, by decide, ?_⟩
  exact ((operand_readsBack_iff parsed) inst member _ given).2.2 (by simp [Expr.Ungrouped])

/-- A product of a sum is printed as the sum of its first term and a product. -/
theorem operand_not_readsBack : ∃ (file : SourceFile) (inst : Instruction) (operand : Expr),
    parse "t.s" "LDA ($01 + $02) * $03" = .ok file ∧ inst ∈ file.instructions ∧
    inst.operand = some operand ∧ operand.text = "$01 + $02 * $03" ∧ ¬operand.ReadsBack := by
  obtain ⟨file, parsed, same⟩ : ∃ file,
      parse "t.s" "LDA ($01 + $02) * $03" = .ok file ∧ file.instructions.map Instruction.operand =
        [some (.mul (.add (.literal 1) (.literal 2)) (.literal 3))] := by
    decide +kernel
  obtain ⟨inst, member, given⟩ := List.mem_map.1 (same ▸ List.mem_singleton_self _)
  refine ⟨file, inst, _, parsed, member, given, by decide, ?_⟩
  rw [Expr.readsBack_iff (by simp [Expr.Named, Expr.labels])]
  simp [Expr.Ungrouped]

end SourceFile
end Micro65
