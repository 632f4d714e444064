import Micro65.Proofs.Source.Parsing
import Micro65.Proofs.Source.Statements
import Micro65.Proofs.Text.Lines
import Micro65.Proofs.Token.Spelling

set_option autoImplicit false

/-!
Sources without constants. Where a constant is used, the tokens of its definition can be written instead, in
parentheses and with their own constants replaced in the same way; a definition becomes an empty line. What is
read of such a source is what was read of the first one.
-/

namespace Micro65

/-- Names of constants and the tokens that they stand for, the latest first. -/
abbrev Definitions := List (String × List Token)

/-- The token, or the tokens of a constant in parentheses. -/
def Token.inlined (definitions : Definitions) : Token → List Token
  | const name =>
    match definitions.lookup name with
    | some body => leftParen :: body ++ [rightParen]
    | none => [const name]
  | token => [token]

/-- Tokens as they are written in the place of a constant. -/
def parenthesized (body : List Token) : List Char :=
  '(' :: (body.flatMap fun token => token.text.toList ++ [' ']) ++ [')']

/-- What stands in the place of a token that is spelled in this way. -/
def Token.inlinedSpelling (definitions : Definitions) (spelling : List Char) : Token → List Char
  | const name =>
    match definitions.lookup name with
    | some body => parenthesized body
    | none => spelling
  | _ => spelling

/-- A line in which every constant is replaced where it stands. All else stays, blanks and a comment too. -/
def inlineLine (definitions : Definitions) (line : List Char) : List Char :=
  match line with
  | [] => []
  | first :: rest =>
    if isBlank first then first :: inlineLine definitions rest
    else if first = ';' then first :: rest
    else
      match Token.read 0 first rest with
      | .error _ => first :: rest
      | .ok (token, taken) =>
        token.inlinedSpelling definitions (first :: rest.take taken) ++
          inlineLine definitions (rest.drop taken)
termination_by line.length

/-- The constant that the tokens define, with all constants in its own tokens replaced. -/
def Definitions.next? (definitions : Definitions) : List Token → Option (String × List Token)
  | .const name :: .equal :: body => some (name, body.flatMap (Token.inlined definitions))
  | _ => none

def definition? (definitions : Definitions) (line : String) : Option (String × List Token) :=
  (Lexeme.scan line).toOption.bind fun lexemes => definitions.next? (lexemes.map Lexeme.token)

/-- Lines without constants: definitions become empty lines, and uses what is defined above them. -/
def inlineLines (definitions : Definitions) : List String → List String
  | [] => []
  | line :: rest =>
    match definition? definitions line with
    | some definition => "" :: inlineLines (definition :: definitions) rest
    | none => String.ofList (inlineLine definitions line.toList) :: inlineLines definitions rest

/-- What can be written on a line for these tokens. -/
def Definitions.Spelled (definitions : Definitions) : Prop :=
  ∀ name body, definitions.lookup name = some body →
    ∀ token ∈ body, Token.Spelled token.text.toList token

/-! ### Tokens of a line -/

section Line

variable {definitions : Definitions}

theorem inlineLine_blank {c : Char} (blank : isBlank c = true) (rest : List Char) :
    inlineLine definitions (c :: rest) = c :: inlineLine definitions rest := by
  rw [inlineLine, if_pos blank]

theorem inlineLine_token {spelling rest : List Char} {token : Token}
    (spelled : Token.Spelled spelling token) (stops : token.Stops rest) :
    inlineLine definitions (spelling ++ rest) =
      token.inlinedSpelling definitions spelling ++ inlineLine definitions rest := by
  obtain ⟨first, body, rfl, blank, comment⟩ := spelled.exists_cons
  rw [List.cons_append, inlineLine, blank, if_neg (by decide), if_neg comment, spelled.read stops 0]
  dsimp only
  rw [List.take_left, List.drop_left]

/-- A line starts as before, or else with a parenthesis. -/
theorem head?_inlineLine (definitions : Definitions) (line : List Char) :
    (inlineLine definitions line).head? = line.head? ∨
      (inlineLine definitions line).head? = some '(' := by
  cases line with
  | nil => exact .inl (by rw [inlineLine])
  | cons first rest =>
    rw [inlineLine]
    split
    · exact .inl rfl
    · split
      · exact .inl rfl
      · split
        · exact .inl rfl
        next token taken _ =>
          unfold Token.inlinedSpelling
          split
          · split
            · exact .inr rfl
            · exact .inl rfl
          · exact .inl rfl

theorem Token.Stops.inlined {token : Token} {line : List Char} (stops : token.Stops line) :
    token.Stops (inlineLine definitions line) := by
  intro c first
  rcases head?_inlineLine definitions line with same | paren
  · exact stops c (same ▸ first)
  · rw [paren] at first
    obtain rfl := Option.some.inj first
    exact token.goesOn_of_outside (by decide) (by decide)

/-- Tokens in parentheses are read back in front of anything. -/
theorem lexes_parenthesized {body tokens : List Token} {rest : List Char}
    (spelled : ∀ token ∈ body, Token.Spelled token.text.toList token) (lexes : Lexes rest tokens) :
    Lexes (parenthesized body ++ rest) (Token.leftParen :: body ++ [Token.rightParen] ++ tokens) := by
  have behind : Lexes (')' :: rest) (.rightParen :: tokens) := .symbol rfl lexes
  have inside : Lexes ((body.flatMap fun token => token.text.toList ++ [' ']) ++ ')' :: rest)
      (body ++ .rightParen :: tokens) := by
    induction body with
    | nil => exact behind
    | cons token body inductionHypothesis =>
      rw [List.forall_mem_cons] at spelled
      simp only [List.flatMap_cons, List.append_assoc, List.cons_append, List.nil_append]
      exact .token spelled.1 (token.stops_blank _) (.blank rfl (inductionHypothesis spelled.2))
  have whole : Lexes ('(' :: ((body.flatMap fun token => token.text.toList ++ [' ']) ++
      ')' :: rest)) (.leftParen :: (body ++ .rightParen :: tokens)) := .symbol rfl inside
  simpa [parenthesized] using whole

/-- The tokens of a line with its constants replaced are those of the line, each replaced. -/
theorem Lexes.inlined {line : List Char} {tokens : List Token} (spelled : definitions.Spelled)
    (lexes : Lexes line tokens) :
    Lexes (inlineLine definitions line) (tokens.flatMap (Token.inlined definitions)) := by
  induction lexes with
  | nil =>
    rw [inlineLine]
    exact .nil
  | blank blank _ inductionHypothesis =>
    rw [inlineLine_blank blank]
    exact .blank blank inductionHypothesis
  | comment =>
    rw [inlineLine, if_neg (by decide), if_pos rfl]
    exact .comment
  | @token spelling token rest tokens own stops _ inductionHypothesis =>
    rw [inlineLine_token own stops, List.flatMap_cons]
    have stays : Lexes (spelling ++ inlineLine definitions rest)
        ([token] ++ tokens.flatMap (Token.inlined definitions)) :=
      .token own stops.inlined inductionHypothesis
    cases token with
    | const name =>
      simp only [Token.inlinedSpelling, Token.inlined]
      cases known : definitions.lookup name with
      | none => exact stays
      | some body => exact lexes_parenthesized (spelled name body known) inductionHypothesis
    | _ => exact stays

theorem Token.inlinedSpelling_unbroken (spelled : definitions.Spelled) {spelling : List Char}
    (unbroken : '\n' ∉ spelling) (token : Token) :
    '\n' ∉ token.inlinedSpelling definitions spelling := by
  unfold inlinedSpelling
  split
  next name =>
    split
    next body known =>
      have inside : ∀ token ∈ body, '\n' ∉ token.text.toList :=
        fun token member => (spelled name body known token member).unbroken
      simpa [parenthesized] using inside
    next => exact unbroken
  next => exact unbroken

theorem inlineLine_unbroken (spelled : definitions.Spelled) {line : List Char}
    (unbroken : '\n' ∉ line) : '\n' ∉ inlineLine definitions line := by
  induction line using inlineLine.induct with
  | case1 => rwa [inlineLine]
  | case2 first rest blank inductionHypothesis =>
    rw [inlineLine_blank blank]
    rw [List.mem_cons, not_or] at unbroken ⊢
    exact ⟨unbroken.1, inductionHypothesis unbroken.2⟩
  | case3 rest blank =>
    rwa [inlineLine, if_neg blank, if_pos rfl]
  | case4 first rest blank comment failure read =>
    rwa [inlineLine, if_neg blank, if_neg comment, read]
  | case5 first rest blank comment token taken read inductionHypothesis =>
    rw [inlineLine, if_neg blank, if_neg comment, read, List.mem_append, not_or]
    refine ⟨Token.inlinedSpelling_unbroken spelled (fun member => unbroken ?_) token,
      inductionHypothesis fun member => unbroken ?_⟩
    · exact List.mem_cons.2 ((List.mem_cons.1 member).imp id List.mem_of_mem_take)
    · exact List.mem_cons_of_mem _ (List.mem_of_mem_drop member)

end Line

/-! ### Tokens of expressions -/

theorem Token.Ends.inlined {tokens : List Token} (ends : Ends tokens) (definitions : Definitions) :
    Ends (tokens.flatMap (inlined definitions)) := by
  cases tokens with
  | nil => exact ends_nil
  | cons first rest =>
    have closes := ends first rfl
    cases first <;> first | contradiction | exact ends_cons rfl _

/-- Of what follows an expression it matters only whether the prefixes can end there. -/
theorem Expr.Derives.behind {constants : Constants} {level : Level} {tokens behind : List Token}
    {expr : Expr} (derives : Derives constants level tokens behind expr) :
    ∀ {behind' : List Token}, (Token.Ends behind → Token.Ends behind') →
      Derives constants level tokens behind' expr := by
  induction derives with
  | byte value => exact fun _ => .byte value
  | word value => exact fun _ => .word value
  | label name => exact fun _ => .label name
  | register which => exact fun _ => .register which
  | constant known => exact fun _ => .constant known
  | parens _ inner => exact fun _ => .parens (inner fun _ => Token.ends_cons rfl _)
  | brackets _ inner => exact fun _ => .brackets (inner fun _ => Token.ends_cons rfl _)
  | address extent derives inner =>
    intro behind' ends
    have derives' := inner ends
    exact .address (derives'.untilClosing_eq_iff.2 (ends (derives.untilClosing_eq_iff.1 extent))) derives'
  | half side extent derives inner =>
    intro behind' ends
    have derives' := inner ends
    exact .half side (derives'.untilClosing_eq_iff.2 (ends (derives.untilClosing_eq_iff.1 extent))) derives'
  | factor _ inner => exact fun ends => .factor (inner ends)
  | term _ inner => exact fun ends => .term (inner ends)
  | times _ _ left right => exact fun ends => .times (left id) (right ends)
  | plus _ _ left right => exact fun ends => .plus (left id) (right ends)
  | minus _ _ left right => exact fun ends => .minus (left id) (right ends)

theorem Expr.Derives.constantless {level : Level} {tokens behind : List Token} {expr : Expr}
    (derives : Derives [] level tokens behind expr) : ∀ name, Token.const name ∉ tokens := by
  induction derives with
  | constant known => contradiction
  | _ => simp_all

/-- The definitions are written for the constants, with tokens that can be spelled. -/
structure Definitions.Stand (definitions : Definitions) (constants : Constants) : Prop where
  spelled : definitions.Spelled
  derives : ∀ name value, constants.lookup name = some value → ∃ body,
    definitions.lookup name = some body ∧ Expr.Derives [] .sum body [] value

section Stand

variable {definitions : Definitions} {constants : Constants}

theorem Definitions.Stand.nil : Definitions.Stand [] [] := ⟨nofun, nofun⟩

theorem Definitions.Stand.cons (stand : definitions.Stand constants) (name : String)
    {body : List Token} {value : Expr} (derives : Expr.Derives [] .sum body [] value)
    (spelled : ∀ token ∈ body, Token.Spelled token.text.toList token) :
    Definitions.Stand ((name, body) :: definitions) ((name, value) :: constants) := by
  constructor
  · intro other found known
    rw [List.lookup_cons] at known
    split at known
    · cases known
      exact spelled
    · exact stand.spelled other found known
  · intro other found known
    rw [List.lookup_cons] at known ⊢
    split at known
    · cases known
      exact ⟨body, rfl, derives⟩
    · exact stand.derives other found known

/-- What derives with constants derives with what they stand for. The parentheses keep each definition apart
from what is around it, and end what its prefixes take. -/
theorem Expr.Derives.inlined {level : Level} {tokens behind : List Token} {expr : Expr}
    (stand : definitions.Stand constants) (derives : Derives constants level tokens behind expr) :
    Derives [] level (tokens.flatMap (Token.inlined definitions))
      (behind.flatMap (Token.inlined definitions)) expr := by
  induction derives with
  | byte value => exact .byte value
  | word value => exact .word value
  | label name => exact .label name
  | register which => exact .register which
  | @constant behind name value known =>
    obtain ⟨body, found, derives⟩ := stand.derives name value known
    have whole : Derives [] .simple (Token.leftParen :: body ++ [Token.rightParen])
        (behind.flatMap (Token.inlined definitions)) value :=
      .parens (derives.behind fun _ => Token.ends_cons rfl _)
    simpa [Token.inlined, found] using whole
  | parens _ inner =>
    rw [List.flatMap_append]
    exact .parens inner
  | brackets _ inner =>
    rw [List.flatMap_append]
    exact .brackets inner
  | address extent derives inner =>
    have ends := (derives.untilClosing_eq_iff.1 extent).inlined definitions
    exact .address (inner.untilClosing_eq_iff.2 ends) inner
  | half side extent derives inner =>
    have ends := (derives.untilClosing_eq_iff.1 extent).inlined definitions
    exact .half side (inner.untilClosing_eq_iff.2 ends) inner
  | factor _ inner => exact .factor inner
  | term _ inner => exact .term inner
  | times _ _ left right =>
    rw [List.flatMap_append] at left ⊢
    exact .times left right
  | plus _ _ left right =>
    rw [List.flatMap_append] at left ⊢
    exact .plus left right
  | minus _ _ left right =>
    rw [List.flatMap_append] at left ⊢
    exact .minus left right

theorem Code.Derives.inlined {spelling : String} {tokens : List Token} {code : Code}
    (stand : definitions.Stand constants) (derives : Code.Derives constants spelling tokens code) :
    Code.Derives [] spelling (tokens.flatMap (Token.inlined definitions)) code := by
  cases derives with
  | bare known takes => exact .bare known takes
  | operand known takes derives => exact .operand known takes (derives.inlined stand)

theorem Code.Derives.constantless {spelling : String} {tokens : List Token} {code : Code}
    (derives : Code.Derives [] spelling tokens code) : ∀ name, Token.const name ∉ tokens := by
  cases derives with
  | bare => simp
  | operand _ _ derives => exact derives.constantless

/-- What a definition is written with derives its constant without constants. -/
theorem Statement.Derives.definition {tokens : List Token} {name : String} {value : Expr}
    (stand : definitions.Stand constants)
    (derives : Statement.Derives constants tokens (.const name value)) :
    ∃ body, definitions.next? tokens = some (name, body) ∧
      body ⊆ tokens.flatMap (Token.inlined definitions) ∧ Expr.Derives [] .sum body [] value := by
  cases derives with
  | @const _ tokens _ derives =>
    refine ⟨_, rfl, ?_, derives.inlined stand⟩
    rw [List.flatMap_cons, List.flatMap_cons]
    exact List.subset_append_of_subset_right _ (List.subset_append_right _ _)

/-- Every other statement derives without constants. -/
theorem Statement.Derives.inlined {tokens : List Token} {statement : Statement}
    (stand : definitions.Stand constants) (derives : Statement.Derives constants tokens statement)
    (other : ∀ name value, statement ≠ .const name value) :
    definitions.next? tokens = none ∧
      (∀ name, Token.const name ∉ tokens.flatMap (Token.inlined definitions)) ∧
      Statement.Derives [] (tokens.flatMap (Token.inlined definitions)) statement := by
  cases derives with
  | empty => exact ⟨rfl, by simp, .empty⟩
  | const => exact absurd rfl (other _ _)
  | label name => exact ⟨rfl, by simp [Token.inlined], .label name⟩
  | labelled derives =>
    have derives' := derives.inlined stand
    exact ⟨rfl, by simpa [Token.inlined] using derives'.constantless, .labelled derives'⟩
  | code derives =>
    have derives' := derives.inlined stand
    exact ⟨rfl, by simpa [Token.inlined] using derives'.constantless, .code derives'⟩

end Stand

/-! ### Lines and files -/

/-- The lexemes of the line name no constant. -/
def Constantless (line : String) : Prop :=
  ∃ lexemes, Lexeme.scan line = .ok lexemes ∧ ∀ name, Token.const name ∉ lexemes.map Lexeme.token

namespace SourceFile

/-- The context without its constants. -/
def Context.bare (context : Context) : Context := { context with constants := [] }

variable {definitions : Definitions} {context after : Context}

theorem ofLine_inlined {line : String} {statement : Statement}
    (stand : definitions.Stand context.constants)
    (read : Statement.ofLine context.constants line = .ok statement) :
    (∃ name body value, statement = .const name value ∧
        definition? definitions line = some (name, body) ∧
        Definitions.Stand ((name, body) :: definitions) ((name, value) :: context.constants)) ∨
      (∀ name value, statement ≠ .const name value) ∧ definition? definitions line = none ∧
        Constantless (String.ofList (inlineLine definitions line.toList)) ∧
        Statement.ofLine [] (String.ofList (inlineLine definitions line.toList)) = .ok statement := by
  obtain ⟨lexemes, scanned, parsed⟩ := (except_bind_eq_ok_iff _ _ _).1 read
  have derives := Statement.parse_eq_ok_iff.1 parsed
  have lexes := (Lexeme.lexes_of_scan scanned).inlined stand.spelled
  rw [definition?, scanned]
  by_cases const : ∃ name value, statement = .const name value
  · obtain ⟨name, value, rfl⟩ := const
    obtain ⟨body, next, subset, derives'⟩ := derives.definition stand
    exact .inl ⟨name, body, value, rfl, next,
      stand.cons name derives' fun token member => lexes.spelled token (subset member)⟩
  · have other : ∀ name value, statement ≠ .const name value :=
      fun name value same => const ⟨name, value, same⟩
    obtain ⟨next, constantless, derives'⟩ := derives.inlined stand other
    rw [← String.toList_ofList (l := inlineLine definitions line.toList)] at lexes
    obtain ⟨lexemes', scanned', same⟩ := (Lexeme.scan_iff_lexes _ _).2 lexes
    rw [← same] at constantless derives'
    exact .inr ⟨other, next, ⟨lexemes', scanned', constantless⟩,
      (except_bind_eq_ok_iff _ _ _).2 ⟨_, scanned', Statement.parse_eq_ok_iff.2 derives'⟩⟩

/-- Without its constants a line is read as it was, and a definition as an empty line. -/
theorem parseLine_inlined {position : Position} {line : String} {instruction : Option Instruction}
    (stand : definitions.Stand context.constants)
    (parsed : parseLine context position line = .ok (after, instruction)) :
    ∃ definitions' line', definitions'.Stand after.constants ∧ Constantless line' ∧
      ('\n' ∉ line.toList → '\n' ∉ line'.toList) ∧
      parseLine context.bare position line' = .ok (after.bare, instruction) ∧
      ∀ rest, inlineLines definitions (line :: rest) = line' :: inlineLines definitions' rest := by
  obtain ⟨statement, read, takes⟩ := (parseLine_eq_ok_iff _ _ _ _ _).1 parsed
  rcases ofLine_inlined stand read with
    ⟨name, body, value, rfl, next, stand'⟩ | ⟨other, next, constantless, read'⟩
  · cases takes with
    | const _ =>
      refine ⟨_, "", stand', ⟨[], Lexeme.scan_empty, by simp⟩, by simp, parseLine_empty _ _, fun rest => ?_⟩
      rw [inlineLines, next]
  · refine ⟨definitions, _, ?_, constantless, ?_, (parseLine_eq_ok_iff _ _ _ _ _).2 ⟨_, read', ?_⟩,
      fun rest => by rw [inlineLines, next]⟩
    · cases takes with
      | const _ => exact absurd rfl (other _ _)
      | _ => exact stand
    · rw [String.toList_ofList]
      exact inlineLine_unbroken stand.spelled
    · cases takes with
      | empty => exact .empty
      | const _ => exact absurd rfl (other _ _)
      | label added => exact .label added
      | code added => exact .code added

theorem Parses.inlined {name : String} {number : Nat} {texts : List String} {lines : List Line}
    (parses : Parses name context number texts after lines)
    (stand : definitions.Stand context.constants) :
    ∃ lines', Parses name context.bare number (inlineLines definitions texts) after.bare lines' ∧
      (∀ line ∈ inlineLines definitions texts, Constantless line) ∧
      ((∀ line ∈ texts, '\n' ∉ line.toList) →
        ∀ line ∈ inlineLines definitions texts, '\n' ∉ line.toList) ∧
      lines'.filterMap (·.instruction) = lines.filterMap (·.instruction) := by
  induction parses generalizing definitions with
  | nil => exact ⟨[], .nil, by simp [inlineLines], by simp [inlineLines], rfl⟩
  | @cons context middle after number text rest instruction lines first _ inductionHypothesis =>
    obtain ⟨definitions', line', stand', constantless, unbroken, first', unfolds⟩ :=
      parseLine_inlined stand first
    obtain ⟨lines', rest', others, unbrokenRest, same⟩ := inductionHypothesis stand'
    rw [unfolds rest]
    refine ⟨_, .cons first' rest', List.forall_mem_cons.2 ⟨constantless, others⟩, fun whole => ?_, ?_⟩
    · rw [List.forall_mem_cons] at whole ⊢
      exact ⟨unbroken whole.1, unbrokenRest whole.2⟩
    · rw [List.filterMap_cons, List.filterMap_cons, same]

/-- Constants are hygienic. A text whose uses of constants are replaced by what they are defined to be, in
parentheses, and whose definitions are empty lines, names no constant and has the same instructions. -/
theorem parse_inlined {name text : String} {file : SourceFile} (parsed : parse name text = .ok file) :
    (∃ text', Text.lines text' = inlineLines [] (Text.lines text)) ∧
      ∀ text', Text.lines text' = inlineLines [] (Text.lines text) →
        (∀ line ∈ Text.lines text', Constantless line) ∧
          ∃ file', parse name text' = .ok file' ∧ file'.instructions = file.instructions := by
  obtain ⟨after, lines, parses, settled, rfl⟩ := (parse_eq_ok_iff _ _ _).1 parsed
  obtain ⟨lines', parses', constantless, unbroken, same⟩ := parses.inlined .nil
  have ends := unbroken fun line member => Text.not_mem_lines member
  refine ⟨⟨_, Text.lines_join_returns ends⟩, fun text' whole => ?_⟩
  rw [← whole] at parses' constantless
  exact ⟨constantless, ⟨name, lines'⟩, (parse_eq_ok_iff _ _ _).2 ⟨_, _, parses', settled, rfl⟩, same⟩

/-- A constant inside another one, both in places where they bind more tightly than what they stand for; the
name in the comment stays. -/
theorem parse_inlined_nested : ∃ (file file' : SourceFile),
    parse "t.s" "%a = $02 + @p\n%b = # %a - $01\nLDA $03 * %a;%a\n@p: STA[%b]+Y\n" = .ok file ∧
    Text.lines "\n\nLDA $03 * ($02 + @p );%a\r\n@p: STA[(# ( $02 + @p ) - $01 )]+Y" =
      inlineLines [] (Text.lines "%a = $02 + @p\n%b = # %a - $01\nLDA $03 * %a;%a\n@p: STA[%b]+Y\n") ∧
    parse "t.s" "\n\nLDA $03 * ($02 + @p );%a\r\n@p: STA[(# ( $02 + @p ) - $01 )]+Y" = .ok file' ∧
    file'.instructions = file.instructions := by
  obtain ⟨file, parsed⟩ : ∃ file,
      parse "t.s" "%a = $02 + @p\n%b = # %a - $01\nLDA $03 * %a;%a\n@p: STA[%b]+Y\n" = .ok file := by
    decide +kernel
  have replaced :
      Text.lines "\n\nLDA $03 * ($02 + @p );%a\r\n@p: STA[(# ( $02 + @p ) - $01 )]+Y" =
        inlineLines [] (Text.lines
          "%a = $02 + @p\n%b = # %a - $01\nLDA $03 * %a;%a\n@p: STA[%b]+Y\n") := by
    decide +kernel
  obtain ⟨-, file', parsed', same⟩ := (parse_inlined parsed).2 _ replaced
  exact ⟨file, file', parsed, replaced, parsed', same⟩

end SourceFile
end Micro65
