import Micro65.Proofs.Token.Spelling

set_option autoImplicit false

/-!
Lines and the printed tokens of lines. The tokens of a line, printed with a blank between them, are read back;
and in the line itself each token stands where its column says, in the characters that its printed text has
room in, one behind the other, with nothing around them but blanks and a comment.
-/

namespace Micro65

/-! ### Printed tokens in a row -/

/-- Tokens that can be spelled are read back from their texts with blanks between them. -/
theorem lexes_printed {tokens : List Token}
    (spelled : ∀ token ∈ tokens, Token.Spelled token.text.toList token) :
    Lexes (" ".intercalate (tokens.map Token.text)).toList tokens := by
  induction tokens with
  | nil => exact .nil
  | cons token rest inductionHypothesis =>
    obtain ⟨first, others⟩ := List.forall_mem_cons.1 spelled
    have behind := inductionHypothesis others
    cases rest with
    | nil =>
      rw [List.map_singleton, String.intercalate_singleton, ← List.append_nil token.text.toList]
      exact .token first nofun .nil
    | cons next rest =>
      rw [List.map_cons, List.map_cons, String.intercalate_cons_cons, String.toList_append,
        String.toList_append, List.append_assoc]
      exact .token first (token.stops_blank _) (.blank rfl behind)

/-! ### Columns -/

/-- A token is as long in a line as in print: only the case of its digits can differ. -/
theorem Token.Spelled.length_eq {spelling : List Char} {token : Token}
    (spelled : Spelled spelling token) : spelling.length = token.text.length := by
  rw [← String.length_toList]
  cases spelled with
  | symbol symbol =>
    unfold ofSymbol? at symbol
    split at symbol <;> cases symbol <;> rfl
  | literal _ literal =>
    unfold ofDigits? at literal
    split at literal
    next two =>
      cases literal
      simp [Token.text, Text.hexByte, Text.hexByteDigits, two]
    next four =>
      cases literal
      simp [Token.text, Text.hexWord, Text.hexWordDigits, Text.hexByteDigits, four]
    next => contradiction
  | name => rw [text_ofName, String.toList_ofList]
  | const | label => simp [Token.text]

theorem Token.Spelled.length_pos {spelling : List Char} {token : Token}
    (spelled : Spelled spelling token) : 0 < token.text.length := by
  obtain ⟨first, body, rfl, -, -⟩ := spelled.exists_cons
  rw [← spelled.length_eq]
  exact Nat.succ_pos _

namespace Lexeme

/-- The column behind the token. -/
def finish (lexeme : Lexeme) : Nat := lexeme.column + lexeme.token.text.length

def Covers (lexeme : Lexeme) (column : Nat) : Prop := lexeme.column ≤ column ∧ column < lexeme.finish

/-- The characters, of which the first has the column `start`, are those of the lexemes, each of them where it
says, and of blanks between them. -/
structure Fills (start : Nat) (code : List Char) (lexemes : List Lexeme) : Prop where
  starts : ∀ lexeme ∈ lexemes, start ≤ lexeme.column
  finishes : ∀ lexeme ∈ lexemes, lexeme.finish ≤ start + code.length
  apart : lexemes.Pairwise fun first second => first.finish ≤ second.column
  spelled : ∀ lexeme ∈ lexemes, Token.Spelled
    ((code.drop (lexeme.column - start)).take lexeme.token.text.length) lexeme.token
  blank : ∀ index c, code[index]? = some c → (∀ lexeme ∈ lexemes, ¬lexeme.Covers (start + index)) →
    isBlank c = true

namespace Fills

variable {start : Nat} {code : List Char} {lexemes : List Lexeme}

theorem nil : Fills start [] [] := ⟨nofun, nofun, .nil, nofun, nofun⟩

theorem cons_blank {c : Char} (blank : isBlank c = true) (fills : Fills (start + 1) code lexemes) :
    Fills start (c :: code) lexemes := by
  refine ⟨fun lexeme member => Nat.le_of_succ_le (fills.starts lexeme member), fun lexeme member => ?_,
    fills.apart, fun lexeme member => ?_, fun index d held uncovered => ?_⟩
  · have finish := fills.finishes lexeme member
    rw [List.length_cons]
    omega
  · have column : lexeme.column - start = lexeme.column - (start + 1) + 1 := by
      have := fills.starts lexeme member
      omega
    rw [column, List.drop_succ_cons]
    exact fills.spelled lexeme member
  · cases index with
    | zero =>
      obtain rfl := Option.some.inj held
      exact blank
    | succ index =>
      refine fills.blank index d held fun lexeme member => ?_
      rw [Nat.add_assoc, Nat.add_comm 1]
      exact uncovered lexeme member

theorem cons_token {spelling : List Char} {token : Token} (spelled : Token.Spelled spelling token)
    (fills : Fills (start + spelling.length) code lexemes) :
    Fills start (spelling ++ code) (⟨token, start⟩ :: lexemes) := by
  have length := spelled.length_eq
  have finish : finish ⟨token, start⟩ = start + spelling.length := by rw [length]; rfl
  refine ⟨?_, ?_, ?_, ?_, fun index d held uncovered => ?_⟩
  · refine List.forall_mem_cons.2 ⟨Nat.le_refl _, fun lexeme member => ?_⟩
    exact (Nat.le_add_right _ _).trans (fills.starts lexeme member)
  · rw [List.length_append, ← Nat.add_assoc]
    refine List.forall_mem_cons.2 ⟨?_, fills.finishes⟩
    rw [finish]
    exact Nat.le_add_right _ _
  · refine List.pairwise_cons.2 ⟨fun lexeme member => ?_, fills.apart⟩
    rw [finish]
    exact fills.starts lexeme member
  · refine List.forall_mem_cons.2 ⟨?_, fun lexeme member => ?_⟩
    · dsimp only
      rw [Nat.sub_self, List.drop_zero, ← length, List.take_left]
      exact spelled
    · have column : lexeme.column - start = spelling.length + (lexeme.column - (start + spelling.length)) := by
        have := fills.starts lexeme member
        omega
      rw [column, ← List.drop_drop, List.drop_left]
      exact fills.spelled lexeme member
  · -- The first columns are those of the token itself.
    have behind : spelling.length ≤ index := by
      by_contra inside
      refine uncovered _ List.mem_cons_self ⟨Nat.le_add_right _ _, ?_⟩
      rw [finish]
      omega
    rw [List.getElem?_append_right behind] at held
    refine fills.blank _ d held fun lexeme member => ?_
    have column : start + spelling.length + (index - spelling.length) = start + index := by omega
    rw [column]
    exact uncovered lexeme (List.mem_cons_of_mem _ member)

end Fills

/-- What a line holds in front of its comment are its lexemes and blanks. -/
theorem Written.fills {start : Nat} {line : List Char} {lexemes : List Lexeme}
    (written : Written start line lexemes) : ∃ code comment, line = code ++ comment ∧
      (∀ c ∈ comment.head?, c = ';') ∧ Fills start code lexemes := by
  induction written with
  | nil => exact ⟨[], [], rfl, nofun, .nil⟩
  | blank blank _ inductionHypothesis =>
    obtain ⟨code, comment, rfl, semicolon, fills⟩ := inductionHypothesis
    exact ⟨_, comment, rfl, semicolon, fills.cons_blank blank⟩
  | @comment _ rest => exact ⟨[], ';' :: rest, rfl, by simp, .nil⟩
  | token spelled _ _ inductionHypothesis =>
    obtain ⟨code, comment, rfl, semicolon, fills⟩ := inductionHypothesis
    exact ⟨_, comment, (List.append_assoc _ _ _).symm, semicolon, fills.cons_token spelled⟩

/-- Printing keeps the tokens of a line. The texts of the tokens, with blanks between them, are read back as
the same tokens. In the line itself the columns increase, and in front of the comment, if there is one, the
characters that no token takes up are blanks. -/
theorem scan_printed {line : String} {lexemes : List Lexeme} (scanned : scan line = .ok lexemes) :
    (∃ again, scan (" ".intercalate (lexemes.map (·.token.text))) = .ok again ∧
      again.map Lexeme.token = lexemes.map Lexeme.token) ∧
    (lexemes.map Lexeme.column).Pairwise (· < ·) ∧
    ∃ code comment, line.toList = code ++ comment ∧ (∀ c ∈ comment.head?, c = ';') ∧
      Fills 0 code lexemes := by
  have written := written_of_scan scanned
  have spelled := written.lexes.spelled
  refine ⟨?_, ?_, written.fills⟩
  · have printed := lexes_printed spelled
    rw [List.map_map] at printed
    exact (scan_iff_lexes _ _).2 printed
  · obtain ⟨code, comment, -, -, fills⟩ := written.fills
    rw [List.pairwise_map]
    refine fills.apart.imp_of_mem fun {first second} member _ apart => ?_
    have length := (spelled first.token (List.mem_map_of_mem member)).length_pos
    unfold finish at apart
    omega

/-- Tokens that touch, a name that starts with a digit, a literal in lower case, and a comment. -/
theorem scan_printed_touching : ∃ lexemes : List Lexeme,
    scan "@1a:LDA#$0f+X ;x" = .ok lexemes ∧
    lexemes = [⟨.label "1a", 0⟩, ⟨.colon, 3⟩, ⟨.ident "LDA", 4⟩, ⟨.hash, 7⟩, ⟨.byte 0x0F, 8⟩,
      ⟨.plus, 11⟩, ⟨.register .x, 12⟩] ∧
    (∃ again : List Lexeme, scan (" ".intercalate (lexemes.map (·.token.text))) = .ok again ∧
      again.map Lexeme.token = lexemes.map Lexeme.token) ∧
    (lexemes.map Lexeme.column).Pairwise (· < ·) ∧
    ∃ code comment, "@1a:LDA#$0f+X ;x".toList = code ++ comment ∧ (∀ c ∈ comment.head?, c = ';') ∧
      Fills 0 code lexemes := by
  have scanned : ∃ lexemes, scan "@1a:LDA#$0f+X ;x" = .ok lexemes ∧
      lexemes = [⟨.label "1a", 0⟩, ⟨.colon, 3⟩, ⟨.ident "LDA", 4⟩, ⟨.hash, 7⟩, ⟨.byte 0x0F, 8⟩,
        ⟨.plus, 11⟩, ⟨.register .x, 12⟩] := by
    decide +kernel
  obtain ⟨lexemes, scanned, same⟩ := scanned
  exact ⟨lexemes, scanned, same, scan_printed scanned⟩

end Lexeme
end Micro65
