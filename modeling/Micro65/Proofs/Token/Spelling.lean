import Mathlib.Data.List.TakeWhile
import Micro65.Asm.Token.Lexer
import Micro65.Proofs.Success
import Micro65.Proofs.Text.Hex

set_option autoImplicit false

/-!
How tokens are spelled. A line is made of spelled tokens, each of which takes as many characters as it can,
with blanks between them and a comment at the end; and a token that can be spelled at all is spelled by its
printed text.
-/

namespace Micro65

namespace Token

/-- The characters are written for the token. -/
inductive Spelled : List Char → Token → Prop where
  | symbol {c token} : ofSymbol? c = some token → Spelled [c] token
  | literal {digits token} : (∀ c ∈ digits, Text.isHexDigit c = true) →
      ofDigits? digits = some token → Spelled ('$' :: digits) token
  | name {first rest} : isNameStart first = true → (∀ c ∈ rest, isNameChar c = true) →
      Spelled (first :: rest) (ofName (String.ofList (first :: rest)))
  | const {name} : name ≠ [] → (∀ c ∈ name, isNameChar c = true) →
      Spelled ('%' :: name) (const (String.ofList name))
  | label {name} : name ≠ [] → (∀ c ∈ name, isNameChar c = true) →
      Spelled ('@' :: name) (label (String.ofList name))

/-- The characters that behind the token would belong to it. -/
def goesOn : Token → Char → Bool
  | ident _ | const _ | label _ | register _ => isNameChar
  | byte _ | word _ => Text.isHexDigit
  | _ => fun _ => false

/-- The token ends in front of these characters. -/
def Stops (token : Token) (behind : List Char) : Prop := ∀ c ∈ behind.head?, token.goesOn c = false

theorem stops_cons {token : Token} {c : Char} (behind : List Char) (other : token.goesOn c = false) :
    token.Stops (c :: behind) := by
  simpa [Stops] using other

theorem goesOn_of_outside {c : Char} (name : isNameChar c = false) (digit : Text.isHexDigit c = false)
    (token : Token) : token.goesOn c = false := by
  cases token <;> first | exact name | exact digit | rfl

/-- A token ends in front of a blank. -/
theorem stops_blank (token : Token) (behind : List Char) : token.Stops (' ' :: behind) :=
  stops_cons behind (token.goesOn_of_outside (by decide) (by decide))

/-! ### First characters -/

theorem isNameStart_of_symbol {c : Char} {token : Token} (symbol : ofSymbol? c = some token) :
    isNameStart c = false := by
  unfold ofSymbol? at symbol
  split at symbol <;> first | contradiction | decide

theorem ofSymbol?_of_isNameStart {c : Char} (start : isNameStart c = true) : ofSymbol? c = none := by
  cases symbol : ofSymbol? c with
  | none => rfl
  | some token =>
    rw [isNameStart_of_symbol symbol] at start
    contradiction

theorem goesOn_of_symbol {c : Char} {token : Token} (symbol : ofSymbol? c = some token) (d : Char) :
    token.goesOn d = false := by
  unfold ofSymbol? at symbol
  split at symbol <;> cases symbol <;> rfl

theorem goesOn_ofName (name : String) : (ofName name).goesOn = isNameChar := by
  unfold ofName
  split <;> rfl

theorem goesOn_of_digits {digits : List Char} {token : Token} (literal : ofDigits? digits = some token) :
    token.goesOn = Text.isHexDigit := by
  unfold ofDigits? at literal
  split at literal <;> cases literal <;> rfl

theorem ne_of_isNameStart {first other : Char} (start : isNameStart first = true)
    (none : isNameStart other = false) : first ≠ other := by
  rintro rfl
  rw [start] at none
  contradiction

/-- Every token starts with a character that starts no comment and is not blank. -/
theorem Spelled.exists_cons {spelling : List Char} {token : Token} (spelled : Spelled spelling token) :
    ∃ first rest, spelling = first :: rest ∧ isBlank first = false ∧ first ≠ ';' := by
  cases spelled with
  | @symbol c token symbol =>
    refine ⟨c, [], rfl, ?_⟩
    unfold ofSymbol? at symbol
    split at symbol <;> first | contradiction | decide
  | literal digits literal => exact ⟨_, _, rfl, by decide, by decide⟩
  | @name first rest start others =>
    refine ⟨first, rest, rfl, ?_, ne_of_isNameStart start (by decide)⟩
    have space : first ≠ ' ' := ne_of_isNameStart start (by decide)
    have tab : first ≠ '\t' := ne_of_isNameStart start (by decide)
    simp [isBlank, space, tab]
  | const some others => exact ⟨_, _, rfl, by decide, by decide⟩
  | label some others => exact ⟨_, _, rfl, by decide, by decide⟩

/-- No token goes over the end of a line. -/
theorem Spelled.unbroken {spelling : List Char} {token : Token} (spelled : Spelled spelling token) :
    '\n' ∉ spelling := by
  have outside : ∀ {p : Char → Bool} {body : List Char}, p '\n' = false → (∀ c ∈ body, p c = true) →
      '\n' ∉ body := by
    intro p body other all member
    rw [all _ member] at other
    contradiction
  cases spelled with
  | @symbol c token symbol =>
    rw [List.mem_singleton]
    rintro rfl
    contradiction
  | literal all _ => exact List.not_mem_cons_of_ne_of_not_mem (by decide) (outside (by decide) all)
  | name start all =>
    exact List.not_mem_cons_of_ne_of_not_mem (ne_of_isNameStart start (by decide)).symm
      (outside (by decide) all)
  | const _ all => exact List.not_mem_cons_of_ne_of_not_mem (by decide) (outside (by decide) all)
  | label _ all => exact List.not_mem_cons_of_ne_of_not_mem (by decide) (outside (by decide) all)

/-! ### The longest match -/

theorem takeWhile_body {p : Char → Bool} {body behind : List Char} (all : ∀ c ∈ body, p c = true)
    (stops : ∀ c ∈ behind.head?, p c = false) : (body ++ behind).takeWhile p = body := by
  have none : behind.takeWhile p = [] := by
    cases behind with
    | nil => rfl
    | cons c behind => simp [stops c rfl]
  rw [List.takeWhile_append_of_pos all, none, List.append_nil]

/-- What is taken while a property holds, and a rest that starts without it. -/
theorem exists_takeWhile (p : Char → Bool) (line : List Char) : ∃ behind,
    line = line.takeWhile p ++ behind ∧ (∀ c ∈ line.takeWhile p, p c = true) ∧
      ∀ c ∈ behind.head?, p c = false := by
  refine ⟨line.dropWhile p, List.takeWhile_append_dropWhile.symm,
    fun c member => List.mem_takeWhile_imp member, fun c first => ?_⟩
  have := List.head?_dropWhile_not p line
  rw [Option.mem_def.1 first] at this
  simpa using this

/-- What is read is spelled, and stops where it ends. -/
theorem spelled_of_read {column taken : Nat} {first : Char} {rest : List Char} {token : Token}
    (done : read column first rest = .ok (token, taken)) :
    ∃ body behind, rest = body ++ behind ∧ body.length = taken ∧ Spelled (first :: body) token ∧
      token.Stops behind := by
  obtain ⟨behind, whole, all, stops⟩ := exists_takeWhile isNameChar rest
  unfold read at done
  dsimp only at done
  split at done
  next symbol =>
    cases done
    exact ⟨[], rest, rfl, rfl, .symbol symbol, fun c _ => goesOn_of_symbol symbol c⟩
  next =>
    split at done
    next dollar =>
      obtain ⟨behind, whole, all, stops⟩ := exists_takeWhile Text.isHexDigit rest
      split at done
      next literal =>
        cases done
        subst dollar
        refine ⟨_, behind, whole, rfl, .literal all literal, ?_⟩
        rw [Stops, goesOn_of_digits literal]
        exact stops
      next => contradiction
    next =>
      split at done
      next start =>
        cases done
        refine ⟨_, behind, whole, rfl, .name start all, ?_⟩
        rw [Stops, goesOn_ofName]
        exact stops
      next =>
        split at done
        · contradiction
        next some =>
          rw [List.isEmpty_iff] at some
          split at done
          next percent =>
            cases done
            subst percent
            exact ⟨_, behind, whole, rfl, .const some all, stops⟩
          next =>
            split at done
            next sign =>
              cases done
              subst sign
              exact ⟨_, behind, whole, rfl, .label some all, stops⟩
            next => contradiction

/-- What is spelled and stops is read, at any column. -/
theorem Spelled.read {first : Char} {body behind : List Char} {token : Token}
    (spelled : Spelled (first :: body) token) (stops : token.Stops behind) (column : Nat) :
    Token.read column first (body ++ behind) = .ok (token, body.length) := by
  unfold Token.read
  cases spelled with
  | symbol symbol =>
    rw [symbol]
    rfl
  | literal all literal =>
    rw [Stops, goesOn_of_digits literal] at stops
    simp only [takeWhile_body all stops, literal]
    rfl
  | name start all =>
    rw [Stops, goesOn_ofName] at stops
    have other : first ≠ '$' := ne_of_isNameStart start (by decide)
    simp only [takeWhile_body all stops, ofSymbol?_of_isNameStart start, if_neg other, if_pos start]
  | const some all =>
    have nonempty : body.isEmpty = false := by simpa using some
    simp only [takeWhile_body all stops, nonempty]
    rfl
  | label some all =>
    have nonempty : body.isEmpty = false := by simpa using some
    simp only [takeWhile_body all stops, nonempty]
    rfl

/-! ### Printed tokens -/

theorem text_ofName (name : String) : (ofName name).text = name := by
  unfold ofName
  split
  next which found =>
    have same := List.find?_some found
    exact beq_iff_eq.1 same
  next => rfl

theorem ofDigits?_hexByteDigits (value : UInt8) :
    ofDigits? (Text.hexByteDigits value) = some (byte value) := by
  have known : ofDigits? (Text.hexByteDigits value) =
      some (byte (Text.hexValue (Text.hexByteDigits value)).toUInt8) := rfl
  rw [known, Text.hexValue_hexByteDigits]
  exact congrArg (fun value => some (byte value)) UInt8.ofNat_toNat

theorem ofDigits?_hexWordDigits (value : UInt16) :
    ofDigits? (Text.hexWordDigits value) = some (word value) := by
  have known : ofDigits? (Text.hexWordDigits value) =
      some (word (Text.hexValue (Text.hexWordDigits value)).toUInt16) := rfl
  rw [known, Text.hexValue_hexWordDigits]
  exact congrArg (fun value => some (word value)) UInt16.ofNat_toNat

theorem spelled_byte (value : UInt8) : Spelled (byte value).text.toList (byte value) := by
  have written : (byte value).text.toList = '$' :: Text.hexByteDigits value := by
    simp [text, Text.hexByte]
  rw [written]
  exact .literal Text.isHexDigit_of_mem_hexByteDigits (ofDigits?_hexByteDigits value)

theorem spelled_word (value : UInt16) : Spelled (word value).text.toList (word value) := by
  have written : (word value).text.toList = '$' :: Text.hexWordDigits value := by
    simp [text, Text.hexWord]
  rw [written]
  exact .literal Text.isHexDigit_of_mem_hexWordDigits (ofDigits?_hexWordDigits value)

/-- Whatever can be spelled is spelled by its printed text. -/
theorem Spelled.text {spelling : List Char} {token : Token} (spelled : Spelled spelling token) :
    Spelled token.text.toList token := by
  cases spelled with
  | symbol symbol =>
    unfold ofSymbol? at symbol
    split at symbol <;> cases symbol <;> exact .symbol rfl
  | literal all literal =>
    unfold ofDigits? at literal
    split at literal <;> cases literal
    · exact spelled_byte _
    · exact spelled_word _
  | name start all =>
    rw [text_ofName, String.toList_ofList]
    exact .name start all
  | @const name some all =>
    have written : (Token.const (String.ofList name)).text.toList = '%' :: name := by
      simp [Token.text]
    rw [written]
    exact .const some all
  | @label name some all =>
    have written : (Token.label (String.ofList name)).text.toList = '@' :: name := by
      simp [Token.text]
    rw [written]
    exact .label some all

end Token

/-! ### Lines -/

/-- The line is made of the tokens. -/
inductive Lexes : List Char → List Token → Prop where
  | nil : Lexes [] []
  | blank {c rest tokens} : isBlank c = true → Lexes rest tokens → Lexes (c :: rest) tokens
  | comment {rest} : Lexes (';' :: rest) []
  | token {spelling token rest tokens} : Token.Spelled spelling token → token.Stops rest →
      Lexes rest tokens → Lexes (spelling ++ rest) (token :: tokens)

theorem Lexes.symbol {c : Char} {token : Token} {rest : List Char} {tokens : List Token}
    (symbol : Token.ofSymbol? c = some token) (lexes : Lexes rest tokens) :
    Lexes (c :: rest) (token :: tokens) := by
  have whole : Lexes ([c] ++ rest) (token :: tokens) :=
    .token (.symbol symbol) (fun d _ => Token.goesOn_of_symbol symbol d) lexes
  exact whole

/-- The tokens of a line can be spelled as they are printed. -/
theorem Lexes.spelled {line : List Char} {tokens : List Token} (lexes : Lexes line tokens) :
    ∀ token ∈ tokens, Token.Spelled token.text.toList token := by
  induction lexes with
  | nil => simp
  | blank _ _ inductionHypothesis => exact inductionHypothesis
  | comment => simp
  | token own _ _ inductionHypothesis => exact List.forall_mem_cons.2 ⟨own.text, inductionHypothesis⟩

namespace Lexeme

/-- The rest of a line from a column on is made of the lexemes, each of them at its column. -/
inductive Written : Nat → List Char → List Lexeme → Prop where
  | nil {column} : Written column [] []
  | blank {column c rest lexemes} : isBlank c = true → Written (column + 1) rest lexemes →
      Written column (c :: rest) lexemes
  | comment {column rest} : Written column (';' :: rest) []
  | token {column spelling token rest lexemes} : Token.Spelled spelling token → token.Stops rest →
      Written (column + spelling.length) rest lexemes →
      Written column (spelling ++ rest) (⟨token, column⟩ :: lexemes)

theorem written_of_scan {column : Nat} {line : List Char} {lexemes : List Lexeme}
    (scanned : scanFrom column line = .ok lexemes) : Written column line lexemes := by
  induction column, line using scanFrom.induct generalizing lexemes with
  | case1 column =>
    rw [scanFrom] at scanned
    cases scanned
    exact .nil
  | case2 column first rest blank inductionHypothesis =>
    rw [scanFrom, if_pos blank] at scanned
    exact .blank blank (inductionHypothesis scanned)
  | case3 column rest blank =>
    rw [scanFrom, if_neg blank, if_pos rfl] at scanned
    cases scanned
    exact .comment
  | case4 column first rest blank comment inductionHypothesis =>
    rw [scanFrom, if_neg blank, if_neg comment, except_bind_eq_ok_iff] at scanned
    obtain ⟨⟨token, taken⟩, read, scanned⟩ := scanned
    obtain ⟨more, scannedMore, done⟩ := (except_bind_eq_ok_iff _ _ _).1 scanned
    cases done
    obtain ⟨body, behind, rfl, rfl, spelled, stops⟩ := Token.spelled_of_read read
    have others := inductionHypothesis _ scannedMore
    rw [List.drop_left, Nat.add_assoc, Nat.add_comm 1] at others
    exact .token spelled stops others

theorem Written.lexes {column : Nat} {line : List Char} {lexemes : List Lexeme}
    (written : Written column line lexemes) : Lexes line (lexemes.map Lexeme.token) := by
  induction written with
  | nil => exact .nil
  | blank blank _ inductionHypothesis => exact .blank blank inductionHypothesis
  | comment => exact .comment
  | token spelled stops _ inductionHypothesis => exact .token spelled stops inductionHypothesis

theorem lexes_of_scan {column : Nat} {line : List Char} {lexemes : List Lexeme}
    (scanned : scanFrom column line = .ok lexemes) : Lexes line (lexemes.map Lexeme.token) :=
  (written_of_scan scanned).lexes

theorem scan_of_lexes {line : List Char} {tokens : List Token} (lexes : Lexes line tokens) :
    ∀ column, ∃ lexemes, scanFrom column line = .ok lexemes ∧ lexemes.map Lexeme.token = tokens := by
  induction lexes with
  | nil =>
    intro column
    exact ⟨[], by rw [scanFrom], rfl⟩
  | blank blank _ inductionHypothesis =>
    intro column
    rw [scanFrom, if_pos blank]
    exact inductionHypothesis (column + 1)
  | comment =>
    intro column
    exact ⟨[], by rw [scanFrom, if_neg (by decide), if_pos rfl], rfl⟩
  | @token spelling token rest tokens spelled stops _ inductionHypothesis =>
    intro column
    obtain ⟨first, body, rfl, blank, comment⟩ := spelled.exists_cons
    obtain ⟨more, scanned, same⟩ := inductionHypothesis (column + 1 + body.length)
    refine ⟨⟨token, column⟩ :: more, ?_, by rw [List.map_cons, same]⟩
    rw [List.cons_append, scanFrom, blank, if_neg (by decide), if_neg comment,
      spelled.read stops column]
    change (scanFrom _ (List.drop body.length (body ++ rest)) >>= _) = _
    rw [List.drop_left, scanned]
    rfl

/-- A line has lexemes exactly if it is made of their tokens. -/
theorem scan_iff_lexes (line : String) (tokens : List Token) :
    (∃ lexemes, scan line = .ok lexemes ∧ lexemes.map Lexeme.token = tokens) ↔
      Lexes line.toList tokens := by
  constructor
  · rintro ⟨lexemes, scanned, rfl⟩
    exact lexes_of_scan scanned
  · intro lexes
    exact scan_of_lexes lexes 0

end Lexeme
end Micro65
