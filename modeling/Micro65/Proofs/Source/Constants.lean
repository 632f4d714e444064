import Mathlib.Data.List.Basic
import Micro65.Asm.Source
import Micro65.Proofs.Source.Statements
import Micro65.Proofs.Text.Lines

set_option autoImplicit false

/-!
Constants of parsed sources. A line that can be read stays as it is when more constants are known, if those
known before keep their values, and when a carriage return at its end is taken away.
-/

namespace Micro65

/-- The constant that a line defines: its first lexeme, if an equals sign follows. -/
def Lexeme.constant? : List Lexeme → Option String
  | ⟨.const name, _⟩ :: ⟨.equal, _⟩ :: _ => some name
  | _ => none

def definedConstant? (line : String) : Option String :=
  (Lexeme.scan line).toOption.bind Lexeme.constant?

/-- The names of the constants that a text defines. -/
def definedConstants (text : String) : List String :=
  (Text.lines text).filterMap definedConstant?

/-! ### More constants -/

/-- What succeeds does so in the same way afterwards. -/
def Kept {ε α : Type} (before after : Except ε α) : Prop :=
  ∀ value, before = .ok value → after = .ok value

namespace Kept

variable {ε α β : Type} {before after : Except ε α}

theorem refl (result : Except ε α) : Kept result result := fun _ done => done

theorem of_error (failure : ε) : Kept (.error failure) after := nofun

theorem bind {next next' : α → Except ε β} (first : Kept before after)
    (rest : ∀ value, Kept (next value) (next' value)) :
    Kept (before >>= next) (after >>= next') := by
  intro result done
  obtain ⟨value, one, other⟩ := (except_bind_eq_ok_iff _ _ _).1 done
  exact (except_bind_eq_ok_iff _ _ _).2 ⟨value, first value one, rest value result other⟩

end Kept

/-- Every constant has the value that it had. -/
def Constants.Extends (fewer more : Constants) : Prop :=
  ∀ name value, fewer.lookup name = some value → more.lookup name = some value

theorem Constants.extends_append (constants extra : Constants) :
    constants.Extends (constants ++ extra) := by
  intro name value known
  rw [List.lookup_append, known]
  rfl

section Extended

variable {fewer more : Constants}

theorem Expr.Derives.extended (extended : fewer.Extends more) {level : Level}
    {tokens behind : List Token} {expr : Expr} (derives : Derives fewer level tokens behind expr) :
    Derives more level tokens behind expr := by
  induction derives with
  | byte value => exact .byte value
  | word value => exact .word value
  | label name => exact .label name
  | register which => exact .register which
  | constant known => exact .constant (extended _ _ known)
  | parens _ inner => exact .parens inner
  | brackets _ inner => exact .brackets inner
  | address extent _ inner => exact .address extent inner
  | half side extent _ inner => exact .half side extent inner
  | factor _ simple => exact .factor simple
  | times _ _ left right => exact .times left right
  | term _ product => exact .term product
  | plus _ _ left right => exact .plus left right
  | minus _ _ left right => exact .minus left right

theorem Code.Derives.extended (extended : fewer.Extends more) {spelling : String}
    {tokens : List Token} {code : Code} (derives : Derives fewer spelling tokens code) :
    Derives more spelling tokens code := by
  cases derives with
  | bare known takes => exact .bare known takes
  | operand known takes operand => exact .operand known takes (operand.extended extended)

namespace Statement

theorem Derives.extended (extended : fewer.Extends more) {tokens : List Token}
    {statement : Statement} (derives : Derives fewer tokens statement) :
    Derives more tokens statement := by
  cases derives with
  | empty => exact .empty
  | const value => exact .const (value.extended extended)
  | label name => exact .label name
  | labelled code => exact .labelled (code.extended extended)
  | code code => exact .code (code.extended extended)

theorem parse_kept (extended : fewer.Extends more) (lexemes : List Lexeme) :
    Kept (parse fewer lexemes) (parse more lexemes) :=
  fun _ parsed => parse_eq_ok_iff.2 ((parse_eq_ok_iff.1 parsed).extended extended)

end Statement

end Extended

/-! ### Carriage returns -/

theorem Token.read_le {column taken : Nat} {first : Char} {rest : List Char} {token : Token}
    (read : Token.read column first rest = .ok (token, taken)) : taken ≤ rest.length := by
  unfold Token.read at read
  have name := (List.takeWhile_prefix isNameChar : _ <+: rest).length_le
  have digits := (List.takeWhile_prefix Text.isHexDigit : _ <+: rest).length_le
  dsimp only at read
  repeat' split at read
  all_goals cases read
  all_goals first | assumption | exact Nat.zero_le _

theorem takeWhile_concat {α : Type} {p : α → Bool} {last : α} (stops : p last = false)
    (items : List α) : (items ++ [last]).takeWhile p = items.takeWhile p := by
  induction items with
  | nil => simp [stops]
  | cons item items inductionHypothesis =>
    rw [List.cons_append, List.takeWhile_cons, List.takeWhile_cons, inductionHypothesis]

theorem Token.read_return (column : Nat) (first : Char) (rest : List Char) :
    Token.read column first (rest ++ ['\r']) = Token.read column first rest := by
  unfold Token.read
  rw [takeWhile_concat (by decide), takeWhile_concat (by decide)]

namespace Lexeme

theorem scanFrom_return (column : Nat) (line : List Char) :
    Kept (scanFrom column (line ++ ['\r'])) (scanFrom column line) := by
  induction column, line using scanFrom.induct with
  | case1 column =>
    have fails : scanFrom column ['\r'] = .error (.unexpectedChar '\r' (column + 1)) := by
      rw [scanFrom]
      rfl
    rw [List.nil_append, fails]
    exact .of_error _
  | case2 column first rest blank inductionHypothesis =>
    rw [List.cons_append, scanFrom, scanFrom, if_pos blank, if_pos blank]
    exact inductionHypothesis
  | case3 column rest blank =>
    rw [List.cons_append, scanFrom, scanFrom, if_neg blank, if_neg blank, if_pos rfl, if_pos rfl]
    exact .refl _
  | case4 column first rest blank comment inductionHypothesis =>
    rw [List.cons_append, scanFrom, scanFrom, if_neg blank, if_neg blank, if_neg comment,
      if_neg comment, Token.read_return]
    cases read : Token.read column first rest with
    | error failure => exact .of_error failure
    | ok found =>
      obtain ⟨token, taken⟩ := found
      have within := Token.read_le read
      change Kept (scanFrom _ ((rest ++ ['\r']).drop taken) >>= _) (scanFrom _ (rest.drop taken) >>= _)
      rw [List.drop_append_of_le_length within]
      exact (inductionHypothesis taken).bind fun _ => .refl _

theorem scan_asRead (line : String) : Kept (scan line) (scan (Text.asRead line)) := by
  unfold scan Text.asRead
  rw [String.toList_ofList]
  rcases List.eq_nil_or_concat line.toList with empty | ⟨before, last, whole⟩
  · rw [empty]
    exact .refl _
  · rw [whole, List.concat_eq_append, Text.withoutReturn_concat]
    split
    next carriage =>
      rw [carriage]
      exact scanFrom_return 0 before
    next => exact .refl _

end Lexeme

end Micro65
