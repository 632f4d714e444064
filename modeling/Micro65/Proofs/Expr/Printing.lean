import Micro65.Proofs.Source.Statements
import Micro65.Proofs.Token.Printing

set_option autoImplicit false

/-!
Expressions in print. The printed text of an expression is made of the tokens of its parts, without grouping
parentheses, and these tokens derive the expression itself exactly if it needs none: if sums and products are
grouped to the left, products have no sums for factors, and nothing follows a prefix and what it applies to.
-/

namespace Micro65

namespace Token

/-- The token leaves a trace in the expression that it is written for. -/
def shows : Token → Bool
  | leftParen | rightParen => false
  | _ => true

end Token

/-- A list is cut at one place only, if the first parts have the same number of tokens that show. -/
theorem append_cons_inj_of_countP {first second first' second' : List Token} {token : Token}
    (shows : token.shows = true) (count : first.countP Token.shows = first'.countP Token.shows)
    (same : first ++ token :: second = first' ++ token :: second') :
    first = first' ∧ second = second' := by
  induction first generalizing first' with
  | nil =>
    cases first' with
    | nil => exact ⟨rfl, (List.cons.inj same).2⟩
    | cons next rest =>
      obtain ⟨rfl, -⟩ := List.cons.inj same
      simp [shows] at count
  | cons next rest inductionHypothesis =>
    cases first' with
    | nil =>
      obtain ⟨rfl, -⟩ := List.cons.inj same
      simp [shows] at count
    | cons next' rest' =>
      obtain ⟨rfl, more⟩ := List.cons.inj same
      simp only [List.countP_cons, Nat.add_right_cancel_iff] at count
      obtain ⟨rfl, rfl⟩ := inductionHypothesis count more
      exact ⟨rfl, rfl⟩

namespace Expr

/-- The tokens of the printed text. -/
def printed : Expr → List Token
  | literal value => [if value < 0x100 then .byte value.toUInt8 else .word value]
  | label name => [.label name]
  | register which => [.register which]
  | address inner => .hash :: inner.printed
  | add left right => left.printed ++ .plus :: right.printed
  | sub left right => left.printed ++ .minus :: right.printed
  | mul left right => left.printed ++ .star :: right.printed
  | indirect inner => .leftBracket :: inner.printed ++ [.rightBracket]
  | half side inner => .ident side.name :: .leftParen :: inner.printed ++ [.rightParen]

/-- No grouping parentheses are needed to write the expression in a place for expressions of the level. The
last place is one where nothing follows, up to the end or to a closing bracket. -/
def Ungrouped (level : Level) (last : Prop) : Expr → Prop
  | literal _ | label _ | register _ => True
  | address inner => last ∧ inner.Ungrouped .sum True
  | add left right | sub left right =>
    level = .sum ∧ left.Ungrouped .sum False ∧ right.Ungrouped .product last
  | mul left right => level ≠ .simple ∧ left.Ungrouped .product False ∧ right.Ungrouped .simple last
  | indirect inner => inner.Ungrouped .sum True
  | half _ inner => last ∧ inner.Ungrouped .sum True

/-! ### The tokens of the text -/

/-- The text is made of the tokens, in front of anything that belongs to no token before it. -/
def Prints (text : List Char) (tokens : List Token) : Prop :=
  ∀ ⦃rest : List Char⦄ ⦃others : List Token⦄, (∀ token : Token, token.Stops rest) →
    Lexes rest others → Lexes (text ++ rest) (tokens ++ others)

section Prints

variable {text left right : List Char} {tokens first second : List Token} {c d : Char}
  {token other : Token}

theorem prints_of_spelled (spelled : Token.Spelled text token) : Prints text [token] :=
  fun _ _ apart lexes => .token spelled (apart token) lexes

/-- A symbol belongs to no token before it. -/
theorem stops_symbol (symbol : Token.ofSymbol? c = some token) (rest : List Char) (before : Token) :
    before.Stops (c :: rest) := by
  refine Token.stops_cons rest (before.goesOn_of_outside ?_ ?_)
  all_goals
    unfold Token.ofSymbol? at symbol
    split at symbol <;> first | contradiction | decide

theorem Prints.cons (prints : Prints text tokens) (symbol : Token.ofSymbol? c = some token) :
    Prints (c :: text) (token :: tokens) :=
  fun _ _ apart lexes => .symbol symbol (prints apart lexes)

theorem Prints.append (prints : Prints left first) (prints' : Prints right second)
    (apart : ∀ (token : Token) (rest : List Char), token.Stops (right ++ rest)) :
    Prints (left ++ right) (first ++ second) := by
  intro rest others apart' lexes
  rw [List.append_assoc, List.append_assoc]
  exact prints (fun token => apart token rest) (prints' apart' lexes)

theorem Prints.join (prints : Prints left first) (symbol : Token.ofSymbol? c = some token)
    (prints' : Prints right second) :
    Prints (left ++ ' ' :: c :: ' ' :: right) (first ++ token :: second) :=
  prints.append (fun _ _ apart lexes => .blank rfl (.symbol symbol (.blank rfl (prints' apart lexes))))
    fun before _ => before.stops_blank _

theorem Prints.enclose (prints : Prints text tokens) (opens : Token.ofSymbol? c = some token)
    (closes : Token.ofSymbol? d = some other) :
    Prints (c :: text ++ [d]) (token :: tokens ++ [other]) :=
  (prints.cons opens).append (fun _ _ _ lexes => .symbol closes lexes)
    fun before rest => stops_symbol closes rest before

end Prints

theorem spelled_register (which : Register) : Token.Spelled which.name.toList (.register which) := by
  cases which <;> exact .name rfl nofun

theorem spelled_half (side : Half) : Token.Spelled side.name.toList (.ident side.name) := by
  cases side <;> exact .name rfl (List.forall_mem_singleton.2 rfl)

/-- Every label mentioned has a name that can be written. -/
def Named (expr : Expr) : Prop :=
  ∀ name ∈ expr.labels, Token.Spelled (Token.label name).text.toList (.label name)

theorem prints_text {expr : Expr} (named : expr.Named) : Prints expr.text.toList expr.printed := by
  induction expr with
  | literal value =>
    refine prints_of_spelled ?_
    rw [text]
    split
    · exact Token.spelled_byte _
    · exact Token.spelled_word _
  | label name => exact prints_of_spelled (named name (List.mem_singleton.2 rfl))
  | register which => exact prints_of_spelled (spelled_register which)
  | address inner inductionHypothesis =>
    have written : (address inner).text.toList = '#' :: inner.text.toList := by simp [text]
    rw [written]
    exact (inductionHypothesis named).cons rfl
  | add left right first second =>
    rw [Named, labels, List.forall_mem_append] at named
    have written : (add left right).text.toList =
        left.text.toList ++ ' ' :: '+' :: ' ' :: right.text.toList := by simp [text]
    rw [written]
    exact (first named.1).join rfl (second named.2)
  | sub left right first second =>
    rw [Named, labels, List.forall_mem_append] at named
    have written : (sub left right).text.toList =
        left.text.toList ++ ' ' :: '-' :: ' ' :: right.text.toList := by simp [text]
    rw [written]
    exact (first named.1).join rfl (second named.2)
  | mul left right first second =>
    rw [Named, labels, List.forall_mem_append] at named
    have written : (mul left right).text.toList =
        left.text.toList ++ ' ' :: '*' :: ' ' :: right.text.toList := by simp [text]
    rw [written]
    exact (first named.1).join rfl (second named.2)
  | indirect inner inductionHypothesis =>
    have written : (indirect inner).text.toList = '[' :: inner.text.toList ++ [']'] := by simp [text]
    rw [written]
    exact (inductionHypothesis named).enclose rfl rfl
  | half side inner inductionHypothesis =>
    have written : (half side inner).text.toList =
        side.name.toList ++ ('(' :: inner.text.toList ++ [')']) := by simp [text]
    rw [written]
    exact (prints_of_spelled (spelled_half side)).append ((inductionHypothesis named).enclose rfl rfl)
      fun before rest => stops_symbol rfl _ before

/-! ### What the tokens derive -/

theorem Derives.countP_eq {level : Level} {tokens behind : List Token} {expr : Expr}
    (derives : Derives [] level tokens behind expr) :
    tokens.countP Token.shows = expr.printed.countP Token.shows := by
  induction derives with
  | byte value | word value => rw [printed]; split <;> rfl
  | label | register => rfl
  | constant known => contradiction
  | parens _ inductionHypothesis => simpa [Token.shows] using inductionHypothesis
  | brackets _ inductionHypothesis | address _ _ inductionHypothesis | half _ _ _ inductionHypothesis =>
    simp [printed, List.countP_cons, Token.shows, inductionHypothesis]
  | factor _ inductionHypothesis | term _ inductionHypothesis => exact inductionHypothesis
  | times _ _ left right | plus _ _ left right | minus _ _ left right =>
    simp [printed, List.countP_cons, left, right]

theorem printed_append_ne (expr : Expr) (others rest : List Token) :
    expr.printed ++ others ≠ .leftParen :: rest := by
  induction expr generalizing others with
  | literal value =>
    rw [printed]
    split <;> nofun
  | add left right first _ | sub left right first _ | mul left right first _ =>
    rw [printed, List.append_assoc]
    exact first _
  | _ => nofun

theorem printed_ne (expr : Expr) (rest : List Token) : expr.printed ≠ .leftParen :: rest := by
  simpa using expr.printed_append_ne [] rest

/-- Printed tokens open and close their own brackets. -/
theorem untilClosing_printed (expr : Expr) (depth : Nat) (behind : List Token) :
    Token.untilClosing depth (expr.printed ++ behind) =
      expr.printed ++ Token.untilClosing depth behind := by
  induction expr generalizing depth behind with
  | literal value =>
    rw [printed]
    split <;> rfl
  | label | register => rfl
  | address inner inductionHypothesis => exact congrArg _ (inductionHypothesis depth behind)
  | indirect inner inductionHypothesis =>
    simp only [printed, List.cons_append, List.append_assoc, List.nil_append]
    exact congrArg _ (inductionHypothesis (depth + 1) _)
  | half side inner inductionHypothesis =>
    simp only [printed, List.cons_append, List.append_assoc, List.nil_append]
    exact congrArg _ (congrArg _ (inductionHypothesis (depth + 1) _))
  | add left right first second | sub left right first second | mul left right first second =>
    rw [printed, List.append_assoc, first, List.append_assoc]
    exact congrArg _ (congrArg _ (second depth behind))

/-! ### Derivations without constants, by their parts -/

section Parts

variable {level outer nested : Level} {tokens behind rest : List Token} {operator : Token}
  {left right inner expr : Expr}

/-- The tokens are those of two operands with an operator between them. -/
def Joins (operator : Token) (outer nested : Level) (tokens behind : List Token) (left right : Expr) :
    Prop :=
  ∃ first second, tokens = first ++ operator :: second ∧
    Derives [] outer first (operator :: second ++ behind) left ∧ Derives [] nested second behind right

/-- The tokens are a prefix and those of the expression that it applies to, which nothing follows. -/
def Leads (head : Token) (tokens behind : List Token) (inner : Expr) : Prop :=
  ∃ rest, tokens = head :: rest ∧ Token.Ends behind ∧ Derives [] .sum rest behind inner

/-- What has to be derived for the parts of an expression that is not in parentheses as a whole. -/
def Splits (level : Level) (tokens behind : List Token) : Expr → Prop
  | literal value =>
    tokens = [.word value] ∨ ∃ byte : UInt8, byte.toUInt16 = value ∧ tokens = [.byte byte]
  | label name => tokens = [.label name]
  | register which => tokens = [.register which]
  | address inner => Leads .hash tokens behind inner
  | add left right => level = .sum ∧ Joins .plus .sum .product tokens behind left right
  | sub left right => level = .sum ∧ Joins .minus .sum .product tokens behind left right
  | mul left right => level ≠ .simple ∧ Joins .star .product .simple tokens behind left right
  | indirect inner => ∃ rest, tokens = .leftBracket :: rest ++ [.rightBracket] ∧
      Derives [] .sum rest (.rightBracket :: behind) inner
  | half side inner => Leads (.ident side.name) tokens behind inner

theorem Splits.factor (splits : Splits .simple tokens behind expr) :
    Splits .product tokens behind expr := by
  cases expr with
  | add | sub => exact nomatch splits.1
  | mul => exact absurd rfl splits.1
  | _ => exact splits

theorem Splits.term (splits : Splits .product tokens behind expr) : Splits .sum tokens behind expr := by
  cases expr with
  | add | sub => exact nomatch splits.1
  | mul => exact ⟨nofun, splits.2⟩
  | _ => exact splits

theorem Derives.splits (derives : Derives [] level tokens behind expr)
    (other : ∀ rest, tokens ≠ .leftParen :: rest) : Splits level tokens behind expr := by
  induction derives with
  | byte value => exact .inr ⟨value, rfl, rfl⟩
  | word value => exact .inl rfl
  | label | register => exact rfl
  | constant known => contradiction
  | parens => exact absurd rfl (other _)
  | brackets derives => exact ⟨_, rfl, derives⟩
  | address extent derives | half _ extent derives =>
    exact ⟨_, rfl, derives.untilClosing_eq_iff.1 extent, derives⟩
  | factor _ inductionHypothesis => exact (inductionHypothesis other).factor
  | term _ inductionHypothesis => exact (inductionHypothesis other).term
  | times first second => exact ⟨nofun, _, _, rfl, first, second⟩
  | plus first second | minus first second => exact ⟨rfl, _, _, rfl, first, second⟩

/-- A simple expression can stand anywhere. -/
theorem Derives.lift (derives : Derives [] .simple tokens behind expr) (level : Level) :
    Derives [] level tokens behind expr := by
  cases level with
  | simple => exact derives
  | product => exact .factor derives
  | sum => exact .term (.factor derives)

theorem Splits.derives (splits : Splits level tokens behind expr) :
    Derives [] level tokens behind expr := by
  cases expr with
  | literal value =>
    obtain rfl | ⟨byte, rfl, rfl⟩ := splits
    · exact (Derives.word value).lift level
    · exact (Derives.byte byte).lift level
  | label name =>
    obtain rfl := splits
    exact (Derives.label name).lift level
  | register which =>
    obtain rfl := splits
    exact (Derives.register which).lift level
  | address inner =>
    obtain ⟨rest, rfl, ends, derives⟩ := splits
    exact (Derives.address (derives.untilClosing_eq_iff.2 ends) derives).lift level
  | add left right =>
    obtain ⟨rfl, first, second, rfl, derives, derives'⟩ := splits
    exact .plus derives derives'
  | sub left right =>
    obtain ⟨rfl, first, second, rfl, derives, derives'⟩ := splits
    exact .minus derives derives'
  | mul left right =>
    obtain ⟨loose, first, second, rfl, derives, derives'⟩ := splits
    cases level with
    | simple => exact absurd rfl loose
    | product => exact .times derives derives'
    | sum => exact .term (.times derives derives')
  | indirect inner =>
    obtain ⟨rest, rfl, derives⟩ := splits
    exact (Derives.brackets derives).lift level
  | half side inner =>
    obtain ⟨rest, rfl, ends, derives⟩ := splits
    exact (Derives.half side (derives.untilClosing_eq_iff.2 ends) derives).lift level

theorem derives_printed_iff_splits :
    Derives [] level expr.printed behind expr ↔ Splits level expr.printed behind expr :=
  ⟨fun derives => derives.splits expr.printed_ne, Splits.derives⟩

/-- Printed operands are cut at their operator. -/
theorem joins_printed_iff (shows : operator.shows = true) :
    Joins operator outer nested (left.printed ++ operator :: right.printed) behind left right ↔
      Derives [] outer left.printed (operator :: right.printed ++ behind) left ∧
        Derives [] nested right.printed behind right := by
  constructor
  · rintro ⟨first, second, same, derives, derives'⟩
    obtain ⟨rfl, rfl⟩ := append_cons_inj_of_countP shows derives.countP_eq.symm same
    exact ⟨derives, derives'⟩
  · rintro ⟨derives, derives'⟩
    exact ⟨_, _, rfl, derives, derives'⟩

theorem leads_cons_iff {head : Token} :
    Leads head (head :: tokens) behind inner ↔
      Token.Ends behind ∧ Derives [] .sum tokens behind inner := by
  constructor
  · rintro ⟨rest, same, parts⟩
    obtain ⟨-, rfl⟩ := List.cons.inj same
    exact parts
  · exact fun parts => ⟨tokens, rfl, parts⟩

/-- Tokens that start with a parenthesis start with a group, and are the whole of it if nothing is behind it. -/
theorem Derives.exists_group (derives : Derives [] level tokens behind expr)
    (opens : tokens = .leftParen :: rest) :
    ∃ inside after whole, rest = inside ++ .rightParen :: after ∧
      Derives [] .sum inside (.rightParen :: after ++ behind) whole ∧ (after = [] → whole = expr) := by
  induction derives generalizing rest with
  | constant known => contradiction
  | parens derives =>
    obtain ⟨-, rfl⟩ := List.cons.inj opens
    exact ⟨_, [], _, rfl, derives, fun _ => rfl⟩
  | factor _ inductionHypothesis | term _ inductionHypothesis => exact inductionHypothesis opens
  | @times first second _ _ _ derives _ inductionHypothesis _
  | @plus first second _ _ _ derives _ inductionHypothesis _
  | @minus first second _ _ _ derives _ inductionHypothesis _ =>
    cases first with
    | nil => exact absurd rfl derives.ne_nil
    | cons token first =>
      obtain ⟨rfl, rfl⟩ := List.cons.inj opens
      obtain ⟨inside, after, whole, rfl, derives, -⟩ := inductionHypothesis rfl
      refine ⟨inside, _, whole, List.append_assoc _ _ _, ?_, by simp⟩
      simpa using derives
  | _ => exact nomatch opens

/-- Parentheses around an expression are those of a group only. -/
theorem derives_enclosed_iff :
    Derives [] .sum (.leftParen :: expr.printed ++ [.rightParen]) behind expr ↔
      Derives [] .sum expr.printed (.rightParen :: behind) expr := by
  constructor
  · intro derives
    obtain ⟨inside, after, whole, same, derives, own⟩ := derives.exists_group rfl
    rw [List.append_eq] at same
    -- Both end in front of the first parenthesis that closes none of their own brackets.
    have extent := derives.untilClosing_append 0
    rw [← List.append_assoc, ← same, List.append_assoc, untilClosing_printed] at extent
    obtain rfl : expr.printed = inside := by
      simpa [Token.untilClosing, Token.opens, Token.closes] using extent
    obtain ⟨-, rfl⟩ := List.cons.inj (List.append_cancel_left same)
    rw [own rfl] at derives
    exact derives
  · exact fun derives => .term (.factor (.parens derives))

end Parts

/-! ### Expressions that are read back -/

/-- The printed tokens derive the expression exactly where it needs no parentheses. -/
theorem derives_printed_iff (expr : Expr) (level : Level) (behind : List Token) :
    Derives [] level expr.printed behind expr ↔ expr.Ungrouped level (Token.Ends behind) := by
  have continues : ∀ (operator : Token) (rest : List Token), operator.closes = false →
      Token.Ends (operator :: rest) = False :=
    fun operator rest other => eq_false fun ends => by simp [Token.Ends, other] at ends
  have closed : ∀ (bracket : Token) (rest : List Token), bracket.closes = true →
      Token.Ends (bracket :: rest) = True :=
    fun bracket rest closes => eq_true (Token.ends_cons closes rest)
  induction expr generalizing level behind with
  | literal value => exact iff_of_true ((derives_literal [] value behind).lift level) trivial
  | label name => exact iff_of_true ((Derives.label name).lift level) trivial
  | register which => exact iff_of_true ((Derives.register which).lift level) trivial
  | address inner inductionHypothesis =>
    rw [derives_printed_iff_splits]
    refine leads_cons_iff.trans (and_congr_right fun ends => ?_)
    rw [← eq_true ends]
    exact inductionHypothesis .sum behind
  | half side inner inductionHypothesis =>
    rw [derives_printed_iff_splits]
    refine leads_cons_iff.trans (and_congr_right fun _ => derives_enclosed_iff.trans ?_)
    rw [← closed .rightParen behind rfl]
    exact inductionHypothesis .sum _
  | indirect inner inductionHypothesis =>
    rw [derives_printed_iff_splits, Ungrouped, ← closed .rightBracket behind rfl]
    refine Iff.trans ⟨?_, fun derives => ⟨_, rfl, derives⟩⟩ (inductionHypothesis .sum _)
    rintro ⟨rest, same, derives⟩
    obtain ⟨-, same⟩ := List.cons.inj same
    obtain ⟨rfl, -⟩ := List.append_inj' same rfl
    exact derives
  | add left right first second =>
    rw [derives_printed_iff_splits, Ungrouped, ← continues .plus (right.printed ++ behind) rfl]
    refine and_congr_right fun _ => (joins_printed_iff rfl).trans ?_
    exact and_congr (first .sum _) (second .product behind)
  | sub left right first second =>
    rw [derives_printed_iff_splits, Ungrouped, ← continues .minus (right.printed ++ behind) rfl]
    refine and_congr_right fun _ => (joins_printed_iff rfl).trans ?_
    exact and_congr (first .sum _) (second .product behind)
  | mul left right first second =>
    rw [derives_printed_iff_splits, Ungrouped, ← continues .star (right.printed ++ behind) rfl]
    refine and_congr_right fun _ => (joins_printed_iff rfl).trans ?_
    exact and_congr (first .product _) (second .simple behind)

/-- The printed text is read, without constants, as the expression that it was printed for. -/
def ReadsBack (expr : Expr) : Prop :=
  ∃ lexemes, Lexeme.scan expr.text = .ok lexemes ∧ parse [] lexemes = .ok (expr, [])

theorem scan_text {expr : Expr} (named : expr.Named) :
    ∃ lexemes, Lexeme.scan expr.text = .ok lexemes ∧ lexemes.map Lexeme.token = expr.printed := by
  have lexes : Lexes (expr.text.toList ++ []) (expr.printed ++ []) := prints_text named nofun .nil
  rw [List.append_nil, List.append_nil] at lexes
  exact (Lexeme.scan_iff_lexes _ _).2 lexes

theorem readsBack_iff {expr : Expr} (named : expr.Named) : expr.ReadsBack ↔ expr.Ungrouped .sum True := by
  obtain ⟨lexemes, scanned, printed⟩ := scan_text named
  have reads : parse [] lexemes = .ok (expr, []) ↔ expr.Ungrouped .sum True := by
    rw [parse_eq_ok_nil_iff, printed, ← eq_true Token.ends_nil]
    exact derives_printed_iff expr .sum []
  rw [← reads, ReadsBack, scanned]
  constructor
  · rintro ⟨_, ⟨⟩, parsed⟩
    exact parsed
  · exact fun parsed => ⟨lexemes, rfl, parsed⟩

end Expr
end Micro65
