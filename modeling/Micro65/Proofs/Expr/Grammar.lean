import Micro65.Proofs.Expr.Reading

set_option autoImplicit false

/-!
The grammar of expressions. A sum is a product, or a sum with a product added or taken away; a product is a
simple expression, or a product times a simple one. What is read of some lexemes is exactly what derives from
this grammar, up to the end or to a closing bracket, and every expression can be written so that it is read.
-/

namespace Micro65

theorem Half.ofName?_name (side : Half) : Half.ofName? side.name = some side := by
  cases side <;> decide

theorem Half.ofName?_eq_some_iff (text : String) (side : Half) :
    Half.ofName? text = some side ↔ text = side.name := by
  constructor
  · intro found
    have same := List.find?_some found
    exact (beq_iff_eq.1 same).symm
  · rintro rfl
    exact side.ofName?_name

namespace Token

def opens : Token → Bool
  | leftParen | leftBracket => true
  | _ => false

/-- All in front of the first closing bracket that closes none of the brackets opened here, if `depth` brackets
are open already. -/
def untilClosing (depth : Nat) : List Token → List Token
  | [] => []
  | first :: rest =>
    if first.opens then first :: untilClosing (depth + 1) rest
    else if first.closes then
      match depth with
      | 0 => []
      | depth + 1 => first :: untilClosing depth rest
    else first :: untilClosing depth rest

/-- Nothing follows but, at most, a closing bracket with what is behind it. -/
def Ends (tokens : List Token) : Prop := ∀ next ∈ tokens.head?, next.closes = true

theorem ends_nil : Ends [] := nofun

theorem ends_cons {first : Token} (closes : first.closes = true) (rest : List Token) :
    Ends (first :: rest) := by
  simpa [Ends] using closes

theorem ends_map_iff (lexemes : List Lexeme) :
    Ends (lexemes.map Lexeme.token) ↔ ∀ next ∈ lexemes.head?, next.token.closes = true := by
  simp [Ends]

theorem untilClosing_eq_nil_iff (tokens : List Token) : untilClosing 0 tokens = [] ↔ Ends tokens := by
  cases tokens with
  | nil => simp [untilClosing, Ends]
  | cons first rest => cases first <;> simp [untilClosing, Ends, opens, closes]

end Token

section Written

variable {lexemes : List Lexeme} {token closing : Token} {tokens first second : List Token}

/-- A first token is that of a first lexeme. -/
theorem exists_of_map_eq_cons (same : lexemes.map Lexeme.token = token :: tokens) :
    ∃ column more, lexemes = ⟨token, column⟩ :: more ∧ more.map Lexeme.token = tokens := by
  obtain ⟨⟨_, column⟩, more, rfl, rfl, rfl⟩ := List.map_eq_cons_iff.1 same
  exact ⟨column, more, rfl, rfl⟩

/-- A token between others is that of a lexeme between those of the others. -/
theorem exists_of_map_eq_joined (same : lexemes.map Lexeme.token = first ++ token :: second) :
    ∃ left column right, lexemes = left ++ ⟨token, column⟩ :: right ∧
      left.map Lexeme.token = first ∧ right.map Lexeme.token = second := by
  obtain ⟨left, others, rfl, ownLeft, behind⟩ := List.map_eq_append_iff.1 same
  obtain ⟨column, right, rfl, ownRight⟩ := exists_of_map_eq_cons behind
  exact ⟨left, column, right, rfl, ownLeft, ownRight⟩

/-- Tokens in brackets are those of lexemes between the lexemes of the brackets. -/
theorem exists_of_map_eq_bracketed
    (same : lexemes.map Lexeme.token = token :: tokens ++ [closing]) :
    ∃ column inner place, lexemes = ⟨token, column⟩ :: inner ++ [⟨closing, place⟩] ∧
      inner.map Lexeme.token = tokens := by
  obtain ⟨column, more, rfl, inside⟩ := exists_of_map_eq_cons same
  obtain ⟨inner, place, none, rfl, own, last⟩ := exists_of_map_eq_joined inside
  obtain rfl := List.map_eq_nil_iff.1 last
  exact ⟨column, inner, place, rfl, own⟩

end Written

namespace Expr

/-- How tightly an expression holds together. -/
inductive Level where
  | simple | product | sum

/-- The tokens are written for the expression in front of those that follow. -/
inductive Derives (constants : Constants) : Level → List Token → List Token → Expr → Prop where
  | byte {behind} value : Derives constants .simple [.byte value] behind (literal value.toUInt16)
  | word {behind} value : Derives constants .simple [.word value] behind (literal value)
  | label {behind} name : Derives constants .simple [.label name] behind (label name)
  | register {behind} which : Derives constants .simple [.register which] behind (register which)
  | constant {behind name expr} : constants.lookup name = some expr →
      Derives constants .simple [.const name] behind expr
  | parens {tokens behind expr} : Derives constants .sum tokens (.rightParen :: behind) expr →
      Derives constants .simple (.leftParen :: tokens ++ [.rightParen]) behind expr
  | brackets {tokens behind expr} : Derives constants .sum tokens (.rightBracket :: behind) expr →
      Derives constants .simple (.leftBracket :: tokens ++ [.rightBracket]) behind (indirect expr)
  | address {tokens behind expr} : Token.untilClosing 0 (tokens ++ behind) = tokens →
      Derives constants .sum tokens behind expr →
      Derives constants .simple (.hash :: tokens) behind (address expr)
  | half {tokens behind expr} side : Token.untilClosing 0 (tokens ++ behind) = tokens →
      Derives constants .sum tokens behind expr →
      Derives constants .simple (.ident side.name :: tokens) behind (half side expr)
  | factor {tokens behind expr} : Derives constants .simple tokens behind expr →
      Derives constants .product tokens behind expr
  | times {first second behind left right} :
      Derives constants .product first (.star :: second ++ behind) left →
      Derives constants .simple second behind right →
      Derives constants .product (first ++ .star :: second) behind (mul left right)
  | term {tokens behind expr} : Derives constants .product tokens behind expr →
      Derives constants .sum tokens behind expr
  | plus {first second behind left right} :
      Derives constants .sum first (.plus :: second ++ behind) left →
      Derives constants .product second behind right →
      Derives constants .sum (first ++ .plus :: second) behind (add left right)
  | minus {first second behind left right} :
      Derives constants .sum first (.minus :: second ++ behind) left →
      Derives constants .product second behind right →
      Derives constants .sum (first ++ .minus :: second) behind (sub left right)

/-- Every bracket that an expression opens it closes, and no other. -/
theorem Derives.untilClosing_append {constants : Constants} {level : Level}
    {tokens behind : List Token} {expr : Expr} (derives : Derives constants level tokens behind expr)
    (depth : Nat) :
    Token.untilClosing depth (tokens ++ behind) = tokens ++ Token.untilClosing depth behind := by
  induction derives generalizing depth with
  | byte | word | label | register | constant => rfl
  | factor _ inductionHypothesis | term _ inductionHypothesis => exact inductionHypothesis depth
  | address _ _ inductionHypothesis | half _ _ _ inductionHypothesis =>
    exact congrArg _ (inductionHypothesis depth)
  | parens _ inductionHypothesis | brackets _ inductionHypothesis =>
    simp only [List.cons_append, List.append_assoc, List.nil_append]
    exact congrArg _ (inductionHypothesis (depth + 1))
  | times _ _ left right | plus _ _ left right | minus _ _ left right =>
    rw [List.append_assoc, left, List.append_assoc]
    exact congrArg _ (congrArg _ (right depth))

theorem Derives.untilClosing_eq_iff {constants : Constants} {level : Level}
    {tokens behind : List Token} {expr : Expr} (derives : Derives constants level tokens behind expr) :
    Token.untilClosing 0 (tokens ++ behind) = tokens ↔ Token.Ends behind := by
  rw [derives.untilClosing_append, List.append_right_eq_self, Token.untilClosing_eq_nil_iff]

/-! ### What is read derives -/

/-- The lexemes begin with what the tokens in front of them lack of the expression. -/
def Completes (constants : Constants) (level : Level) (left : List Token)
    (lexemes rest : List Lexeme) (expr : Expr) : Prop :=
  ∃ consumed, lexemes = consumed ++ rest ∧
    Derives constants level (left ++ consumed.map Lexeme.token) (rest.map Lexeme.token) expr

/-- All that is read of some lexemes derives. -/
structure ReadsDerived (constants : Constants) (lexemes : List Lexeme) : Prop where
  simple {expr rest} : Reads (parseSimple constants lexemes) expr rest →
    Completes constants .simple [] lexemes rest expr
  factors {left product expr rest} :
    Derives constants .product left (lexemes.map Lexeme.token) product →
    Reads (parseFactors constants product lexemes) expr rest →
    Completes constants .product left lexemes rest expr
  product {expr rest} : Reads (parseProduct constants lexemes) expr rest →
    Completes constants .product [] lexemes rest expr
  operations {left sum expr rest} : (∀ next ∈ lexemes.head?, next.token ≠ .star) →
    Derives constants .sum left (lexemes.map Lexeme.token) sum →
    Reads (parseOperations constants sum lexemes) expr rest →
    Completes constants .sum left lexemes rest expr
  sum {expr rest} : Reads (parseSum constants lexemes) expr rest →
    Token.Ends (rest.map Lexeme.token) ∧ Completes constants .sum [] lexemes rest expr

section Derived

variable {constants : Constants} {expr product sum : Expr} {first : Lexeme} {left : List Token}
  {lexemes middle rest : List Lexeme}

/-- What completes a part of the tokens completes the whole. -/
theorem Completes.prepend {level : Level} {lexemes' : List Lexeme}
    (completes : Completes constants level (left ++ lexemes'.map Lexeme.token) middle rest expr)
    (same : lexemes = lexemes' ++ middle) : Completes constants level left lexemes rest expr := by
  obtain ⟨consumed, rfl, derives⟩ := completes
  rw [List.append_assoc, ← List.map_append] at derives
  exact ⟨lexemes' ++ consumed, by rw [same, List.append_assoc], derives⟩

theorem completes_simple (shorter : ReadsDerived constants rest)
    {after : List Lexeme} (reads : Reads (parseSimple constants (first :: rest)) expr after) :
    Completes constants .simple [] (first :: rest) after expr := by
  obtain ⟨token, column⟩ := first
  rw [reads_simple_iff] at reads
  cases token with
  | const name =>
    obtain ⟨known, rfl⟩ := reads
    exact ⟨[⟨.const name, column⟩], rfl, .constant known⟩
  | hash =>
    obtain ⟨inner, reads, rfl⟩ := reads
    obtain ⟨ends, consumed, rfl, derives⟩ := shorter.sum reads
    exact ⟨⟨.hash, column⟩ :: consumed, rfl, .address (derives.untilClosing_eq_iff.2 ends) derives⟩
  | ident name =>
    obtain ⟨side, inner, named, reads, rfl⟩ := reads
    obtain rfl := (Half.ofName?_eq_some_iff name side).1 named
    obtain ⟨ends, consumed, rfl, derives⟩ := shorter.sum reads
    exact ⟨⟨.ident side.name, column⟩ :: consumed, rfl,
      .half side (derives.untilClosing_eq_iff.2 ends) derives⟩
  | leftParen =>
    obtain ⟨place, reads⟩ := reads
    obtain ⟨-, consumed, rfl, derives⟩ := shorter.sum reads
    refine ⟨⟨.leftParen, column⟩ :: consumed ++ [⟨.rightParen, place⟩], by simp, ?_⟩
    rw [List.map_append]
    exact .parens derives
  | leftBracket =>
    obtain ⟨inner, place, reads, rfl⟩ := reads
    obtain ⟨-, consumed, rfl, derives⟩ := shorter.sum reads
    refine ⟨⟨.leftBracket, column⟩ :: consumed ++ [⟨.rightBracket, place⟩], by simp, ?_⟩
    rw [List.map_append]
    exact .brackets derives
  | byte value =>
    obtain ⟨⟨⟩, rfl⟩ := reads
    exact ⟨[⟨.byte value, column⟩], rfl, .byte value⟩
  | word value =>
    obtain ⟨⟨⟩, rfl⟩ := reads
    exact ⟨[⟨.word value, column⟩], rfl, .word value⟩
  | label name =>
    obtain ⟨⟨⟩, rfl⟩ := reads
    exact ⟨[⟨.label name, column⟩], rfl, .label name⟩
  | register which =>
    obtain ⟨⟨⟩, rfl⟩ := reads
    exact ⟨[⟨.register which, column⟩], rfl, .register which⟩
  | _ => exact nomatch reads.1

/-- Nothing more is read, and nothing is missing. -/
theorem completes_nil {level : Level} (derives : Derives constants level left
    (lexemes.map Lexeme.token) expr) : Completes constants level left lexemes lexemes expr :=
  ⟨[], rfl, by simpa using derives⟩

theorem length_lt_of_consumed (next : Lexeme) (consumed rest : List Lexeme) :
    rest.length < (next :: (consumed ++ rest)).length := by
  rw [List.length_cons, List.length_append]
  omega

theorem completes_factors
    (shorter : ∀ rest : List Lexeme, rest.length < lexemes.length → ReadsDerived constants rest)
    (derives : Derives constants .product left (lexemes.map Lexeme.token) product)
    (reads : Reads (parseFactors constants product lexemes) expr rest) :
    Completes constants .product left lexemes rest expr := by
  rcases lexemes with _ | ⟨⟨token, column⟩, more⟩
  · obtain ⟨rfl, rfl⟩ := (reads_factors_of_ne (by simp)).1 reads
    exact completes_nil derives
  · by_cases star : token = .star
    · subst star
      obtain ⟨factor, middle, readsFactor, readsMore⟩ := reads_factors_star.1 reads
      obtain ⟨consumed, rfl, derivesFactor⟩ := (shorter more (by simp)).simple readsFactor
      rw [List.map_cons, List.map_append] at derives
      have whole : Derives constants .product
          (left ++ (⟨.star, column⟩ :: consumed).map Lexeme.token) (middle.map Lexeme.token)
          (mul product factor) := .times derives derivesFactor
      exact ((shorter middle (length_lt_of_consumed _ _ _)).factors whole readsMore).prepend rfl
    · obtain ⟨rfl, rfl⟩ := (reads_factors_of_ne (by simpa using star)).1 reads
      exact completes_nil derives

/-- A sign with the product behind it completes a sum, however the two are put together. -/
theorem completes_signed {sign : Token} {column : Nat} {term : Expr} {more : List Lexeme}
    {apply : Expr → Expr → Expr}
    (signed : ∀ {first second behind : List Token} {left right : Expr},
      Derives constants .sum first (sign :: second ++ behind) left →
      Derives constants .product second behind right →
      Derives constants .sum (first ++ sign :: second) behind (apply left right))
    (shorter : ∀ rest : List Lexeme, rest.length < (⟨sign, column⟩ :: more : List Lexeme).length →
      ReadsDerived constants rest)
    (derives : Derives constants .sum left ((⟨sign, column⟩ :: more).map Lexeme.token) sum)
    (readsTerm : Reads (parseProduct constants more) term middle)
    (readsMore : Reads (parseOperations constants (apply sum term) middle) expr rest) :
    Completes constants .sum left (⟨sign, column⟩ :: more) rest expr := by
  have star := ne_star_of_reads_product readsTerm
  obtain ⟨consumed, rfl, derivesTerm⟩ := (shorter more (by simp)).product readsTerm
  rw [List.map_cons, List.map_append] at derives
  have whole : Derives constants .sum (left ++ (⟨sign, column⟩ :: consumed).map Lexeme.token)
      (middle.map Lexeme.token) (apply sum term) := signed derives derivesTerm
  exact ((shorter middle (length_lt_of_consumed _ _ _)).operations star whole readsMore).prepend rfl

/-- Behind a product there is no star, so each further operation begins with a sign. -/
theorem completes_operations
    (shorter : ∀ rest : List Lexeme, rest.length < lexemes.length → ReadsDerived constants rest)
    (star : ∀ next ∈ lexemes.head?, next.token ≠ .star)
    (derives : Derives constants .sum left (lexemes.map Lexeme.token) sum)
    (reads : Reads (parseOperations constants sum lexemes) expr rest) :
    Completes constants .sum left lexemes rest expr := by
  rcases lexemes with _ | ⟨⟨token, column⟩, more⟩
  · obtain ⟨rfl, rfl⟩ := (reads_operations_of_ne (by simp)).1 reads
    exact completes_nil derives
  · by_cases plus : token = .plus
    · subst plus
      obtain ⟨term, middle, readsTerm, readsMore⟩ := reads_operations_plus.1 reads
      exact completes_signed .plus shorter derives readsTerm readsMore
    · by_cases minus : token = .minus
      · subst minus
        obtain ⟨term, middle, readsTerm, readsMore⟩ := reads_operations_minus.1 reads
        exact completes_signed .minus shorter derives readsTerm readsMore
      · have others : token ≠ .plus ∧ token ≠ .minus ∧ token ≠ .star := ⟨plus, minus, star _ rfl⟩
        obtain ⟨rfl, rfl⟩ := (reads_operations_of_ne (by simpa using others)).1 reads
        exact completes_nil derives

/-- By induction on the number of lexemes: only the first simple expression is read of all of them. -/
theorem readsDerived (constants : Constants) (lexemes : List Lexeme) :
    ReadsDerived constants lexemes := by
  have shorter : ∀ rest : List Lexeme, rest.length < lexemes.length → ReadsDerived constants rest :=
    fun rest _ => readsDerived constants rest
  have simple : ∀ {expr rest}, Reads (parseSimple constants lexemes) expr rest →
      Completes constants .simple [] lexemes rest expr := by
    intro expr rest reads
    cases lexemes with
    | nil => exact absurd reads not_reads_simple_nil
    | cons first more => exact completes_simple (shorter more (by simp)) reads
  have product : ∀ {expr rest}, Reads (parseProduct constants lexemes) expr rest →
      Completes constants .product [] lexemes rest expr := by
    intro expr rest reads
    obtain ⟨factor, middle, readsFactor, readsMore⟩ := reads_product_iff.1 reads
    have ⟨less, _⟩ := readsFactor
    obtain ⟨consumed, rfl, derives⟩ := simple readsFactor
    exact ((shorter middle less).factors derives.factor readsMore).prepend rfl
  have sum : ∀ {expr rest}, Reads (parseSum constants lexemes) expr rest →
      Token.Ends (rest.map Lexeme.token) ∧ Completes constants .sum [] lexemes rest expr := by
    intro expr rest reads
    obtain ⟨term, middle, readsTerm, readsMore, ends⟩ := reads_sum_iff_product.1 reads
    have ⟨less, _⟩ := readsTerm
    have star := ne_star_of_reads_product readsTerm
    obtain ⟨consumed, rfl, derives⟩ := product readsTerm
    refine ⟨?_, ((shorter middle less).operations star derives.term readsMore).prepend rfl⟩
    exact (Token.ends_map_iff rest).2 ((checkEnd_eq_ok_iff rest).1 ends)
  exact ⟨simple, completes_factors shorter, product, completes_operations shorter, sum⟩
termination_by lexemes.length

end Derived

/-! ### What derives is read -/

section Read

variable {constants : Constants} {lexemes rest : List Lexeme} {expr : Expr}

/-- The expression is read of the lexemes, and what is read behind it is read behind the whole. -/
def ReadBefore (constants : Constants) (lexemes rest : List Lexeme) (expr : Expr) : Level → Prop
  | .simple => Reads (parseSimple constants lexemes) expr rest
  | .product => ∀ ⦃result after⦄, Reads (parseFactors constants expr rest) result after →
      Reads (parseProduct constants lexemes) result after
  | .sum => (∀ next ∈ rest.head?, next.token ≠ .star) → ∀ ⦃result after⦄,
      Reads (parseOperations constants expr rest) result after → checkEnd after = .ok () →
      Reads (parseSum constants lexemes) result after

theorem ReadBefore.product (before : ReadBefore constants lexemes rest expr .product)
    (other : ∀ next ∈ rest.head?, next.token ≠ .star) :
    Reads (parseProduct constants lexemes) expr rest :=
  before ((reads_factors_of_ne other).2 ⟨rfl, rfl⟩)

theorem ReadBefore.sum (before : ReadBefore constants lexemes rest expr .sum)
    (ends : Token.Ends (rest.map Lexeme.token)) : Reads (parseSum constants lexemes) expr rest := by
  rw [Token.ends_map_iff] at ends
  have other : ∀ {token : Token}, token.closes = false →
      ∀ next ∈ rest.head?, next.token ≠ token := by
    rintro _ opens next first rfl
    exact absurd (ends next first) (by simp [opens])
  refine before (other rfl) ((reads_operations_of_ne fun next first => ?_).2 ⟨rfl, rfl⟩)
    ((checkEnd_eq_ok_iff rest).2 ends)
  exact ⟨other rfl next first, other rfl next first, other rfl next first⟩

/-- A closing bracket ends what stands in front of it. -/
theorem ReadBefore.closed {bracket : Token} (closes : bracket.closes = true) {column : Nat}
    (before : ReadBefore constants lexemes (⟨bracket, column⟩ :: rest) expr .sum) :
    Reads (parseSum constants lexemes) expr (⟨bracket, column⟩ :: rest) :=
  before.sum (Token.ends_cons closes _)

theorem Derives.readBefore {level : Level} {tokens behind : List Token}
    (derives : Derives constants level tokens behind expr) :
    ∀ {consumed : List Lexeme} (rest : List Lexeme), consumed.map Lexeme.token = tokens →
      rest.map Lexeme.token = behind → ReadBefore constants (consumed ++ rest) rest expr level := by
  induction derives with
  | byte value | word value | label name | register which =>
    intro consumed rest whole _
    obtain ⟨column, more, rfl, own⟩ := exists_of_map_eq_cons whole
    obtain rfl := List.map_eq_nil_iff.1 own
    exact reads_simple_iff.2 ⟨rfl, rfl⟩
  | constant known =>
    intro consumed rest whole _
    obtain ⟨column, more, rfl, own⟩ := exists_of_map_eq_cons whole
    obtain rfl := List.map_eq_nil_iff.1 own
    exact reads_simple_iff.2 ⟨known, rfl⟩
  | parens _ inductionHypothesis =>
    intro consumed rest whole next
    obtain ⟨column, inner, place, rfl, own⟩ := exists_of_map_eq_bracketed whole
    have before := inductionHypothesis (⟨.rightParen, place⟩ :: rest) own (by rw [← next]; rfl)
    rw [List.append_assoc]
    exact reads_simple_iff.2 ⟨place, before.closed rfl⟩
  | brackets _ inductionHypothesis =>
    intro consumed rest whole next
    obtain ⟨column, inner, place, rfl, own⟩ := exists_of_map_eq_bracketed whole
    have before := inductionHypothesis (⟨.rightBracket, place⟩ :: rest) own (by rw [← next]; rfl)
    rw [List.append_assoc]
    exact reads_simple_iff.2 ⟨_, place, before.closed rfl, rfl⟩
  | address extent derives inductionHypothesis =>
    intro consumed rest whole next
    obtain ⟨column, inner, rfl, own⟩ := exists_of_map_eq_cons whole
    have ends := derives.untilClosing_eq_iff.1 extent
    exact reads_simple_iff.2 ⟨_, (inductionHypothesis rest own next).sum (next ▸ ends), rfl⟩
  | half side extent derives inductionHypothesis =>
    intro consumed rest whole next
    obtain ⟨column, inner, rfl, own⟩ := exists_of_map_eq_cons whole
    have ends := derives.untilClosing_eq_iff.1 extent
    exact reads_simple_iff.2
      ⟨side, _, side.ofName?_name, (inductionHypothesis rest own next).sum (next ▸ ends), rfl⟩
  | factor _ inductionHypothesis =>
    intro consumed rest whole next result after readsMore
    exact reads_product_iff.2 ⟨_, _, inductionHypothesis rest whole next, readsMore⟩
  | times _ _ left right =>
    intro consumed rest whole next result after readsMore
    obtain ⟨first, column, second, rfl, ownLeft, ownRight⟩ := exists_of_map_eq_joined whole
    have before := left (⟨.star, column⟩ :: second ++ rest) ownLeft (by rw [← ownRight, ← next]; simp)
    rw [List.append_assoc]
    exact before (reads_factors_star.2 ⟨_, _, right rest ownRight next, readsMore⟩)
  | term _ inductionHypothesis =>
    intro consumed rest whole next other result after readsMore ends
    exact reads_sum_iff_product.2
      ⟨_, _, (inductionHypothesis rest whole next).product other, readsMore, ends⟩
  | plus _ _ left right =>
    intro consumed rest whole next other result after readsMore ends
    obtain ⟨first, column, second, rfl, ownLeft, ownRight⟩ := exists_of_map_eq_joined whole
    have before := left (⟨.plus, column⟩ :: second ++ rest) ownLeft (by rw [← ownRight, ← next]; simp)
    rw [List.append_assoc]
    exact before (by simp)
      (reads_operations_plus.2 ⟨_, _, (right rest ownRight next).product other, readsMore⟩) ends
  | minus _ _ left right =>
    intro consumed rest whole next other result after readsMore ends
    obtain ⟨first, column, second, rfl, ownLeft, ownRight⟩ := exists_of_map_eq_joined whole
    have before := left (⟨.minus, column⟩ :: second ++ rest) ownLeft (by rw [← ownRight, ← next]; simp)
    rw [List.append_assoc]
    exact before (by simp)
      (reads_operations_minus.2 ⟨_, _, (right rest ownRight next).product other, readsMore⟩) ends

end Read

/-- An expression is read exactly where a derivation of it ends at the end or in front of a closing bracket. -/
theorem parse_eq_ok_iff (constants : Constants) (lexemes rest : List Lexeme) (expr : Expr) :
    parse constants lexemes = .ok (expr, rest) ↔
      Token.Ends (rest.map Lexeme.token) ∧ ∃ consumed, lexemes = consumed ++ rest ∧
        Derives constants .sum (consumed.map Lexeme.token) (rest.map Lexeme.token) expr := by
  rw [parse_eq_ok_iff_reads]
  constructor
  · exact (readsDerived constants lexemes).sum
  · rintro ⟨ends, consumed, rfl, derives⟩
    exact (derives.readBefore rest rfl rfl).sum ends

/-! ### Every expression can be written -/

/-- The tokens of an expression with brackets around everything that is made of something. -/
def rendering : Expr → List Token
  | literal value => [if value < 0x100 then .byte value.toUInt8 else .word value]
  | label name => [.label name]
  | register which => [.register which]
  | address inner => .leftParen :: .hash :: inner.rendering ++ [.rightParen]
  | add left right => .leftParen :: left.rendering ++ .plus :: right.rendering ++ [.rightParen]
  | sub left right => .leftParen :: left.rendering ++ .minus :: right.rendering ++ [.rightParen]
  | mul left right => .leftParen :: left.rendering ++ .star :: right.rendering ++ [.rightParen]
  | indirect inner => .leftBracket :: inner.rendering ++ [.rightBracket]
  | half side inner => .leftParen :: .ident side.name :: inner.rendering ++ [.rightParen]

/-- A number is read of the shortest literal that has room for it. -/
theorem derives_literal (constants : Constants) (value : UInt16) (behind : List Token) :
    Derives constants .simple [if value < 0x100 then .byte value.toUInt8 else .word value] behind
      (literal value) := by
  split
  next small =>
    have same : value.toUInt8.toUInt16 = value :=
      (UInt16.toUInt16_toUInt8 value).trans (UInt16.mod_eq_of_lt small)
    have derives : Derives constants .simple [.byte value.toUInt8] behind
        (literal value.toUInt8.toUInt16) := .byte _
    rwa [same] at derives
  next => exact .word value

theorem derives_rendering (constants : Constants) (expr : Expr) (behind : List Token) :
    Derives constants .simple expr.rendering behind expr := by
  have extent : ∀ {inner : Expr} {behind : List Token},
      (∀ behind, Derives constants .simple inner.rendering behind inner) →
      Token.untilClosing 0 (inner.rendering ++ .rightParen :: behind) = inner.rendering :=
    fun derives => (derives _).untilClosing_eq_iff.2 (Token.ends_cons rfl _)
  induction expr generalizing behind with
  | literal value => exact derives_literal constants value behind
  | label name => exact .label name
  | register which => exact .register which
  | address inner derives => exact .parens (.term (.factor (.address (extent derives) (derives _).factor.term)))
  | add left right first second =>
    exact .parens (.plus (first _).factor.term (second _).factor)
  | sub left right first second =>
    exact .parens (.minus (first _).factor.term (second _).factor)
  | mul left right first second => exact .parens (.term (.times (first _).factor (second _)))
  | indirect inner derives => exact .brackets (derives _).factor.term
  | half side inner derives =>
    exact .parens (.term (.factor (.half side (extent derives) (derives _).factor.term)))

/-- Reading accepts what derives from the grammar and ends at a closing bracket or at the end, and builds what
the derivation says; and what is written with all its brackets is read back, with nothing left. -/
theorem parse_grammar (constants : Constants) (lexemes : List Lexeme) :
    (∀ expr rest, parse constants lexemes = .ok (expr, rest) ↔
      Token.Ends (rest.map Lexeme.token) ∧ ∃ consumed, lexemes = consumed ++ rest ∧
        Derives constants .sum (consumed.map Lexeme.token) (rest.map Lexeme.token) expr) ∧
    ∀ expr : Expr, lexemes.map Lexeme.token = expr.rendering →
      parse constants lexemes = .ok (expr, []) := by
  refine ⟨fun expr rest => parse_eq_ok_iff constants lexemes rest expr, fun expr written => ?_⟩
  have derives := (derives_rendering constants expr []).factor.term
  rw [← written] at derives
  exact (parse_eq_ok_iff constants lexemes [] expr).2
    ⟨Token.ends_nil, lexemes, (List.append_nil lexemes).symm, derives⟩

/-- A difference of a sum, under a prefix that takes all that follows, in an index. -/
theorem parse_grammar_nested : ∃ (lexemes : List Lexeme) (expr : Expr),
    expr = add (address (sub (label "t") (add (literal 2) (literal 0x100)))) (register .x) ∧
    lexemes.map Lexeme.token = expr.rendering ∧ parse [] lexemes = .ok (expr, []) := by
  have written : ((add (address (sub (label "t") (add (literal 2) (literal 0x100))))
      (register .x)).rendering.map fun token => (⟨token, 0⟩ : Lexeme)).map Lexeme.token =
        (add (address (sub (label "t") (add (literal 2) (literal 0x100)))) (register .x)).rendering := by
    decide
  exact ⟨_, _, rfl, written, (parse_grammar [] _).2 _ written⟩

end Expr
end Micro65
