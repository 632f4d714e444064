import Micro65.Asm.Expr.Parser
import Micro65.Proofs.Success

set_option autoImplicit false

/-!
Expressions read step by step. For each of the mutually recursive readers, all that it does is said once, with
the bounds on what is left taken off.
-/

namespace Micro65

theorem expect_eq_ok_iff (expected : Token) (lexemes : List Lexeme) (left : Shorter lexemes) :
    expect expected lexemes = .ok left ↔ ∃ column, lexemes = ⟨expected, column⟩ :: left.val := by
  obtain ⟨rest, shorter⟩ := left
  cases lexemes with
  | nil => simp [expect]
  | cons found tail =>
    obtain ⟨token, column⟩ := found
    by_cases same : token = expected <;> simp [expect, same]

namespace Expr

theorem checkEnd_eq_ok_iff (lexemes : List Lexeme) :
    checkEnd lexemes = .ok () ↔ ∀ next ∈ lexemes.head?, next.token.closes = true := by
  cases lexemes with
  | nil => simp [checkEnd]
  | cons next rest => by_cases closes : next.token.closes = true <;> simp [checkEnd, closes]

/-- The expression was read, and these lexemes are left. -/
def Reads {Bound : List Lexeme → Prop}
    (result : Except AsmError (Expr × { rest : List Lexeme // Bound rest })) (expr : Expr)
    (rest : List Lexeme) : Prop :=
  ∃ bounded, result = .ok (expr, ⟨rest, bounded⟩)

section Reads

variable {Bound : List Lexeme → Prop} {expr : Expr} {rest : List Lexeme}

theorem reads_ok_iff (found : Expr × { rest : List Lexeme // Bound rest }) :
    Reads (.ok found) expr rest ↔ found.1 = expr ∧ found.2.val = rest := by
  obtain ⟨other, left, bounded⟩ := found
  simp only [Reads, Except.ok.injEq, Prod.mk.injEq, Subtype.mk.injEq]
  exact ⟨fun ⟨_, same⟩ => same, fun same => ⟨same.2 ▸ bounded, same⟩⟩

theorem reads_error_iff (failure : AsmError) :
    Reads (.error failure : Except AsmError (Expr × { rest : List Lexeme // Bound rest })) expr rest ↔
      False :=
  iff_false_intro nofun

theorem reads_bind_iff {α : Type} (start : Except AsmError α)
    (next : α → Except AsmError (Expr × { rest : List Lexeme // Bound rest })) :
    Reads (start >>= next) expr rest ↔ ∃ value, start = .ok value ∧ Reads (next value) expr rest := by
  simp only [Reads, except_bind_eq_ok_iff]
  exact ⟨fun ⟨bounded, value, done, more⟩ => ⟨value, done, bounded, more⟩,
    fun ⟨value, done, bounded, more⟩ => ⟨bounded, value, done, more⟩⟩

variable (result : Except AsmError (Expr × { rest : List Lexeme // Bound rest }))

/-- Of what is found only the expression and the rest matter. -/
theorem exists_found_iff (Holds : Expr → List Lexeme → Prop) :
    (∃ found, result = .ok found ∧ Holds found.1 found.2.val) ↔
      ∃ expr rest, Reads result expr rest ∧ Holds expr rest := by
  constructor
  · rintro ⟨⟨expr, rest, bounded⟩, read, holds⟩
    exact ⟨expr, rest, ⟨bounded, read⟩, holds⟩
  · rintro ⟨expr, rest, ⟨bounded, read⟩, holds⟩
    exact ⟨_, read, holds⟩

theorem exists_found_eq_iff :
    (∃ found, result = .ok found ∧ found.1 = expr ∧ found.2.val = rest) ↔
      Reads result expr rest := by
  rw [exists_found_iff result fun other left => other = expr ∧ left = rest]
  simp

end Reads

variable {constants : Constants} {expr product first : Expr} {lexemes rest after : List Lexeme}

theorem parse_eq_ok_iff_reads :
    parse constants lexemes = .ok (expr, rest) ↔ Reads (parseSum constants lexemes) expr rest := by
  rw [parse, except_bind_eq_ok_iff, ← exists_found_eq_iff]
  simp only [pure, Except.pure, Except.ok.injEq, Prod.mk.injEq]

theorem reads_product_iff :
    Reads (parseProduct constants lexemes) expr after ↔
      ∃ first middle, Reads (parseSimple constants lexemes) first middle ∧
        Reads (parseFactors constants first middle) expr after := by
  rw [parseProduct, reads_bind_iff, ← exists_found_iff]
  simp only [reads_bind_iff, pure, Except.pure, reads_ok_iff, exists_found_eq_iff]

theorem exists_cons_star (star : ¬∀ next ∈ lexemes.head?, next.token ≠ .star) :
    ∃ column rest, lexemes = ⟨.star, column⟩ :: rest := by
  cases lexemes with
  | nil => simp at star
  | cons next rest =>
    obtain ⟨token, column⟩ := next
    obtain rfl : token = .star := by simpa using star
    exact ⟨column, rest, rfl⟩

/-- A product ends where no star follows. -/
theorem reads_factors_of_ne (other : ∀ next ∈ lexemes.head?, next.token ≠ .star) :
    Reads (parseFactors constants product lexemes) expr after ↔ product = expr ∧ lexemes = after := by
  cases lexemes with
  | nil => rw [parseFactors.eq_def, reads_ok_iff]
  | cons next rest => rw [parseFactors, if_neg (other next rfl), reads_ok_iff]

theorem reads_factors_star {column : Nat} :
    Reads (parseFactors constants product (⟨.star, column⟩ :: rest)) expr after ↔
      ∃ factor middle, Reads (parseSimple constants rest) factor middle ∧
        Reads (parseFactors constants (mul product factor) middle) expr after := by
  rw [parseFactors, if_pos rfl, reads_bind_iff, ← exists_found_iff]
  simp only [reads_bind_iff, pure, Except.pure, reads_ok_iff, exists_found_eq_iff]

/-- A product takes every star that follows it. -/
theorem ne_star_of_reads_factors (product : Expr) (lexemes : List Lexeme)
    (reads : Reads (parseFactors constants product lexemes) expr after) :
    ∀ next ∈ after.head?, next.token ≠ .star := by
  by_cases other : ∀ next ∈ lexemes.head?, next.token ≠ .star
  · obtain ⟨-, rfl⟩ := (reads_factors_of_ne other).1 reads
    exact other
  · obtain ⟨column, rest, starred⟩ := exists_cons_star other
    rw [starred, reads_factors_star] at reads
    obtain ⟨factor, middle, ⟨shorter, -⟩, readsMore⟩ := reads
    have : middle.length < lexemes.length := starred ▸ Nat.lt_succ_of_lt shorter
    exact ne_star_of_reads_factors (mul product factor) middle readsMore
termination_by lexemes.length

theorem ne_star_of_reads_product (reads : Reads (parseProduct constants lexemes) expr after) :
    ∀ next ∈ after.head?, next.token ≠ .star := by
  obtain ⟨first, middle, -, readsMore⟩ := reads_product_iff.1 reads
  exact ne_star_of_reads_factors first middle readsMore

/-- The operations on an expression end where no operator follows. -/
theorem reads_operations_of_ne (other : ∀ next ∈ lexemes.head?,
      next.token ≠ .plus ∧ next.token ≠ .minus ∧ next.token ≠ .star) :
    Reads (parseOperations constants first lexemes) expr after ↔ first = expr ∧ lexemes = after := by
  cases lexemes with
  | nil => rw [parseOperations.eq_def, reads_ok_iff]
  | cons next rest =>
    obtain ⟨plus, minus, star⟩ := other next rfl
    rw [parseOperations, if_neg plus, if_neg minus, if_neg star, reads_ok_iff]

theorem reads_operations_plus {column : Nat} :
    Reads (parseOperations constants first (⟨.plus, column⟩ :: rest)) expr after ↔
      ∃ term middle, Reads (parseProduct constants rest) term middle ∧
        Reads (parseOperations constants (add first term) middle) expr after := by
  rw [parseOperations, if_pos rfl, reads_bind_iff, ← exists_found_iff]
  simp only [reads_bind_iff, pure, Except.pure, reads_ok_iff, exists_found_eq_iff]

theorem reads_operations_minus {column : Nat} :
    Reads (parseOperations constants first (⟨.minus, column⟩ :: rest)) expr after ↔
      ∃ term middle, Reads (parseProduct constants rest) term middle ∧
        Reads (parseOperations constants (sub first term) middle) expr after := by
  rw [parseOperations, if_neg Token.noConfusion, if_pos rfl, reads_bind_iff, ← exists_found_iff]
  simp only [reads_bind_iff, pure, Except.pure, reads_ok_iff, exists_found_eq_iff]

theorem reads_operations_star {column : Nat} :
    Reads (parseOperations constants first (⟨.star, column⟩ :: rest)) expr after ↔
      ∃ factor middle, Reads (parseSimple constants rest) factor middle ∧
        Reads (parseOperations constants (mul first factor) middle) expr after := by
  rw [parseOperations, if_neg Token.noConfusion, if_neg Token.noConfusion, if_pos rfl, reads_bind_iff,
    ← exists_found_iff]
  simp only [reads_bind_iff, pure, Except.pure, reads_ok_iff, exists_found_eq_iff]

/-- The stars in front of the first sign make a product, on which the operations go on. -/
theorem reads_operations_iff (first : Expr) (lexemes : List Lexeme) :
    Reads (parseOperations constants first lexemes) expr after ↔
      ∃ product middle, Reads (parseFactors constants first lexemes) product middle ∧
        Reads (parseOperations constants product middle) expr after := by
  by_cases other : ∀ next ∈ lexemes.head?, next.token ≠ .star
  · simp only [reads_factors_of_ne other, and_assoc, exists_and_left, exists_eq_left']
  · obtain ⟨column, rest, starred⟩ := exists_cons_star other
    have shorter : ∀ {factor middle}, Reads (parseSimple constants rest) factor middle →
        middle.length < lexemes.length := by
      rintro factor middle ⟨less, -⟩
      exact starred ▸ Nat.lt_succ_of_lt less
    rw [starred, reads_operations_star]
    simp only [reads_factors_star]
    constructor
    · rintro ⟨factor, middle, readsFactor, readsMore⟩
      have := shorter readsFactor
      obtain ⟨product, last, readsFactors, readsLast⟩ := (reads_operations_iff _ middle).1 readsMore
      exact ⟨product, last, ⟨factor, middle, readsFactor, readsFactors⟩, readsLast⟩
    · rintro ⟨product, last, ⟨factor, middle, readsFactor, readsFactors⟩, readsLast⟩
      have := shorter readsFactor
      exact ⟨factor, middle, readsFactor,
        (reads_operations_iff _ middle).2 ⟨product, last, readsFactors, readsLast⟩⟩
termination_by lexemes.length

theorem reads_sum_iff :
    Reads (parseSum constants lexemes) expr after ↔
      ∃ first middle, Reads (parseSimple constants lexemes) first middle ∧
        Reads (parseOperations constants first middle) expr after ∧ checkEnd after = .ok () := by
  rw [parseSum, reads_bind_iff, ← exists_found_iff]
  refine exists_congr fun start => and_congr_right fun _ => ?_
  rw [reads_bind_iff, ← exists_found_eq_iff]
  simp only [reads_bind_iff, pure, Except.pure, reads_ok_iff]
  constructor
  · rintro ⟨found, more, _, ends, rfl, rfl⟩
    exact ⟨⟨found, more, rfl, rfl⟩, ends⟩
  · rintro ⟨⟨found, more, rfl, rfl⟩, ends⟩
    exact ⟨found, more, (), ends, rfl, rfl⟩

/-- A sum begins with a whole product, as its other terms are. -/
theorem reads_sum_iff_product :
    Reads (parseSum constants lexemes) expr after ↔
      ∃ term middle, Reads (parseProduct constants lexemes) term middle ∧
        Reads (parseOperations constants term middle) expr after ∧ checkEnd after = .ok () := by
  simp only [reads_sum_iff, reads_product_iff]
  constructor
  · rintro ⟨first, middle, readsFirst, readsMore, ends⟩
    obtain ⟨term, last, readsFactors, readsLast⟩ := (reads_operations_iff first middle).1 readsMore
    exact ⟨term, last, ⟨first, middle, readsFirst, readsFactors⟩, readsLast, ends⟩
  · rintro ⟨term, last, ⟨first, middle, readsFirst, readsFactors⟩, readsLast, ends⟩
    have readsMore := (reads_operations_iff first middle).2 ⟨term, last, readsFactors, readsLast⟩
    exact ⟨first, middle, readsFirst, readsMore, ends⟩

/-- What the rest of a simple expression is after its first token. -/
def StartsSimple (constants : Constants) (rest : List Lexeme) (expr : Expr) (after : List Lexeme) :
    Token → Prop
  | .const name => constants.lookup name = some expr ∧ rest = after
  | .hash => ∃ inner, Reads (parseSum constants rest) inner after ∧ address inner = expr
  | .ident name => ∃ side inner, Half.ofName? name = some side ∧
      Reads (parseSum constants rest) inner after ∧ half side inner = expr
  | .leftParen => ∃ column, Reads (parseSum constants rest) expr (⟨.rightParen, column⟩ :: after)
  | .leftBracket => ∃ inner column,
      Reads (parseSum constants rest) inner (⟨.rightBracket, column⟩ :: after) ∧ indirect inner = expr
  | token => ofToken? token = some expr ∧ rest = after

/-- An expression in brackets, up to the closing one. -/
theorem exists_closed_iff (result : Except AsmError (Expr × Shorter rest)) (bracket : Token)
    (wrap : Expr → Expr) :
    (∃ found, result = .ok found ∧ ∃ left, expect bracket found.2.val = .ok left ∧
        wrap found.1 = expr ∧ left.val = after) ↔
      ∃ inner column, Reads result inner (⟨bracket, column⟩ :: after) ∧ wrap inner = expr := by
  simp only [expect_eq_ok_iff]
  constructor
  · rintro ⟨⟨inner, left, shorter⟩, read, ⟨after', closed⟩, ⟨column, same⟩, rfl, rfl⟩
    dsimp only at same
    subst same
    exact ⟨inner, column, ⟨shorter, read⟩, rfl⟩
  · rintro ⟨inner, column, ⟨shorter, read⟩, rfl⟩
    exact ⟨_, read, ⟨after, by simp⟩, ⟨column, rfl⟩, rfl, rfl⟩

theorem not_reads_simple_nil : ¬Reads (parseSimple constants []) expr after := by
  rw [parseSimple, reads_error_iff]
  exact id

theorem reads_simple_iff {first : Lexeme} :
    Reads (parseSimple constants (first :: rest)) expr after ↔
      StartsSimple constants rest expr after first.token := by
  obtain ⟨token, column⟩ := first
  rw [parseSimple]
  cases token with
  | const name =>
    simp only [ofToken?, StartsSimple]
    cases constants.lookup name with
    | none => simp only [reads_error_iff, reduceCtorEq, false_and]
    | some value => simp only [reads_ok_iff, Option.some.injEq]
  | hash =>
    simp only [ofToken?, StartsSimple]
    rw [reads_bind_iff]
    simp only [pure, Except.pure, reads_ok_iff]
    rw [exists_found_iff _ fun inner left => address inner = expr ∧ left = after]
    grind
  | ident name =>
    simp only [ofToken?, StartsSimple]
    cases Half.ofName? name with
    | none => simp only [reads_error_iff, reduceCtorEq, false_and, exists_false]
    | some side =>
      simp only [reads_bind_iff, pure, Except.pure, reads_ok_iff]
      rw [exists_found_iff _ fun inner left => half side inner = expr ∧ left = after]
      grind
  | leftParen =>
    simp only [ofToken?, StartsSimple, reads_bind_iff, pure, Except.pure, reads_ok_iff]
    refine (exists_closed_iff _ .rightParen id).trans ?_
    simp only [id_eq, exists_and_right, exists_eq_right]
  | leftBracket =>
    simp only [ofToken?, StartsSimple, reads_bind_iff, pure, Except.pure, reads_ok_iff]
    exact exists_closed_iff _ .rightBracket indirect
  | _ => simp only [ofToken?, StartsSimple, reads_error_iff, reads_ok_iff, Option.some.injEq,
      reduceCtorEq, false_and]

end Expr
end Micro65
