import Micro65.Asm.Source
import Micro65.Proofs.Success

set_option autoImplicit false

/-!
Sources line by line. All that a statement can do in its context is said once, by `Context.Takes`, and a file
that can be read is a run of such lines.
-/

namespace Micro65

theorem Lexeme.scan_empty : scan "" = .ok [] := by
  rw [scan, scanFrom.eq_def]
  rfl

namespace SourceFile

/-- What a statement leaves of a context, and the instruction that it is. -/
inductive Context.Takes (context : Context) (position : Position) :
    Statement → Context → Option Instruction → Prop where
  | empty : Takes context position .empty context none
  | const {name value} : context.constants.lookup name = none →
      Takes context position (.const name value)
        { context with constants := (name, value) :: context.constants } none
  | label {label pending} : context.addLabel position label = .ok pending →
      Takes context position (.code label none) { context with pending } none
  | code {label code pending} : context.addLabel position label = .ok pending →
      Takes context position (.code label (some code)) { context with pending := none }
        (some { position, label := pending.map (·.1), spelling := code.spelling, kind := code.kind,
                operand := code.operand })

theorem parseLine_eq_ok_iff (context after : Context) (position : Position) (text : String)
    (instruction : Option Instruction) :
    parseLine context position text = .ok (after, instruction) ↔
      ∃ statement, Statement.ofLine context.constants text = .ok statement ∧
        context.Takes position statement after instruction := by
  simp only [parseLine, except_bind_eq_ok_iff, locate_eq_ok_iff]
  refine exists_congr fun statement => and_congr_right fun _ => ?_
  constructor
  · intro taken
    split at taken
    · cases taken
      exact .empty
    · split at taken
      · contradiction
      next fresh =>
        cases taken
        exact .const (Option.not_isSome_iff_eq_none.1 fresh)
    · obtain ⟨pending, added, taken⟩ := (except_bind_eq_ok_iff _ _ _).1 taken
      split at taken
      · cases taken
        exact .label added
      · cases taken
        exact .code added
  · intro takes
    cases takes with
    | empty => rfl
    | const fresh => simp [fresh, pure, Except.pure]
    | label added => exact (except_bind_eq_ok_iff _ _ _).2 ⟨_, added, rfl⟩
    | code added => exact (except_bind_eq_ok_iff _ _ _).2 ⟨_, added, rfl⟩

/-- An empty line leaves everything as it is. -/
theorem parseLine_empty (context : Context) (position : Position) :
    parseLine context position "" = .ok (context, none) := by
  have empty : Statement.ofLine context.constants "" = .ok .empty := by
    rw [Statement.ofLine, Lexeme.scan_empty]
    rfl
  exact (parseLine_eq_ok_iff _ _ _ _ _).2 ⟨_, empty, .empty⟩

/-- Lines read one by one, numbered from `number` on, with the context that they leave. -/
inductive Parses (name : String) : Context → Nat → List String → Context → List Line → Prop where
  | nil {context number} : Parses name context number [] context []
  | cons {context middle after number text rest instruction lines} :
      parseLine context ⟨name, number⟩ text = .ok (middle, instruction) →
      Parses name middle (number + 1) rest after lines →
      Parses name context number (text :: rest) after (⟨number, text, instruction⟩ :: lines)

theorem parseLines_eq_ok_iff (name : String) (context : Context) (number : Nat)
    (texts : List String) (lines : List Line) :
    parseLines name context number texts = .ok lines ↔
      ∃ after, Parses name context number texts after lines ∧ after.pending = none := by
  constructor
  · intro parsed
    induction texts generalizing context number lines with
    | nil =>
      unfold parseLines at parsed
      split at parsed
      · contradiction
      next settled =>
        cases parsed
        exact ⟨context, .nil, settled⟩
    | cons text rest inductionHypothesis =>
      simp only [parseLines, except_bind_eq_ok_iff] at parsed
      obtain ⟨⟨middle, instruction⟩, first, others, parsedRest, done⟩ := parsed
      cases done
      obtain ⟨after, parses, settled⟩ := inductionHypothesis _ _ _ parsedRest
      exact ⟨after, .cons first parses, settled⟩
  · rintro ⟨after, parses, settled⟩
    induction parses with
    | nil => simp only [parseLines, settled]
    | cons first _ inductionHypothesis =>
      rw [parseLines, except_bind_eq_ok_iff]
      exact ⟨_, first, (except_bind_eq_ok_iff _ _ _).2 ⟨_, inductionHypothesis settled, rfl⟩⟩

/-- A file that can be read is a run of lines behind which no label waits. -/
theorem parse_eq_ok_iff (name text : String) (file : SourceFile) :
    parse name text = .ok file ↔
      ∃ after lines, Parses name {} 1 (Text.lines text) after lines ∧ after.pending = none ∧
        ⟨name, lines⟩ = file := by
  simp only [parse, except_bind_eq_ok_iff, parseLines_eq_ok_iff]
  constructor
  · rintro ⟨lines, ⟨after, parses, settled⟩, done⟩
    exact ⟨after, lines, parses, settled, Except.ok.inj done⟩
  · rintro ⟨after, lines, parses, settled, rfl⟩
    exact ⟨lines, ⟨after, parses, settled⟩, rfl⟩

namespace Parses

variable {name : String} {context middle after : Context} {number : Nat} {texts more : List String}
  {lines others : List Line}

theorem append (first : Parses name context number texts middle lines)
    (rest : Parses name middle (number + texts.length) more after others) :
    Parses name context number (texts ++ more) after (lines ++ others) := by
  induction first with
  | nil => exact rest
  | cons line _ inductionHypothesis =>
    rw [List.length_cons, Nat.add_comm _ 1, ← Nat.add_assoc] at rest
    exact .cons line (inductionHypothesis rest)

theorem texts_eq (parses : Parses name context number texts after lines) :
    lines.map (·.text) = texts := by
  induction parses with
  | nil => rfl
  | cons _ _ inductionHypothesis => rw [List.map_cons, inductionHypothesis]

end Parses

theorem exists_parse_of_mem_singleton {name text : String} {file : SourceFile}
    (parsed : parse name text = .ok file) : ∀ other ∈ [file], ∃ name text, parse name text = .ok other := by
  intro other member
  rw [List.mem_singleton.1 member]
  exact ⟨name, text, parsed⟩

end SourceFile
end Micro65
