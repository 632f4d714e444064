import Mathlib.Data.List.Forall2
import Micro65.Proofs.Assembly.Filling
import Micro65.Proofs.Layout.Positions
import Micro65.Proofs.Source.Labels

set_option autoImplicit false

/-!
Sources that are joined. A text that can be read by itself can be read behind another one, if the two have
no constant in common, and gives the same instructions on other lines.
-/

namespace Micro65

namespace SourceFile

theorem parseLine_constants {context after : Context} {position : Position} {text : String}
    {instruction : Option Instruction}
    (parsed : parseLine context position text = .ok (after, instruction)) :
    after.constants.map (·.1) = (definedConstant? text).toList ++ context.constants.map (·.1) := by
  obtain ⟨statement, line, takes⟩ := (parseLine_eq_ok_iff _ _ _ _ _).1 parsed
  rw [← (Statement.ofLine_defines line).2]
  cases takes <;> rfl

/-- The constants that hold behind some lines, the latest first. -/
theorem Parses.constants {name : String} {context after : Context} {number : Nat}
    {texts : List String} {lines : List Line}
    (parses : Parses name context number texts after lines) :
    after.constants.map (·.1) =
      (texts.filterMap definedConstant?).reverse ++ context.constants.map (·.1) := by
  induction parses with
  | nil => rfl
  | @cons context middle after number text rest _ _ first _ inductionHypothesis =>
    rw [inductionHypothesis, parseLine_constants first, List.filterMap_cons]
    cases definedConstant? text <;> simp

/-! ### Behind other lines -/

/-- A context with more constants, in which the same label waits. -/
structure Context.Beside (extra : Constants) (context other : Context) : Prop where
  constants : other.constants = context.constants ++ extra
  waiting : other.pending.map (·.1) = context.pending.map (·.1)

/-- All lines as if they stood at one place. -/
abbrev unnumbered : Instruction → Instruction := Instruction.renumber fun _ => ⟨"", 0⟩

/-- Whatever lexemes the first line has, the second one has. -/
def ReadsSame (text read : String) : Prop := Kept (Lexeme.scan text) (Lexeme.scan read)

theorem forall₂_readsSame (texts : List String) : List.Forall₂ ReadsSame texts texts :=
  List.forall₂_same.2 fun _ _ => .refl _

section Beside

variable {extra : Constants} {context other after : Context}

theorem addLabel_beside {position : Position} (place : Position) {label : Option String}
    {pending : Option (String × Position)} (beside : context.Beside extra other)
    (added : context.addLabel position label = .ok pending) :
    ∃ pending', other.addLabel place label = .ok pending' ∧
      pending'.map (·.1) = pending.map (·.1) := by
  have waiting := beside.waiting
  unfold Context.addLabel at *
  cases label with
  | none =>
    cases added
    exact ⟨_, rfl, waiting⟩
  | some name =>
    cases earlier : context.pending with
    | some earlier =>
      rw [earlier] at added
      contradiction
    | none =>
      rw [earlier] at added waiting
      rw [Option.map_none, Option.map_eq_none_iff] at waiting
      cases added
      rw [waiting]
      exact ⟨_, rfl, rfl⟩

/-- A line that can be read is read in the same way with more constants, none of which it defines. -/
theorem parseLine_beside {position : Position} (place : Position) {text read : String}
    {instruction : Option Instruction} (beside : context.Beside extra other)
    (reads : ReadsSame text read)
    (fresh : ∀ name ∈ definedConstant? text, extra.lookup name = none)
    (parsed : parseLine context position text = .ok (after, instruction)) :
    ∃ after' instruction', parseLine other place read = .ok (after', instruction') ∧
      after.Beside extra after' ∧ instruction'.map unnumbered = instruction.map unnumbered := by
  obtain ⟨statement, line, takes⟩ := (parseLine_eq_ok_iff _ _ _ _ _).1 parsed
  rw [← (Statement.ofLine_defines line).2] at fresh
  have line' : Statement.ofLine other.constants read = .ok statement := by
    rw [beside.constants]
    exact (reads.bind fun lexemes => Statement.parse_kept (context.constants.extends_append extra)
      lexemes) _ line
  suffices takes' : ∃ after' instruction', other.Takes place statement after' instruction' ∧
      after.Beside extra after' ∧ instruction'.map unnumbered = instruction.map unnumbered by
    obtain ⟨after', instruction', takes', same⟩ := takes'
    exact ⟨after', instruction', (parseLine_eq_ok_iff _ _ _ _ _).2 ⟨statement, line', takes'⟩, same⟩
  cases takes with
  | empty => exact ⟨_, _, .empty, beside, rfl⟩
  | @const name value new =>
    have unknown : other.constants.lookup name = none := by
      rw [beside.constants, List.lookup_append, new, fresh name rfl, Option.or_none]
    exact ⟨_, _, .const unknown, ⟨congrArg _ beside.constants, beside.waiting⟩, rfl⟩
  | label added =>
    obtain ⟨pending', added', same⟩ := addLabel_beside place beside added
    exact ⟨_, _, .label added', ⟨beside.constants, same⟩, rfl⟩
  | code added =>
    obtain ⟨pending', added', same⟩ := addLabel_beside place beside added
    refine ⟨_, _, .code added', ⟨beside.constants, rfl⟩, ?_⟩
    simp only [Option.map_some, Instruction.renumber, same]

/-- Lines that can be read are read in the same way from any number on. -/
theorem Parses.beside {name : String} {number : Nat} {texts reads : List String} {lines : List Line}
    (parses : Parses name context number texts after lines) (beside : context.Beside extra other)
    (same : List.Forall₂ ReadsSame texts reads)
    (fresh : ∀ constant ∈ texts.filterMap definedConstant?, extra.lookup constant = none)
    (name' : String) (number' : Nat) :
    ∃ after' lines', Parses name' other number' reads after' lines' ∧ after.Beside extra after' ∧
      (lines'.filterMap (·.instruction)).map unnumbered =
        (lines.filterMap (·.instruction)).map unnumbered := by
  induction parses generalizing other number' reads with
  | nil =>
    cases same
    exact ⟨other, [], .nil, beside, rfl⟩
  | @cons context middle after number text rest instruction lines first _ inductionHypothesis =>
    obtain _ | ⟨read, same⟩ := same
    have here : ∀ constant ∈ definedConstant? text, extra.lookup constant = none :=
      fun constant defined => fresh constant (List.mem_filterMap.2 ⟨text, by simp, defined⟩)
    have later : ∀ constant ∈ rest.filterMap definedConstant?, extra.lookup constant = none := by
      intro constant defined
      obtain ⟨line, member, defined⟩ := List.mem_filterMap.1 defined
      exact fresh constant (List.mem_filterMap.2 ⟨line, List.mem_cons_of_mem _ member, defined⟩)
    obtain ⟨middle', instruction', first', besideMiddle, sameFirst⟩ :=
      parseLine_beside ⟨name', number'⟩ beside read here first
    obtain ⟨after', lines', rest', besideAfter, sameRest⟩ :=
      inductionHypothesis besideMiddle same later (number' + 1)
    refine ⟨after', _, .cons first' rest', besideAfter, ?_⟩
    rw [Line.instructions_cons, Line.instructions_cons, List.map_append, List.map_append, sameRest]
    congr 1
    rw [← Option.toList_map, ← Option.toList_map, sameFirst]

/-- A line break behind a text changes nothing that is read of it. -/
theorem Parses.close {name text lineBreak : String} {lines : List Line}
    (breaks : lineBreak ∈ Text.lineBreaks)
    (parses : Parses name {} 1 (Text.lines text) after lines) (name' : String) :
    ∃ after' lines', Parses name' {} 1 (Text.lines (text ++ lineBreak)) after' lines' ∧
      after.Beside [] after' ∧
      (lines'.filterMap (·.instruction)).map unnumbered =
        (lines.filterMap (·.instruction)).map unnumbered := by
  have start : Context.Beside [] {} {} := ⟨rfl, rfl⟩
  have fresh : ∀ constant ∈ (Text.lines text).filterMap definedConstant?,
      List.lookup constant ([] : Constants) = none := fun _ _ => rfl
  rcases Text.lines_close breaks text with ended | ⟨before, last, closed, whole, ended, reads⟩
  · obtain ⟨after', lines', parses', beside, instructions⟩ :=
      parses.beside start (forall₂_readsSame _) fresh name' 1
    refine ⟨after', _, ended ▸ parses'.append (.cons (parseLine_empty _ _) .nil), beside, ?_⟩
    rw [List.filterMap_append, List.map_append, instructions]
    simp
  · have same : List.Forall₂ ReadsSame (Text.lines text) (Text.lines (text ++ lineBreak)) := by
      rw [whole, ended]
      refine List.rel_append (forall₂_readsSame before) (.cons ?_ .nil)
      rcases reads with rfl | rfl
      · exact .refl _
      · exact Lexeme.scan_asRead last
    exact parses.beside start same fresh name' 1

end Beside

/-- Two texts that can be read by themselves can be read as one, if they define no constant in common. -/
theorem parse_join {firstName firstText secondName secondText lineBreak : String}
    {first second : SourceFile} (breaks : lineBreak ∈ Text.lineBreaks)
    (parsedFirst : parse firstName firstText = .ok first)
    (parsedSecond : parse secondName secondText = .ok second)
    (apart : (definedConstants firstText).Disjoint (definedConstants secondText)) (name : String) :
    ∃ joined, parse name (firstText ++ lineBreak ++ secondText) = .ok joined ∧
      joined.instructions.map unnumbered =
        (first.instructions ++ second.instructions).map unnumbered := by
  obtain ⟨middle, firstLines, parsesFirst, settledFirst, rfl⟩ := (parse_eq_ok_iff _ _ _).1 parsedFirst
  obtain ⟨after, secondLines, parsesSecond, settledSecond, rfl⟩ :=
    (parse_eq_ok_iff _ _ _).1 parsedSecond
  obtain ⟨middle', firstLines', parsesFirst', besideFirst, sameFirst⟩ := parsesFirst.close breaks name
  have behind : Context.Beside middle.constants {} middle' :=
    ⟨by rw [besideFirst.constants, List.append_nil]; rfl, by rw [besideFirst.waiting, settledFirst]⟩
  have fresh : ∀ constant ∈ (Text.lines secondText).filterMap definedConstant?,
      middle.constants.lookup constant = none := by
    intro constant defined
    rw [List.lookup_eq_none_iff]
    intro entry member
    have name := List.mem_map_of_mem (f := Prod.fst) member
    rw [parsesFirst.constants, List.map_nil, List.append_nil, List.mem_reverse] at name
    simp only [bne_iff_ne, ne_eq]
    rintro rfl
    exact apart name defined
  obtain ⟨after', secondLines', parsesSecond', besideSecond, sameSecond⟩ :=
    parsesSecond.beside behind (forall₂_readsSame _) fresh name
      (1 + (Text.lines (firstText ++ lineBreak)).length)
  refine ⟨⟨name, firstLines' ++ secondLines'⟩, (parse_eq_ok_iff _ _ _).2 ⟨after', _, ?_, ?_, rfl⟩, ?_⟩
  · rw [Text.lines_append_break breaks]
    exact parsesFirst'.append parsesSecond'
  · have waiting := besideSecond.waiting
    rw [settledSecond] at waiting
    exact Option.map_eq_none_iff.1 waiting
  · simp only [instructions]
    rw [List.filterMap_append, List.map_append, List.map_append, sameFirst, sameSecond]

end SourceFile
end Micro65
