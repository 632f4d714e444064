import Mathlib.Data.List.Forall2
import Micro65.Proofs.Source.Constants
import Micro65.Proofs.Source.Parsing

set_option autoImplicit false

/-!
Labels of parsed sources. Every label that a line defines, whatever else is on the line, comes to stand
in front of an instruction, and no instruction has a label that no line defines.
-/

namespace Micro65

/-- The label that a line defines: its first lexeme, if a colon follows. -/
def Lexeme.definition? : List Lexeme → Option String
  | ⟨.label name, _⟩ :: ⟨.colon, _⟩ :: _ => some name
  | _ => none

def definedLabel? (line : String) : Option String :=
  (Lexeme.scan line).toOption.bind Lexeme.definition?

namespace Statement

def label? : Statement → Option String
  | .code label _ => label
  | _ => none

def constant? : Statement → Option String
  | .const name _ => some name
  | _ => none

variable {constants : Constants}

/-- What a statement defines can be read off its first two lexemes. -/
theorem parse_defines {lexemes : List Lexeme} {statement : Statement}
    (parsed : parse constants lexemes = .ok statement) :
    statement.label? = Lexeme.definition? lexemes ∧
      statement.constant? = Lexeme.constant? lexemes := by
  have derives := parse_eq_ok_iff.1 parsed
  generalize written : lexemes.map Lexeme.token = tokens at derives
  cases derives with
  | empty =>
    obtain rfl := List.map_eq_nil_iff.1 written
    exact ⟨rfl, rfl⟩
  | code =>
    obtain ⟨_, _, rfl, -⟩ := exists_of_map_eq_cons written
    exact ⟨rfl, rfl⟩
  | const | label | labelled =>
    obtain ⟨_, _, rfl, second⟩ := exists_of_map_eq_cons written
    obtain ⟨_, _, rfl, -⟩ := exists_of_map_eq_cons second
    exact ⟨rfl, rfl⟩

theorem ofLine_defines {line : String} {statement : Statement}
    (parsed : ofLine constants line = .ok statement) :
    statement.label? = definedLabel? line ∧ statement.constant? = definedConstant? line := by
  unfold ofLine at parsed
  rw [except_bind_eq_ok_iff] at parsed
  obtain ⟨lexemes, scanned, parsed⟩ := parsed
  rw [definedLabel?, definedConstant?, scanned]
  exact parse_defines parsed

end Statement

namespace SourceFile

/-- The label that waits for its instruction. -/
def Context.waiting (context : Context) : List String := (context.pending.map (·.1)).toList

theorem Context.addLabel_eq_ok {context : Context} {position : Position} {label : Option String}
    {pending : Option (String × Position)}
    (added : context.addLabel position label = .ok pending) :
    (pending.map (·.1)).toList = context.waiting ++ label.toList := by
  unfold addLabel at added
  unfold waiting
  split at added
  · cases added
    simp
  next none =>
    cases added
    simp [none]
  · contradiction

/-- A label that a line adds to the waiting ones is taken by the instruction of the line, or waits. -/
theorem parseLine_labels {context after : Context} {position : Position} {text : String}
    {instruction : Option Instruction}
    (parsed : parseLine context position text = .ok (after, instruction)) :
    (instruction.bind Instruction.label).toList ++ after.waiting =
      context.waiting ++ (definedLabel? text).toList := by
  obtain ⟨statement, line, takes⟩ := (parseLine_eq_ok_iff _ _ _ _ _).1 parsed
  rw [← (Statement.ofLine_defines line).1]
  cases takes with
  | empty => simp [Statement.label?]
  | const fresh => simp [Statement.label?, Context.waiting]
  | label added =>
    rw [Statement.label?, ← Context.addLabel_eq_ok added]
    rfl
  | code added =>
    rw [Statement.label?, ← Context.addLabel_eq_ok added]
    simp [Context.waiting]

/-- A label that waits behind some lines is owed to the lines that follow. -/
theorem Parses.labels {name : String} {context after : Context} {number : Nat} {texts : List String}
    {lines : List Line} (parses : Parses name context number texts after lines) :
    (lines.filterMap (·.instruction)).filterMap Instruction.label ++ after.waiting =
      context.waiting ++ texts.filterMap definedLabel? := by
  induction parses with
  | nil => simp
  | @cons context middle after number text rest instruction lines first _ inductionHypothesis =>
    have taken := parseLine_labels first
    calc ((Line.mk number text instruction :: lines).filterMap (·.instruction)).filterMap
          Instruction.label ++ after.waiting
        = (instruction.bind Instruction.label).toList ++
            ((lines.filterMap (·.instruction)).filterMap Instruction.label ++ after.waiting) := by
          cases instruction with
          | none => rfl
          | some inst => cases given : inst.label <;> simp [given]
      _ = context.waiting ++ (definedLabel? text).toList ++ rest.filterMap definedLabel? := by
          rw [inductionHypothesis, ← List.append_assoc, taken]
      _ = context.waiting ++ (text :: rest).filterMap definedLabel? := by
          cases given : definedLabel? text <;> simp [given]

/-- The labels of a file, in the order of their definitions, are those of its instructions. -/
theorem parse_labels {name text : String} {file : SourceFile} (parsed : parse name text = .ok file) :
    file.instructions.filterMap Instruction.label = (Text.lines text).filterMap definedLabel? := by
  obtain ⟨after, lines, parses, settled, rfl⟩ := (parse_eq_ok_iff _ _ _).1 parsed
  simpa [instructions, Context.waiting, settled] using parses.labels

end SourceFile

/-- The labels that sources, each a name and a text, define. -/
def definedLabels (sources : List (String × String)) : List String :=
  sources.flatMap fun source => (Text.lines source.2).filterMap definedLabel?

theorem parsed_labels {sources : List (String × String)} {files : List SourceFile}
    (parsed : List.Forall₂ (fun source file => SourceFile.parse source.1 source.2 = .ok file) sources
      files) :
    (files.flatMap SourceFile.instructions).filterMap Instruction.label = definedLabels sources := by
  induction parsed with
  | nil => rfl
  | cons first _ inductionHypothesis =>
    rw [List.flatMap_cons, List.filterMap_append, SourceFile.parse_labels first, inductionHypothesis]
    rfl

end Micro65
