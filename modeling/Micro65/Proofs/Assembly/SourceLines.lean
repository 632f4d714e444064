import Micro65.Asm.Assembly
import Micro65.Proofs.Source.Parsing
import Micro65.Proofs.Text.Lines

set_option autoImplicit false

/-!
Names and lines of the sources in an assembly. Layout puts instructions back on the lines and leaves
their texts as they were read, each of them free of line feeds.
-/

namespace Micro65

/-- Neither the name nor the text of a line goes on on another line. -/
structure SourceFile.Unbroken (file : SourceFile) : Prop where
  name : '\n' ∉ file.name.toList
  lines : ∀ line ∈ file.lines, '\n' ∉ line.text.toList

theorem SourceFile.parse_unbroken {name text : String} {file : SourceFile}
    (parsed : parse name text = .ok file) (unbroken : '\n' ∉ file.name.toList) : file.Unbroken := by
  obtain ⟨after, lines, parses, -, rfl⟩ := (parse_eq_ok_iff _ _ _).1 parsed
  refine ⟨unbroken, fun line member => ?_⟩
  have textMember : line.text ∈ lines.map (·.text) := List.mem_map_of_mem member
  rw [parses.texts_eq] at textMember
  exact Text.not_mem_lines textMember

theorem Line.fill_text (program : List Instruction) (line : Line) :
    (line.fill program).1.text = line.text := by
  unfold fill
  split
  · rfl
  · split <;> rfl

theorem Line.fillAll_texts (program : List Instruction) (lines : List Line) :
    (fillAll program lines).1.map (·.text) = lines.map (·.text) := by
  induction lines generalizing program with
  | nil => rfl
  | cons line rest inductionHypothesis =>
    change (line.fill program).1.text :: (fillAll (line.fill program).2 rest).1.map (·.text) = _
    rw [fill_text, inductionHypothesis, List.map_cons]

theorem SourceFile.fillAll_unbroken {files : List SourceFile} (program : List Instruction)
    (unbroken : ∀ file ∈ files, file.Unbroken) : ∀ file ∈ fillAll program files, file.Unbroken := by
  induction files generalizing program with
  | nil => exact unbroken
  | cons file rest inductionHypothesis =>
    rw [List.forall_mem_cons] at unbroken
    refine List.forall_mem_cons.2 ⟨⟨unbroken.1.name, ?_⟩, inductionHypothesis _ unbroken.2⟩
    intro line member
    have textMember : line.text ∈ (Line.fillAll program file.lines).1.map (·.text) :=
      List.mem_map_of_mem member
    rw [Line.fillAll_texts] at textMember
    obtain ⟨original, originalMember, same⟩ := List.mem_map.1 textMember
    rw [← same]
    exact unbroken.1.lines original originalMember

theorem assemble_unbroken {files : List SourceFile} {asm : Assembly}
    (parsed : ∀ file ∈ files, ∃ name text, SourceFile.parse name text = .ok file)
    (names : ∀ file ∈ files, '\n' ∉ file.name.toList) (done : assemble files = .ok asm) :
    ∀ file ∈ asm.files, file.Unbroken := by
  unfold assemble at done
  split at done
  next start layout _ =>
    cases done
    refine SourceFile.fillAll_unbroken layout.program fun file member => ?_
    obtain ⟨name, text, parsed⟩ := parsed file member
    exact SourceFile.parse_unbroken parsed (names file member)
  next => contradiction

end Micro65
