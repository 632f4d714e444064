import Micro65.Asm.Assembly
import Micro65.Proofs.Layout.Settled

set_option autoImplicit false

/-!
Laid-out instructions back on their lines. The lines of all sources take up a program that has one
instruction for each of theirs, in the same order, and nothing is left over.
-/

namespace Micro65

/-- The instructions of a program that are laid out. -/
def laidOut (program : List Instruction) : List Instruction := program.filter (·.kind ≠ .start)

theorem laidOut_append (program rest : List Instruction) :
    laidOut (program ++ rest) = laidOut program ++ laidOut rest := List.filter_append ..

namespace Line

/-- The number of instructions that a line takes up. -/
def places (line : Line) : Nat := (laidOut line.instruction.toList).length

theorem fill_snd (program : List Instruction) (line : Line) :
    (line.fill program).2 = program.drop line.places := by
  unfold fill places laidOut
  cases line.instruction with
  | none => rfl
  | some inst => by_cases kind : inst.kind = .start <;> simp [kind]

theorem fill_fst {program : List Instruction} {line : Line} (enough : line.places ≤ program.length) :
    (line.fill program).1.instruction.toList = program.take line.places := by
  unfold fill places laidOut at *
  cases given : line.instruction with
  | none => simp [given]
  | some inst =>
    by_cases kind : inst.kind = .start
    · simp [kind]
    · cases program with
      | nil => simp [given, kind] at enough
      | cons first program => simp [kind]

theorem instructions_cons (line : Line) (lines : List Line) :
    (line :: lines).filterMap (·.instruction) =
      line.instruction.toList ++ lines.filterMap (·.instruction) := by
  cases given : line.instruction <;> simp [given]

theorem fillAll_cons (program : List Instruction) (line : Line) (rest : List Line) :
    fillAll program (line :: rest) =
      ((line.fill program).1 :: (fillAll (line.fill program).2 rest).1,
        (fillAll (line.fill program).2 rest).2) := rfl

theorem fillAll_snd (program : List Instruction) (lines : List Line) :
    (fillAll program lines).2 =
      program.drop (laidOut (lines.filterMap (·.instruction))).length := by
  induction lines generalizing program with
  | nil => rfl
  | cons line rest inductionHypothesis =>
    rw [fillAll_cons, inductionHypothesis, fill_snd, List.drop_drop, instructions_cons,
      laidOut_append, List.length_append, places]

theorem fillAll_fst {program : List Instruction} {lines : List Line}
    (enough : (laidOut (lines.filterMap (·.instruction))).length ≤ program.length) :
    (fillAll program lines).1.filterMap (·.instruction) =
      program.take (laidOut (lines.filterMap (·.instruction))).length := by
  induction lines generalizing program with
  | nil => rfl
  | cons line rest inductionHypothesis =>
    rw [instructions_cons, laidOut_append, List.length_append] at enough ⊢
    change line.places + _ ≤ _ at enough
    rw [fillAll_cons, instructions_cons, fill_fst (by omega), fill_snd,
      inductionHypothesis (by rw [List.length_drop]; omega), List.take_add]
    rfl

end Line

/-- Every instruction finds its line again. -/
theorem SourceFile.instructions_fillAll {files : List SourceFile} {program : List Instruction}
    (enough : program.length = (laidOut (files.flatMap SourceFile.instructions)).length) :
    (fillAll program files).flatMap SourceFile.instructions = program := by
  induction files generalizing program with
  | nil => exact (List.length_eq_zero_iff.1 enough).symm
  | cons file rest inductionHypothesis =>
    rw [List.flatMap_cons, laidOut_append, List.length_append] at enough
    have own : (laidOut file.instructions).length ≤ program.length := by omega
    have others := Line.fillAll_snd program file.lines
    change (Line.fillAll program file.lines).1.filterMap (·.instruction) ++
      (fillAll (Line.fillAll program file.lines).2 rest).flatMap SourceFile.instructions = program
    rw [others, inductionHypothesis, Line.fillAll_fst own, List.take_append_drop]
    rw [List.length_drop]
    change program.length - (laidOut file.instructions).length = _
    omega

/-- A layout that has run leaves one instruction for each line that takes up one. -/
theorem Layout.instructions_of_run {files : List SourceFile} {start : UInt16} {layout : Layout}
    (ran : run.apply (.ofFiles files) = (.ok start, layout)) :
    (SourceFile.fillAll layout.program files).flatMap SourceFile.instructions = layout.program := by
  obtain ⟨-, -, code, -⟩ := run_settled ran
  have length := congrArg List.length code
  rw [List.length_map, List.length_map] at length
  exact SourceFile.instructions_fillAll length

/-- An assembly that succeeds holds a solution of the layout of its sources. -/
theorem assemble_settled {files : List SourceFile} {asm : Assembly}
    (done : assemble files = .ok asm) :
    ∃ layout : Layout, layout.Settled ∧ layout.startAddress = .ok asm.start ∧
      asm.labels = layout.labels ∧ asm.instructions = layout.program ∧
      asm.instructions.map Layout.unplaced =
        (laidOut (files.flatMap SourceFile.instructions)).map Layout.unplaced ∧
      layout.start =
        ((files.flatMap SourceFile.instructions).filterMap Instruction.start?).getLast? := by
  unfold assemble at done
  rcases ran : Layout.run.apply (.ofFiles files) with ⟨failure | start, layout⟩
  · rw [ran] at done
    contradiction
  · rw [ran] at done
    cases done
    obtain ⟨settled, started, code, starts⟩ := Layout.run_settled ran
    have filled := Layout.instructions_of_run ran
    exact ⟨layout, settled, started, rfl, filled, (congrArg _ filled).trans code, starts⟩

end Micro65
