import Micro65.Proofs.Source.Joining

set_option autoImplicit false

/-!
File boundaries. Apart from constants, which hold for one file only, a program is the same in two files as
in one that joins them.
-/

namespace Micro65

/-- What an assembly puts into memory, where it starts and where its labels are. -/
def Assembly.content (asm : Assembly) :
    UInt16 × List (String × Interval) × List (UInt16 × UInt8) :=
  (asm.start, asm.labels.ranges, asm.bytes)

/-- What comes of some sources, but for the positions of labels and of failures. -/
def outcome (files : List SourceFile) :
    Except AsmError (UInt16 × List (String × Interval) × List (UInt16 × UInt8)) :=
  ((assemble files).map Assembly.content).mapError Diagnostic.error

namespace Layout

/-- The outcome as a layout leaves it. -/
def outcome (done : Except Diagnostic UInt16 × Layout) :
    Except AsmError (UInt16 × List (String × Interval) × List (UInt16 × UInt8)) :=
  (done.1.map fun start => (start, done.2.labels.ranges,
    done.2.program.flatMap fun inst => addressed inst.address inst.bytes)).mapError Diagnostic.error

theorem outcome_renumber (move : Position → Position) (done : Except Diagnostic UInt16 × Layout) :
    outcome (Stage.renumberOutcome move done) = outcome done := by
  rcases done with ⟨failure | start, layout⟩
  · rfl
  · have bytes : ((layout.renumber move).program.flatMap fun inst =>
        addressed inst.address inst.bytes) =
          layout.program.flatMap fun inst => addressed inst.address inst.bytes :=
      List.flatMap_map _ _ _
    simp only [outcome, Stage.renumberOutcome, Except.mapError, Except.map, bytes]
    rw [show (layout.renumber move).labels = layout.labels.renumber move from rfl,
      Labels.ranges_renumber]

end Layout

theorem outcome_eq (files : List SourceFile) :
    outcome files = Layout.outcome (Layout.run.apply (.ofFiles files)) := by
  unfold outcome assemble Assembly.content Assembly.bytes Assembly.instructions
  rcases ran : Layout.run.apply (.ofFiles files) with ⟨failure | start, layout⟩
  · rfl
  · simp only [Except.map, Layout.instructions_of_run ran]
    rfl

/-- Sources that differ in the positions of their instructions only come out the same. -/
theorem outcome_eq_of_unnumbered {files files' : List SourceFile}
    (same : (files.flatMap SourceFile.instructions).map SourceFile.unnumbered =
      (files'.flatMap SourceFile.instructions).map SourceFile.unnumbered) :
    outcome files = outcome files' := by
  have layouts : (Layout.ofFiles files).renumber (fun _ => ⟨"", 0⟩) =
      (Layout.ofFiles files').renumber fun _ => ⟨"", 0⟩ := by
    simp only [Layout.ofFiles, Layout.renumber, same]
  calc outcome files
      = Layout.outcome (Layout.run.apply ((Layout.ofFiles files).renumber fun _ => ⟨"", 0⟩)) := by
        rw [outcome_eq, Layout.uniform_run, Layout.outcome_renumber]
    _ = outcome files' := by
        rw [layouts, outcome_eq, Layout.uniform_run, Layout.outcome_renumber]

/-- Two files and one that joins them have the same outcome, whether they assemble or fail. -/
theorem outcome_join {firstName firstText secondName secondText lineBreak : String}
    {first second : SourceFile} (breaks : lineBreak ∈ Text.lineBreaks)
    (parsedFirst : SourceFile.parse firstName firstText = .ok first)
    (parsedSecond : SourceFile.parse secondName secondText = .ok second)
    (apart : (definedConstants firstText).Disjoint (definedConstants secondText)) (name : String) :
    ∃ joined, SourceFile.parse name (firstText ++ lineBreak ++ secondText) = .ok joined ∧
      outcome [first, second] = outcome [joined] := by
  obtain ⟨joined, parsed, same⟩ :=
    SourceFile.parse_join breaks parsedFirst parsedSecond apart name
  refine ⟨joined, parsed, outcome_eq_of_unnumbered ?_⟩
  simp only [List.flatMap_cons, List.flatMap_nil, List.append_nil]
  exact same.symm

/-- Files that refer to each other, with a constant each. The first one has no line break at its end but a
carriage return, in a comment. -/
theorem outcome_join_mutual : ∃ first second joined,
    SourceFile.parse "go.s" "%k = $02\n@go: LDA %k\nSTA @d;\r" = .ok first ∧
    SourceFile.parse "d.s" "%h = $10\n@d:\nDATA @go+%h\nSTART @go" = .ok second ∧
    SourceFile.parse "all.s" ("%k = $02\n@go: LDA %k\nSTA @d;\r" ++ "\n" ++
      "%h = $10\n@d:\nDATA @go+%h\nSTART @go") = .ok joined ∧
    outcome [first, second] = .ok (0, [("go", .point 0), ("d", .point 4)],
      [(0, 0xA9), (1, 0x02), (2, 0x85), (3, 0x04), (4, 0x10)]) ∧
    outcome [first, second] = outcome [joined] := by
  have parsed : ∃ first,
      SourceFile.parse "go.s" "%k = $02\n@go: LDA %k\nSTA @d;\r" = .ok first ∧
      ∃ second, SourceFile.parse "d.s" "%h = $10\n@d:\nDATA @go+%h\nSTART @go" = .ok second ∧
      outcome [first, second] = .ok (0, [("go", .point 0), ("d", .point 4)],
        [(0, 0xA9), (1, 0x02), (2, 0x85), (3, 0x04), (4, 0x10)]) := by
    decide +kernel
  have constants : definedConstants "%k = $02\n@go: LDA %k\nSTA @d;\r" = ["k"] := by decide +kernel
  have others : definedConstants "%h = $10\n@d:\nDATA @go+%h\nSTART @go" = ["h"] := by decide +kernel
  obtain ⟨first, parsedFirst, second, parsedSecond, content⟩ := parsed
  obtain ⟨joined, parsedJoined, same⟩ := outcome_join (by decide : "\n" ∈ Text.lineBreaks)
    parsedFirst parsedSecond (by simp [constants, others]) "all.s"
  exact ⟨first, second, joined, parsedFirst, parsedSecond, parsedJoined, content, same⟩

end Micro65
