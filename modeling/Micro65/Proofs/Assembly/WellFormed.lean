import Micro65.Proofs.Assembly.Filling
import Micro65.Proofs.Assembly.Solution

set_option autoImplicit false

/-!
What is checked of a program before it is laid out. Labels are compared, and references looked up, among
the lines that are laid out; of the `START` lines only the last is looked at, and only at its operand. So
an assembly that succeeds comes from a well-formed program exactly if it has one `START` line, whose
label no other line carries.
-/

namespace Micro65

/-- Some instruction of a program carries the label. -/
def Defines (program : List Instruction) (name : String) : Prop :=
  ∃ inst ∈ program, inst.label = some name

/-- A program with a single start, in which no label is defined twice and every label mentioned is
defined. -/
structure WellFormed (program : List Instruction) : Prop where
  start : ∃ inst, program.filter (·.kind = .start) = [inst]
  distinct : (program.filterMap Instruction.label).Nodup
  defined : ∀ inst ∈ program, ∀ operand, inst.operand = some operand →
    ∀ name ∈ operand.labels, Defines program name

/-- What discovery makes sure of. -/
structure Checked (program : List Instruction) : Prop where
  distinct : ((laidOut program).filterMap Instruction.label).Nodup
  defined : ∀ inst ∈ laidOut program, ∀ operand, inst.operand = some operand →
    ∀ name ∈ operand.labels, Defines (laidOut program) name
  start : ∀ operand position,
    (program.filterMap Instruction.start?).getLast? = some (operand, position) →
      ∀ name ∈ operand.labels, Defines (laidOut program) name

theorem Defines.of_laidOut {program : List Instruction} {name : String}
    (defines : Defines (laidOut program) name) : Defines program name := by
  obtain ⟨inst, member, label⟩ := defines
  exact ⟨inst, List.mem_of_mem_filter member, label⟩

theorem mem_filterMap_label {program : List Instruction} {name : String} :
    name ∈ program.filterMap Instruction.label ↔ Defines program name := List.mem_filterMap

/-! ### Discovery -/

namespace Layout

/-- The search for labels ends early exactly if one is defined twice. -/
theorem collect_failure_eq_none_iff {labels : Labels} (start : Option (Expr × Position))
    (program : List Instruction) (distinct : labels.Distinct) :
    (collect labels start program).failure = none ↔
      (labels.names ++ (laidOut program).filterMap Instruction.label).Nodup := by
  induction program generalizing labels start with
  | nil => simpa [collect, laidOut, Labels.Distinct] using distinct
  | cons inst rest inductionHypothesis =>
    unfold collect
    by_cases kind : inst.kind = .start
    · rw [if_pos kind, inductionHypothesis _ distinct, laidOut, laidOut, List.filter_cons_of_neg (by simpa)]
    · rw [if_neg kind]
      have own : laidOut (inst :: rest) = inst :: laidOut rest :=
        List.filter_cons_of_pos (by simpa using kind)
      rw [own, List.filterMap_cons]
      cases inst.label with
      | none => exact inductionHypothesis start distinct
      | some name =>
        dsimp only
        rcases inserted : labels.insert name inst.position with ⟨labels', _ | taken⟩
        · obtain ⟨new, rfl⟩ := (Labels.insert_eq_none_iff _ _ _ _).1 inserted
          have after := inductionHypothesis start
            (distinct.push (show (⟨name, inst.position, .unknown⟩ : Label).name ∉ labels.names from new))
          rw [Labels.names_push, List.append_assoc] at after
          exact after
        · have taken : name ∈ labels.names := by
            by_contra new
            have fresh := (Labels.insert_eq_none_iff _ _ _ inst.position).2 ⟨new, rfl⟩
            rw [inserted] at fresh
            cases fresh
          refine iff_of_false (Option.some_ne_none _) fun nodup => ?_
          exact (List.nodup_append.1 nodup).2.2 name taken name List.mem_cons_self rfl

/-- What is left of a program carries the labels of the lines that are laid out. -/
theorem names_of_collect {program : List Instruction} {labels' : Labels} {start' : Option (Expr × Position)}
    {program' : List Instruction}
    (found : collect .empty none program = ⟨(labels', start'), program', none⟩) :
    labels'.names = (laidOut program).filterMap Instruction.label := by
  have names := (collect_labels found List.nodup_nil
    (by simp [Labels.Unknown, Labels.get?, Labels.find?, Labels.empty])).2.2
  rw [names, collect_program found, List.filterMap_map]
  rfl

/-- Discovery succeeds on the programs that pass its checks, and on no others. -/
theorem discover_eq_ok_iff (layout : Layout) :
    (discover.apply layout).1 = .ok () ↔ Checked layout.program := by
  have search := collect_failure_eq_none_iff none layout.program
    (show Labels.empty.Distinct from List.nodup_nil)
  rw [show Labels.empty.names = [] from rfl, List.nil_append] at search
  simp only [discover, Stage.apply_bind, Stage.apply_get, Stage.apply_modify]
  rcases found : collect .empty none layout.program with ⟨⟨labels, start⟩, program, _ | failure⟩
  · rw [found] at search
    have names := names_of_collect found
    have program_eq := collect_program found
    have start_eq := collect_start found
    rw [Option.or_none] at start_eq
    simp only [apply_stopAt_none]
    have looked : ((stopAt (undefined? { layout with program, labels, start })).apply
          { layout with program, labels, start }).1 = .ok () ↔
        undefined? { layout with program, labels, start } = none := by
      cases undefined? { layout with program, labels, start } <;> simp
    rw [looked, undefined?_eq_none_iff]
    have named : ∀ name, name ∈ labels.names ↔ Defines (laidOut layout.program) name := by
      intro name
      rw [names]
      exact mem_filterMap_label
    constructor
    · intro known
      refine ⟨search.1 rfl, fun inst member operand given name mentioned => ?_,
        fun operand position last name mentioned => ?_⟩
      · refine (named name).1 (known (operand, inst.position) ?_ name mentioned)
        refine List.mem_append_left _ (List.mem_filterMap.2 ⟨unplaced inst, ?_, ?_⟩)
        · rw [program_eq]
          exact List.mem_map_of_mem member
        · exact congrArg (Option.map fun operand => (operand, inst.position)) given
      · refine (named name).1 (known (operand, position) ?_ name mentioned)
        refine List.mem_append_right _ ?_
        rw [start_eq, last]
        exact List.mem_cons_self
    · rintro ⟨-, defined, last⟩ ⟨operand, position⟩ member name mentioned
      rw [named]
      rcases List.mem_append.1 member with member | member
      · obtain ⟨_, placed, carried⟩ := List.mem_filterMap.1 member
        dsimp only at placed
        rw [program_eq] at placed
        obtain ⟨inst, kept, rfl⟩ := List.mem_map.1 placed
        obtain ⟨_, given, same⟩ := Option.map_eq_some_iff.1 carried
        cases same
        exact defined inst kept operand given name mentioned
      · refine last operand position ?_ name mentioned
        rw [← start_eq]
        exact Option.mem_toList.1 member
  · rw [found] at search
    simp only [apply_stopAt_some]
    refine iff_of_false (by simp) fun checked => ?_
    exact Option.some_ne_none _ (search.2 checked.distinct)

end Layout

/-! ### Assemblies -/

/-- All labels of a program with one `START` line: those of the lines that are laid out, and its own. -/
theorem nodup_labels_iff {program : List Instruction} {start : Instruction}
    (only : program.filter (·.kind = .start) = [start]) :
    (program.filterMap Instruction.label).Nodup ↔
      ((laidOut program).filterMap Instruction.label).Nodup ∧
        ∀ name, start.label = some name → ¬Defines (laidOut program) name := by
  have parts := (List.filter_append_perm (fun inst : Instruction => inst.kind ≠ .start) program).symm
  have starts : program.filter (fun inst => !decide (inst.kind ≠ .start)) = [start] := by
    simpa using only
  rw [starts] at parts
  rw [(parts.filterMap Instruction.label).nodup_iff, List.filterMap_append]
  change ((laidOut program).filterMap Instruction.label ++ _).Nodup ↔ _
  have own : [start].filterMap Instruction.label = start.label.toList := by
    cases label : start.label <;> simp [label]
  rw [own, List.nodup_append]
  constructor
  · rintro ⟨distinct, -, apart⟩
    refine ⟨distinct, fun name label defines => ?_⟩
    exact apart name (mem_filterMap_label.2 defines) name (by rw [label]; exact List.mem_cons_self) rfl
  · rintro ⟨distinct, apart⟩
    refine ⟨distinct, by cases start.label <;> simp, ?_⟩
    rintro name held _ given rfl
    exact apart name (Option.mem_toList.1 given) (mem_filterMap_label.1 held)

theorem assemble_discovers {files : List SourceFile} {asm : Assembly}
    (done : assemble files = .ok asm) :
    (Layout.discover.apply (.ofFiles files)).1 = .ok () := by
  unfold assemble at done
  rcases ran : Layout.run.apply (.ofFiles files) with ⟨failure | start, layout⟩
  · rw [ran] at done
    contradiction
  · rw [Layout.run, Stage.bind_eq_ok_iff] at ran
    obtain ⟨answer, found, discovered, -⟩ := ran
    rw [discovered]

theorem Instruction.start?_eq_some_iff {inst : Instruction} {operand : Expr} {position : Position} :
    inst.start? = some (operand, position) ↔
      inst.kind = .start ∧ inst.operand = some operand ∧ inst.position = position := by
  unfold start?
  split
  next kind => simp [kind]
  next kind => simp [kind]

theorem filterMap_start? (program : List Instruction) :
    program.filterMap Instruction.start? =
      (program.filter (·.kind = .start)).filterMap Instruction.start? := by
  rw [List.filterMap_filter]
  refine List.filterMap_congr fun inst _ => ?_
  unfold Instruction.start?
  split <;> simp_all

/-- A program from which an assembly succeeds has passed the checks of discovery and has a start. It is
well-formed exactly if it has one `START` line, whose label no line that is laid out carries too. -/
theorem assemble_wellFormed_iff {files : List SourceFile} {asm : Assembly}
    (done : assemble files = .ok asm) :
    let program := files.flatMap SourceFile.instructions
    Checked program ∧ (∃ inst ∈ program, inst.kind = .start) ∧
      (WellFormed program ↔
        ∃ start, program.filter (·.kind = .start) = [start] ∧
          ∀ name, start.label = some name → ¬Defines (laidOut program) name) := by
  intro program
  have checked : Checked program := (Layout.discover_eq_ok_iff (.ofFiles files)).1
    (assemble_discovers done)
  refine ⟨checked, ?_, fun wellFormed => ?_, ?_⟩
  · obtain ⟨layout, -, started, -, -, -, starts⟩ := assemble_settled done
    obtain ⟨operand, position, given, -⟩ := Layout.startAddress_eq_ok started
    rw [starts] at given
    obtain ⟨inst, member, start⟩ := List.mem_filterMap.1 (List.mem_of_getLast? given)
    exact ⟨inst, member, (Instruction.start?_eq_some_iff.1 start).1⟩
  · obtain ⟨start, only⟩ := wellFormed.start
    exact ⟨start, only, ((nodup_labels_iff only).1 wellFormed.distinct).2⟩
  · rintro ⟨start, only, apart⟩
    refine ⟨⟨start, only⟩, (nodup_labels_iff only).2 ⟨checked.distinct, apart⟩, ?_⟩
    intro inst member operand given name mentioned
    refine Defines.of_laidOut ?_
    by_cases kind : inst.kind = .start
    · -- The only `START` line is the last one.
      have same : inst = start := by
        rw [← List.mem_singleton, ← only]
        exact List.mem_filter.2 ⟨member, by simpa using kind⟩
      subst same
      refine checked.start operand inst.position ?_ name mentioned
      rw [filterMap_start?, only,
        List.filterMap_cons_some (Instruction.start?_eq_some_iff.2 ⟨kind, given, rfl⟩)]
      rfl
    · exact checked.defined inst (List.mem_filter.2 ⟨member, by simpa using kind⟩) operand given name
        mentioned

/-- A `START` line with a label of its own, between files that refer to each other. -/
theorem assemble_wellFormed_iff_files : ∃ first second asm,
    SourceFile.parse "main.asm" "@main: LDA @table\nBRK\n@go: START @main\n" = .ok first ∧
    SourceFile.parse "table.asm" "@table: DATA @main + #$0200\n" = .ok second ∧
    assemble [first, second] = .ok asm ∧
    WellFormed ([first, second].flatMap SourceFile.instructions) := by
  have assembled : ∃ first,
      SourceFile.parse "main.asm" "@main: LDA @table\nBRK\n@go: START @main\n" = .ok first ∧
      ∃ second, SourceFile.parse "table.asm" "@table: DATA @main + #$0200\n" = .ok second ∧
      ∃ asm, assemble [first, second] = .ok asm ∧
        (([first, second].flatMap SourceFile.instructions).filter (·.kind = .start)).map
          Instruction.label = [some "go"] ∧
        (laidOut ([first, second].flatMap SourceFile.instructions)).filterMap Instruction.label =
          ["main", "table"] := by
    decide +kernel
  obtain ⟨first, parsed, second, parsed', asm, done, starts, labels⟩ := assembled
  obtain ⟨start, only, label⟩ := List.map_eq_singleton_iff.1 starts
  refine ⟨first, second, asm, parsed, parsed', done,
    (assemble_wellFormed_iff done).2.2.2 ⟨start, only, fun name own defines => ?_⟩⟩
  rw [label, Option.some.injEq] at own
  rw [← mem_filterMap_label, labels, ← own] at defines
  exact absurd defines (by decide)

/-- Not every program that assembles is well-formed. An earlier `START` line is overridden without a word,
and so is the label that it mentions and no line defines; and a `START` line can have the label of
another line. -/
theorem assemble_not_wellFormed :
    (∃ file asm, SourceFile.parse "t.s" "START @nowhere\nSTART $00\nNOP\n" = .ok file ∧
      assemble [file] = .ok asm ∧
      (file.instructions.filter (·.kind = .start)).length = 2 ∧
      (file.instructions.filterMap Instruction.operand).flatMap Expr.labels = ["nowhere"] ∧
      file.instructions.filterMap Instruction.label = [] ∧
      ¬WellFormed ([file].flatMap SourceFile.instructions)) ∧
    (∃ file asm, SourceFile.parse "t.s" "@a: START $00\n@a: NOP\n" = .ok file ∧
      assemble [file] = .ok asm ∧ file.instructions.filterMap Instruction.label = ["a", "a"] ∧
      ¬WellFormed ([file].flatMap SourceFile.instructions)) := by
  have undefined : ∃ file,
      SourceFile.parse "t.s" "START @nowhere\nSTART $00\nNOP\n" = .ok file ∧
      (∃ asm, assemble [file] = .ok asm) ∧
      (file.instructions.filter (·.kind = .start)).length = 2 ∧
      (file.instructions.filterMap Instruction.operand).flatMap Expr.labels = ["nowhere"] ∧
      file.instructions.filterMap Instruction.label = [] := by
    decide +kernel
  have duplicate : ∃ file, SourceFile.parse "t.s" "@a: START $00\n@a: NOP\n" = .ok file ∧
      (∃ asm, assemble [file] = .ok asm) ∧
      file.instructions.filterMap Instruction.label = ["a", "a"] := by
    decide +kernel
  obtain ⟨file, parsed, ⟨asm, done⟩, starts, mentioned, labels⟩ := undefined
  refine ⟨⟨file, asm, parsed, done, starts, mentioned, labels, fun wellFormed => ?_⟩, ?_⟩
  · obtain ⟨start, only⟩ := wellFormed.start
    rw [List.flatMap_singleton] at only
    rw [only] at starts
    exact absurd starts (by simp)
  · obtain ⟨file, parsed, ⟨asm, done⟩, labels⟩ := duplicate
    refine ⟨file, asm, parsed, done, labels, fun wellFormed => ?_⟩
    have distinct := wellFormed.distinct
    rw [List.flatMap_singleton, labels] at distinct
    exact absurd distinct (by decide)

end Micro65
