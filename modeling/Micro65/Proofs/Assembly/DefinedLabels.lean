import Mathlib.Data.List.Pairwise
import Micro65.Proofs.Assembly.Filling
import Micro65.Proofs.Layout.Stamps
import Micro65.Proofs.Source.Labels

set_option autoImplicit false

/-!
What becomes of the labels that the sources define. A label is resolved if it comes to stand in front of
an instruction that takes up an address. In front of a `BASE` line it is registered, but never stamped:
it stays unknown. In front of a `START` line it goes with the line, and is not in the table at all.
-/

namespace Micro65

/-! ### Labels that no instruction stamps -/

namespace Layout

variable {layout after : Layout} {name : String}

theorem fixpoint_unstamped {step : Step} (walks : step.Walks)
    (unstamped : ∀ inst ∈ layout.program, ¬inst.Stamps name) {count : Nat}
    (done : (fixpoint step).apply layout = (.ok count, after)) :
    after.labels.get? name = layout.labels.get? name ∧
      ∀ inst ∈ after.program, ¬inst.Stamps name := by
  let Kept (other : Layout) : Prop :=
    other.labels.get? name = layout.labels.get? name ∧ ∀ inst ∈ other.program, ¬inst.Stamps name
  have keep : ∀ {other after changed}, Kept other →
      (pass step).apply other = (.ok changed, after) → Kept after := by
    rintro other after changed ⟨same, unstamped⟩ once
    obtain ⟨walk, program, swept, -, rfl⟩ := (pass_eq_ok_iff _ _ _ _).1 once
    obtain ⟨same', unstamped'⟩ := swept.unstamped walks unstamped
    exact ⟨same'.trans same, unstamped'⟩
  obtain ⟨last, kept, once⟩ := fixpoint_induction Kept keep ⟨rfl, unstamped⟩ done
  exact keep kept once

theorem updateProgram_unstamped {update : Labels → Instruction → Except AsmError Instruction}
    (code : ∀ {labels inst inst'}, update labels inst = .ok inst' → inst'.SameCode inst)
    (unstamped : ∀ inst ∈ layout.program, ¬inst.Stamps name) {answer : Unit}
    (done : (updateProgram update).apply layout = (.ok answer, after)) :
    after.labels = layout.labels ∧ ∀ inst ∈ after.program, ¬inst.Stamps name := by
  obtain ⟨program, updated, rfl⟩ := (updateProgram_eq_ok_iff _ _ _ _).1 done
  refine ⟨rfl, ?_⟩
  have became := (List.forall₂_and_left ..).2 ⟨unstamped, updated⟩
  exact forall_of_forall₂ became fun ⟨unstamped, updated⟩ stamps =>
    unstamped (((code updated).stamps_iff name).1 stamps)

/-- A layout changes nothing about a label that no instruction stamps. -/
theorem settle_unstamped {start : UInt16} (unstamped : ∀ inst ∈ layout.program, ¬inst.Stamps name)
    (done : settle.apply layout = (.ok start, after)) :
    after.labels.get? name = layout.labels.get? name := by
  obtain ⟨addressPasses, first, moded, measured, sizePasses, sized, located, addresses, chosen, sizes,
    exactSizes, placed, bytes, -⟩ := (settle_eq_ok_iff _ _ _).1 done
  obtain ⟨same, unstamped⟩ := fixpoint_unstamped addressStep_walks unstamped addresses
  -- The modes are chosen on the layout with its count of passes, which decides nothing.
  let counted : Layout := { first with addressPasses }
  have unstampedCounted : ∀ inst ∈ counted.program, ¬inst.Stamps name := unstamped
  obtain ⟨labels, unstamped⟩ := updateProgram_unstamped (fun done => by
    rw [(Instruction.resolveMode_eq_ok done).2.1]
    exact ⟨rfl, rfl, rfl⟩) unstampedCounted chosen
  obtain ⟨labels', unstamped⟩ := updateProgram_unstamped (fun done => by
    rw [(Instruction.resolveSize_eq_ok done).2.1]
    exact ⟨rfl, rfl, rfl⟩) unstamped sizes
  obtain ⟨same', -⟩ := fixpoint_unstamped sizeStep_walks unstamped exactSizes
  obtain ⟨program, -, rfl⟩ := (updateProgram_eq_ok_iff _ _ _ _).1 placed
  obtain ⟨program', -, rfl⟩ := (updateProgram_eq_ok_iff _ _ _ _).1 bytes
  have labels : moded.labels = first.labels := labels
  rw [← same, ← labels, ← labels']
  exact same'

/-- Two instructions of a discovered program with one label are one instruction. -/
theorem Discovered.eq_of_label {found : Layout} (discovered : layout.Discovered found)
    {inst other : Instruction} (member : inst ∈ found.program) (member' : other ∈ found.program)
    (label : inst.label = some name) (label' : other.label = some name) : inst = other := by
  have distinct := discovered.distinct
  unfold Labels.Distinct at distinct
  rw [discovered.names, List.Nodup, List.pairwise_filterMap] at distinct
  have symmetric : Std.Symm fun inst other : Instruction => ∀ name, inst.label = some name →
      ∀ name', other.label = some name' → name ≠ name' :=
    ⟨fun _ _ apart name label name' label' => (apart name' label' name label).symm⟩
  by_contra different
  exact distinct.forall member member' different name label name label' rfl

end Layout

/-! ### Labels of an assembly -/

section Assembled

variable {files : List SourceFile} {asm : Assembly} {name : String} {inst : Instruction}

/-- The layout behind an assembly, and what discovery has left it to start from. -/
theorem assemble_discovered (done : assemble files = .ok asm) : ∃ found layout : Layout,
    (Layout.ofFiles files).Discovered found ∧ layout.Settled ∧
      layout.program.map Layout.unplaced = found.program ∧ asm.labels = layout.labels ∧
      ∀ name, (∀ inst ∈ found.program, ¬inst.Stamps name) →
        asm.labels.get? name = found.labels.get? name := by
  unfold assemble at done
  rcases ran : Layout.run.apply (.ofFiles files) with ⟨failure | start, layout⟩
  · rw [ran] at done
    contradiction
  · rw [ran] at done
    cases done
    obtain ⟨settled, -, code, -⟩ := Layout.run_settled ran
    rw [Layout.run, Stage.bind_eq_ok_iff] at ran
    obtain ⟨_, found, discovered, settles⟩ := ran
    have known := Layout.discover_discovered discovered
    exact ⟨found, layout, known, settled, code.trans known.program.symm, rfl,
      fun name unstamped => Layout.settle_unstamped unstamped settles⟩

theorem Layout.Discovered.mem {found : Layout} (discovered : (ofFiles files).Discovered found)
    (member : inst ∈ files.flatMap SourceFile.instructions) (kept : inst.kind ≠ .start) :
    unplaced inst ∈ found.program := by
  rw [discovered.program]
  exact List.mem_map_of_mem (List.mem_filter.2 ⟨member, by simpa using kept⟩)

/-- Each instruction but a `BASE` or `START` line resolves its label. -/
theorem assemble_get?_of_stamps (done : assemble files = .ok asm)
    (member : inst ∈ files.flatMap SourceFile.instructions) (kept : inst.kind ≠ .start)
    (stamps : inst.Stamps name) :
    ∃ address : UInt16, asm.labels.get? name = some (.point address.toNat) := by
  obtain ⟨found, layout, discovered, ⟨-, placed, settled⟩, code, labels, -⟩ :=
    assemble_discovered done
  have member' := discovered.mem member kept
  rw [← code] at member'
  obtain ⟨laid, laidMember, same⟩ := List.mem_map.1 member'
  obtain ⟨notBase, label⟩ := ((Layout.sameCode_of_unplaced same).stamps_iff name).2 stamps
  refine ⟨laid.address, ?_⟩
  rw [labels, placed.labelled laid laidMember notBase name label,
    (settled laid laidMember).located notBase]

/-- A `BASE` line leaves its label as it was registered. -/
theorem assemble_get?_of_base (done : assemble files = .ok asm)
    (member : inst ∈ files.flatMap SourceFile.instructions) (base : inst.kind = .base)
    (label : inst.label = some name) : asm.labels.get? name = some .unknown := by
  obtain ⟨found, -, discovered, -, -, -, unstamped⟩ := assemble_discovered done
  have member' := discovered.mem member (by simp [base])
  have alone : ∀ other ∈ found.program, ¬other.Stamps name := by
    rintro other otherMember ⟨notBase, otherLabel⟩
    rw [← discovered.eq_of_label member' otherMember label otherLabel] at notBase
    exact notBase base
  have known : name ∈ found.labels.names := discovered.named _ member' name label
  obtain ⟨range, held⟩ := Option.isSome_iff_exists.1 ((Labels.isSome_get?_iff _ _).2 known)
  rw [unstamped name alone, held, discovered.unknown name range held]

/-- A label that only `START` lines have is not in the table. -/
theorem assemble_get?_of_start (done : assemble files = .ok asm)
    (only : ∀ inst ∈ files.flatMap SourceFile.instructions, inst.label = some name →
      inst.kind = .start) : asm.labels.get? name = none := by
  obtain ⟨found, -, discovered, -, -, -, unstamped⟩ := assemble_discovered done
  have absent : ∀ inst ∈ found.program, inst.label ≠ some name := by
    intro inst member label
    rw [discovered.program] at member
    obtain ⟨original, kept, rfl⟩ := List.mem_map.1 member
    obtain ⟨member, notStart⟩ := List.mem_filter.1 kept
    exact absurd (only original member label) (by simpa using notStart)
  rw [unstamped name fun inst member stamps => absent inst member stamps.2]
  rw [← Option.not_isSome_iff_eq_none, Labels.isSome_get?_iff, discovered.names, List.mem_filterMap]
  rintro ⟨inst, member, label⟩
  exact absent inst member label

end Assembled

/-- Every label that the sources define comes to stand in front of an instruction or directive, and that
decides what becomes of it: the label of a `BASE` line stays unknown, that of a `START` line is lost,
and every other is resolved to a single address. -/
theorem assemble_labels {sources : List (String × String)} {files : List SourceFile} {asm : Assembly}
    (parsed : List.Forall₂ (fun source file => SourceFile.parse source.1 source.2 = .ok file) sources
      files)
    (done : assemble files = .ok asm) {name : String} (defined : name ∈ definedLabels sources) :
    (∃ inst ∈ files.flatMap SourceFile.instructions, inst.label = some name) ∧
    ((∃ address : UInt16, asm.labels.get? name = some (.point address.toNat)) ↔
      ∃ inst ∈ files.flatMap SourceFile.instructions, inst.label = some name ∧
        inst.kind ≠ .base ∧ inst.kind ≠ .start) ∧
    (asm.labels.get? name = some .unknown ↔
      ∃ inst ∈ files.flatMap SourceFile.instructions, inst.label = some name ∧ inst.kind = .base) ∧
    (asm.labels.get? name = none ↔
      ∀ inst ∈ files.flatMap SourceFile.instructions, inst.label = some name →
        inst.kind = .start) := by
  rw [← parsed_labels parsed, List.mem_filterMap] at defined
  have placed : (∃ inst ∈ files.flatMap SourceFile.instructions, inst.label = some name ∧
        inst.kind ≠ .base ∧ inst.kind ≠ .start) →
      ∃ address : UInt16, asm.labels.get? name = some (.point address.toNat) := by
    rintro ⟨inst, member, label, notBase, notStart⟩
    exact assemble_get?_of_stamps done member notStart ⟨notBase, label⟩
  have based : (∃ inst ∈ files.flatMap SourceFile.instructions, inst.label = some name ∧
        inst.kind = .base) → asm.labels.get? name = some .unknown := by
    rintro ⟨inst, member, label, base⟩
    exact assemble_get?_of_base done member base label
  have lost : (∀ inst ∈ files.flatMap SourceFile.instructions, inst.label = some name →
      inst.kind = .start) → asm.labels.get? name = none := assemble_get?_of_start done
  -- Each of the three leaves an entry of its own, so the entry tells which of them it was.
  have apart : (∃ address : UInt16, asm.labels.get? name = some (.point address.toNat)) →
      asm.labels.get? name ≠ some .unknown ∧ asm.labels.get? name ≠ none := by
    rintro ⟨address, found⟩
    rw [found]
    refine ⟨fun same => ?_, Option.some_ne_none _⟩
    simp only [Interval.point, Interval.unknown, Option.some.injEq, Interval.mk.injEq] at same
    omega
  have fate : (∃ inst ∈ files.flatMap SourceFile.instructions, inst.label = some name ∧
        inst.kind ≠ .base ∧ inst.kind ≠ .start) ∨
      (∃ inst ∈ files.flatMap SourceFile.instructions, inst.label = some name ∧
        inst.kind = .base) ∨
      ∀ inst ∈ files.flatMap SourceFile.instructions, inst.label = some name →
        inst.kind = .start := by
    by_cases only : ∀ inst ∈ files.flatMap SourceFile.instructions, inst.label = some name →
        inst.kind = .start
    · exact .inr (.inr only)
    · push Not at only
      obtain ⟨inst, member, label, notStart⟩ := only
      by_cases base : inst.kind = .base
      · exact .inr (.inl ⟨inst, member, label, base⟩)
      · exact .inl ⟨inst, member, label, base, notStart⟩
  refine ⟨defined, ⟨fun found => ?_, placed⟩, ⟨fun found => ?_, based⟩, fun found => ?_, lost⟩
  · rcases fate with resolved | base | only
    · exact resolved
    · exact absurd (based base) (apart found).1
    · exact absurd (lost only) (apart found).2
  · rcases fate with resolved | base | only
    · exact absurd found (apart (placed resolved)).1
    · exact base
    · rw [lost only] at found
      contradiction
  · rcases fate with resolved | base | only
    · exact absurd found (apart (placed resolved)).2
    · rw [based base] at found
      contradiction
    · exact only

/-- A label on a line of its own, behind a `START` and a `BASE` line that have labels too. -/
theorem assemble_labels_own_line : ∃ file asm,
    SourceFile.parse "own.asm" "@s: START $00\n@b: BASE $0200\n@m:\nNOP\n" = .ok file ∧
    assemble [file] = .ok asm ∧
    definedLabels [("own.asm", "@s: START $00\n@b: BASE $0200\n@m:\nNOP\n")] = ["s", "b", "m"] ∧
    asm.labels.get? "m" = some (.point (512 : UInt16).toNat) ∧
    ∃ inst ∈ [file].flatMap SourceFile.instructions, inst.label = some "m" ∧
      inst.kind ≠ .base ∧ inst.kind ≠ .start := by
  have assembled : ∃ file,
      SourceFile.parse "own.asm" "@s: START $00\n@b: BASE $0200\n@m:\nNOP\n" = .ok file ∧
      ∃ asm, assemble [file] = .ok asm ∧
        asm.labels.get? "m" = some (.point (512 : UInt16).toNat) := by
    decide +kernel
  have defined : definedLabels [("own.asm", "@s: START $00\n@b: BASE $0200\n@m:\nNOP\n")] =
      ["s", "b", "m"] := by
    decide +kernel
  have member : "m" ∈ definedLabels [("own.asm", "@s: START $00\n@b: BASE $0200\n@m:\nNOP\n")] := by
    rw [defined]
    simp
  obtain ⟨file, parsed, asm, done, resolved⟩ := assembled
  obtain ⟨-, point, -, -⟩ := assemble_labels (.cons parsed .nil) done member
  exact ⟨file, asm, parsed, done, defined, resolved, point.1 ⟨512, resolved⟩⟩

/-- Not every label that is defined is resolved: a `BASE` line leaves its own one unknown. -/
theorem assemble_labels_of_base : ∃ file asm,
    SourceFile.parse "t.s" "START $00\n@a: BASE $0200\nNOP\n" = .ok file ∧
    assemble [file] = .ok asm ∧
    definedLabels [("t.s", "START $00\n@a: BASE $0200\nNOP\n")] = ["a"] ∧
    ∀ value, asm.labels.get? "a" ≠ some (.point value) := by
  have assembled : ∃ file,
      SourceFile.parse "t.s" "START $00\n@a: BASE $0200\nNOP\n" = .ok file ∧
      ∃ asm, assemble [file] = .ok asm ∧ asm.labels.get? "a" = some .unknown := by
    decide +kernel
  obtain ⟨file, parsed, asm, done, unknown⟩ := assembled
  refine ⟨file, asm, parsed, done, by decide +kernel, ?_⟩
  intro value resolved
  rw [unknown, Option.some.injEq] at resolved
  simp only [Interval.unknown, Interval.point, Interval.mk.injEq] at resolved
  omega

end Micro65
