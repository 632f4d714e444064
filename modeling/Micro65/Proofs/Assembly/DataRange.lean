import Micro65.Proofs.Assembly.Filling
import Micro65.Proofs.Layout.Covering
import Micro65.Proofs.Layout.DataRange

set_option autoImplicit false

/-!
Sources that have a layout and are refused. Data out of range is reported of a source that has a layout
only at a line whose value is a word in that layout, but not yet settled when the first pass by sizes
comes to it. A source whose `BASE` and `DATA` lines look back is never refused so.
-/

namespace Micro65

/-! ### Searches of a program that has a layout -/

namespace Layout

variable {layout after found : Layout} {labels : Labels}

/-- An address pass rules out no layout of the program. -/
theorem addressPass_covers {changed : Bool} (proper : labels.Proper) (bounded : labels.Bounded)
    (opened : ∀ inst ∈ layout.program, inst.Open) (realized : Realized labels 0 layout.program)
    (within : labels.Within layout.labels)
    (done : (pass addressStep).apply layout = (.ok changed, after)) :
    labels.Within after.labels := by
  obtain ⟨walk, program, swept, -, rfl⟩ := (pass_eq_ok_iff _ _ _ _).1 done
  rw [← List.append_nil layout.program] at realized
  obtain ⟨cursor, covers, -⟩ := swept.realized (fun walk cursor _ => walk.Covers labels cursor)
    (fun covers opened leads done =>
      covers.step (addressStep_allows labels) proper bounded opened leads done)
    opened (Walk.covers_start within) realized
  exact covers.within

theorem addressFixpoint_covers {count : Nat} (proper : labels.Proper) (bounded : labels.Bounded)
    (known : layout.Discovered found) (realized : Realized labels 0 found.program)
    (within : labels.Within found.labels)
    (done : (fixpoint addressStep).apply found = (.ok count, after)) :
    labels.Within after.labels := by
  let Kept (other : Layout) : Prop := found.Keeps other ∧ other.labels.Proper ∧
    (∀ inst ∈ other.program, inst.Open) ∧ labels.Within other.labels
  have keep : ∀ {other after changed}, Kept other →
      (pass addressStep).apply other = (.ok changed, after) → Kept after := by
    rintro other after changed ⟨keeps, proper', opened, within⟩ once
    obtain ⟨keeps', proper', opened'⟩ := addressPass_keeps proper' opened once
    have realized' := realized.congr (forall₂_sameCode keeps.code)
    exact ⟨keeps.trans keeps', proper', opened',
      addressPass_covers proper bounded opened realized' within once⟩
  obtain ⟨last, kept, once⟩ :=
    fixpoint_induction Kept keep ⟨.refl found, known.unknown.proper, known.opened, within⟩ done
  exact (keep kept once).2.2.2

end Layout

section Sources

/-- The program that is laid out of the sources. -/
def SourceFile.program (files : List SourceFile) : List Instruction :=
  laidOut (files.flatMap SourceFile.instructions)

/-- Under the assignment the sources have a layout. -/
def SourceFile.Realizable (files : List SourceFile) (addresses : String → UInt16) : Prop :=
  Realized (.assigned addresses (program files)) 0 (program files)

variable {files : List SourceFile} {addresses : String → UInt16}

namespace Layout

variable {measured : Layout} {inst : Instruction} {range : Interval}

theorem measure_code (done : measure.apply (.ofFiles files) = (.ok (), measured)) :
    measured.program.map unplaced = (SourceFile.program files).map unplaced := by
  obtain ⟨found, first, discovered, keeps, known⟩ := measure_measured done
  rw [known.narrowed.keeps.code, keeps.code, (discover_discovered discovered).program, List.map_map]
  rfl

theorem exists_source (done : measure.apply (.ofFiles files) = (.ok (), measured))
    (member : inst ∈ measured.program) :
    ∃ source ∈ files.flatMap SourceFile.instructions, unplaced source = unplaced inst := by
  have listed : unplaced inst ∈ measured.program.map unplaced := List.mem_map_of_mem member
  rw [measure_code done] at listed
  obtain ⟨source, laid, same⟩ := List.mem_map.1 listed
  exact ⟨source, List.mem_of_mem_filter laid, same⟩

/-- What is known before the search for sizes rules out no layout of the sources. -/
theorem measure_covers (realizable : SourceFile.Realizable files addresses)
    (done : measure.apply (.ofFiles files) = (.ok (), measured)) :
    (Labels.assigned addresses (SourceFile.program files)).Within measured.labels := by
  obtain ⟨found, addressPasses, first, moded, discovered, addressed, chosen, sizes⟩ :=
    (measure_eq_ok_iff _ _).1 done
  have known := discover_discovered discovered
  have code : found.program = (SourceFile.program files).map unplaced := known.program
  have names : found.labels.names = (SourceFile.program files).filterMap Instruction.label := by
    rw [known.names, code, List.filterMap_map]
    rfl
  have same : List.Forall₂ Instruction.SameCode (SourceFile.program files) found.program := by
    refine forall₂_sameCode ?_
    rw [code, List.map_map]
    rfl
  have within := addressFixpoint_covers Labels.proper_assigned Labels.bounded_assigned known
    (realizable.congr same) (known.unknown.assigned_within names) addressed
  rw [(resolve_shrunk chosen sizes).1]
  exact within

theorem measure_resolved (done : measure.apply (.ofFiles files) = (.ok (), measured)) :
    ∀ inst ∈ measured.program, inst.Resolved measured.labels := by
  obtain ⟨found, first, -, -, known⟩ := measure_measured done
  rw [known.labels]
  exact known.narrowed.resolved

/-- What a pass by sizes keeps on its way through a layout of the sources holds where it overshoots; the
line has a word for its value in the layout. -/
theorem Overshoots.reached (Near : Walk → Int → List Instruction → Prop)
    (keep : ∀ {walk walk' inst inst' cursor next rest}, Near walk cursor (inst :: rest) →
      inst.Resolved measured.labels →
      inst.Leads (.assigned addresses (SourceFile.program files)) cursor next →
      sizeStep walk inst = (walk', inst', none) → Near walk' next rest)
    (realizable : SourceFile.Realizable files addresses)
    (done : measure.apply (.ofFiles files) = (.ok (), measured))
    (overshoots : measured.Overshoots inst range)
    (near : Near (.start measured.labels) 0 measured.program) :
    ∃ walk cursor rest operand value, Near walk cursor (inst :: rest) ∧
      inst.operand = some operand ∧
      operand.range (walk.labels.stamp inst.label walk.cursor) = .ok range ∧
      (∀ name, inst.label = some name →
        (Labels.assigned addresses (SourceFile.program files)).get? name = some (.point cursor)) ∧
      operand.range (.assigned addresses (SourceFile.program files)) = .ok (.point value) ∧
      0 ≤ value ∧ value ≤ 0xFFFF := by
  obtain ⟨before, after, walk, passed, operand, split, swept, data, given, evaluated, -⟩ := overshoots
  have resolved := measure_resolved done
  have realized := realizable.congr (forall₂_sameCode (measure_code done))
  rw [split] at resolved realized near
  obtain ⟨cursor, near, realized⟩ := swept.realized Near keep
    (fun inst member => resolved inst (List.mem_append_left _ member)) near realized
  cases realized with
  | cons leads _ =>
    cases leads with
    | base base => simp [data] at base
    | placed notBase labelled takes =>
      obtain ⟨operand', value, given', evaluated', low, high, -⟩ := takes.of_data data
      rw [given, Option.some.injEq] at given'
      subst given'
      exact ⟨walk, cursor, after, operand, value, near, given, evaluated, labelled, evaluated', low,
        high⟩

/-- The value that the line has in a layout is one that the pass has not ruled out. -/
theorem Overshoots.value (realizable : SourceFile.Realizable files addresses)
    (done : measure.apply (.ofFiles files) = (.ok (), measured))
    (overshoots : measured.Overshoots inst range) : ∃ operand value, inst.operand = some operand ∧
      operand.range (.assigned addresses (SourceFile.program files)) = .ok (.point value) ∧
      0 ≤ value ∧ value ≤ 0xFFFF ∧ (Interval.point value).Inside range := by
  have within := measure_covers realizable done
  obtain ⟨walk, cursor, rest, operand, value, covers, given, evaluated, labelled, evaluated', low,
    high⟩ := overshoots.reached
      (fun walk cursor _ => walk.Covers (.assigned addresses (SourceFile.program files)) cursor)
      (fun covers resolved leads done =>
        covers.step (sizeStep_allows Labels.proper_assigned within) Labels.proper_assigned
          Labels.bounded_assigned resolved leads done)
      realizable done (Walk.covers_start within)
  have inside := Expr.range_inside (covers.stamp Labels.bounded_assigned labelled)
    Labels.proper_assigned evaluated' evaluated
  exact ⟨operand, value, given, evaluated', low, high, inside⟩

/-- In sources that look back and have a layout, the first pass by sizes overshoots nowhere. -/
theorem not_overshoots_of_looksBack (realizable : SourceFile.Realizable files addresses)
    (looksBack : LooksBack [] (SourceFile.program files))
    (done : measure.apply (.ofFiles files) = (.ok (), measured)) :
    ¬measured.Overshoots inst range := by
  intro overshoots
  have within := measure_covers realizable done
  have looksBack := looksBack.congr (forall₂_sameCode (measure_code done))
  obtain ⟨walk, cursor, rest, operand, value, ⟨known, exactly, back, -⟩, given, evaluated, labelled,
    evaluated', low, high⟩ := overshoots.reached
      (fun walk cursor rest => ∃ known,
        walk.Exact (.assigned addresses (SourceFile.program files)) known cursor ∧
          LooksBack known rest)
      (fun ⟨_, exactly, back, looksBack⟩ resolved leads done =>
        ⟨_, exactly.step Labels.proper_assigned Labels.bounded_assigned within resolved back leads
          done, looksBack⟩)
      realizable done ⟨[], ⟨Walk.covers_start within, rfl, by simp⟩, looksBack⟩
  obtain ⟨-, -, -, -, -, -, -, data, -, -, outside⟩ := overshoots
  have notBase : inst.kind ≠ .base := by simp [data]
  -- What the operand mentions is known by then, so its value is the one of the layout.
  have same := Expr.range_congr fun name mentioned =>
    exactly.stamp Labels.bounded_assigned notBase labelled name
      (back (.inr data) operand given mentioned)
  rw [same, evaluated', Except.ok.injEq] at evaluated
  subst evaluated
  rw [(Interval.within_iff _ _ _).2 ⟨low, high⟩] at outside
  contradiction

end Layout

/-- A run reports data out of range exactly if the first pass by sizes overshoots. If the sources have a
layout, the line that is reported has a word for its value there, among others that were still possible
when the pass came to it; and no line of sources that look back is reported. -/
theorem run_dataOutOfRange (files : List SourceFile) :
    (∀ lo hi position,
      (Layout.run.apply (.ofFiles files)).1 = .error ⟨.dataOutOfRange lo hi, position⟩ ↔
        ∃ measured inst, Layout.measure.apply (.ofFiles files) = (.ok (), measured) ∧
          measured.Overshoots inst ⟨lo, hi⟩ ∧ position = some inst.position) ∧
    ∀ addresses, SourceFile.Realizable files addresses →
      (∀ lo hi position,
        (Layout.run.apply (.ofFiles files)).1 = .error ⟨.dataOutOfRange lo hi, position⟩ →
          ∃ inst ∈ files.flatMap SourceFile.instructions, ∃ operand value, inst.kind = .data ∧
            position = some inst.position ∧ inst.operand = some operand ∧
            operand.range (.assigned addresses (SourceFile.program files)) = .ok (.point value) ∧
            0 ≤ value ∧ value ≤ 0xFFFF ∧ lo ≤ value ∧ value ≤ hi ∧ (lo < 0 ∨ 0xFFFF < hi)) ∧
      (LooksBack [] (SourceFile.program files) → ∀ lo hi position,
        (Layout.run.apply (.ofFiles files)).1 ≠ .error ⟨.dataOutOfRange lo hi, position⟩) := by
  refine ⟨Layout.run_dataRange_iff _, fun addresses realizable => ⟨?_, ?_⟩⟩
  · intro lo hi position failed
    obtain ⟨measured, inst, done, overshoots, rfl⟩ := (Layout.run_dataRange_iff _ _ _ _).1 failed
    obtain ⟨operand, value, given, evaluated, low, high, inside⟩ :=
      overshoots.value realizable done
    obtain ⟨before, after, -, -, -, split, -, data, -, -, outside⟩ := overshoots
    have placed : inst ∈ measured.program := by simp [split]
    obtain ⟨original, member, same⟩ := Layout.exists_source done placed
    have code := Layout.sameCode_of_unplaced same
    have position : original.position = inst.position := (congrArg Instruction.position same :)
    rw [← Bool.not_eq_true, Interval.within_iff] at outside
    refine ⟨original, member, operand, value, code.kind.trans data,
      congrArg some position.symm, code.operand.trans given, evaluated, low, high, inside.1,
      inside.2, ?_⟩
    dsimp only at outside
    omega
  · intro looksBack lo hi position failed
    obtain ⟨measured, inst, done, overshoots, -⟩ := (Layout.run_dataRange_iff _ _ _ _).1 failed
    exact Layout.not_overshoots_of_looksBack realizable looksBack done overshoots

end Sources

/-- Data that look back on the labels between which they count. -/
theorem run_dataOutOfRange_gap : ∃ file,
    SourceFile.parse "gap.asm" "START $00\n@a: NOP\n@b: DATA @b - @a\n" = .ok file ∧
    SourceFile.Realizable [file] (fun name => if name = "a" then 0 else 1) ∧
    LooksBack [] (SourceFile.program [file]) ∧ ∀ lo hi position,
      (Layout.run.apply (.ofFiles [file])).1 ≠ .error ⟨.dataOutOfRange lo hi, position⟩ := by
  have read : ∃ file,
      SourceFile.parse "gap.asm" "START $00\n@a: NOP\n@b: DATA @b - @a\n" = .ok file ∧
      SourceFile.program [file] = [
        { position := ⟨"gap.asm", 2⟩, label := some "a", spelling := "NOP", kind := .nop,
          operand := none },
        { position := ⟨"gap.asm", 3⟩, label := some "b", spelling := "DATA", kind := .data,
          operand := some (.sub (.label "b") (.label "a")) }] := by
    decide +kernel
  obtain ⟨file, parsed, program⟩ := read
  have realizable : SourceFile.Realizable [file] (fun name => if name = "a" then 0 else 1) := by
    rw [SourceFile.Realizable, program]
    refine .cons (.placed (by decide) ?_ (.bare (by decide) rfl rfl))
      (.cons (.placed (by decide) ?_ (.data rfl rfl rfl (by decide) (by decide))) .nil)
    · rintro name ⟨⟩
      rfl
    · rintro name ⟨⟩
      rfl
  have looksBack : LooksBack [] (SourceFile.program [file]) := by
    rw [program]
    refine ⟨fun directive => absurd directive (by decide), fun _ operand given => ?_, trivial⟩
    cases given
    decide
  exact ⟨file, parsed, realizable, looksBack,
    ((run_dataOutOfRange [file]).2 _ realizable).2 looksBack⟩

/-- The same count ahead of its labels: with one byte for the data, `@a` is at 2 and `@b` at 3, but the
first pass by sizes knows them only as 2 to 4 and as 3 to 5, and not how far they are apart. -/
theorem dataOutOfRange_of_realizable : ∃ file,
    SourceFile.parse "gap.asm" "START $00\nDATA @b - @a\nDATA $00\n@a: NOP\n@b: NOP\n" = .ok file ∧
    SourceFile.Realizable [file] (fun name => if name = "a" then 2 else 3) ∧
    (Layout.run.apply (.ofFiles [file])).1 =
      .error ⟨.dataOutOfRange (-1) 3, some ⟨"gap.asm", 2⟩⟩ := by
  have read : ∃ file,
      SourceFile.parse "gap.asm" "START $00\nDATA @b - @a\nDATA $00\n@a: NOP\n@b: NOP\n" = .ok file ∧
      (Layout.run.apply (.ofFiles [file])).1 =
        .error ⟨.dataOutOfRange (-1) 3, some ⟨"gap.asm", 2⟩⟩ ∧
      SourceFile.program [file] = [
        { position := ⟨"gap.asm", 2⟩, label := none, spelling := "DATA", kind := .data,
          operand := some (.sub (.label "b") (.label "a")) },
        { position := ⟨"gap.asm", 3⟩, label := none, spelling := "DATA", kind := .data,
          operand := some (.literal 0) },
        { position := ⟨"gap.asm", 4⟩, label := some "a", spelling := "NOP", kind := .nop,
          operand := none },
        { position := ⟨"gap.asm", 5⟩, label := some "b", spelling := "NOP", kind := .nop,
          operand := none }] := by
    decide +kernel
  obtain ⟨file, parsed, failed, program⟩ := read
  refine ⟨file, parsed, ?_, failed⟩
  rw [SourceFile.Realizable, program]
  refine .cons (.placed (by decide) ?_ (.data rfl rfl rfl (by decide) (by decide)))
    (.cons (.placed (by decide) ?_ (.data rfl rfl rfl (by decide) (by decide)))
    (.cons (.placed (by decide) ?_ (.bare (by decide) rfl rfl))
    (.cons (.placed (by decide) ?_ (.bare (by decide) rfl rfl)) .nil)))
  · rintro name ⟨⟩
  · rintro name ⟨⟩
  · rintro name ⟨⟩
    rfl
  · rintro name ⟨⟩
    rfl

end Micro65
