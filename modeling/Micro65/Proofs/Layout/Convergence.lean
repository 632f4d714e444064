import Micro65.Proofs.Layout.Failures
import Micro65.Proofs.Layout.Shrinking
import Micro65.Proofs.Layout.Stamps

set_option autoImplicit false

/-!
Searches that come to an end. Where no `BASE` line depends on a label, every pass leaves the program in
place for the sizes that it has found. So the search for addresses ends with its second pass, and a
size pass that changes anything has fixed the size of a `DATA` line for good.
-/

namespace Micro65

/-! ### Counting -/

section Counting

variable {α β : Type} {after : α → Bool} {before : β → Bool}

theorem countP_le_of_forall₂ {items : List α} {others : List β}
    (kept : List.Forall₂ (fun item other => after item = true → before other = true) items others) :
    items.countP after ≤ others.countP before := by
  induction kept with
  | nil => exact Nat.le_refl _
  | cons here _ inductionHypothesis =>
    rw [List.countP_cons, List.countP_cons]
    split <;> split <;> grind

/-- A count drops if the property is lost somewhere and gained nowhere. -/
theorem countP_lt_of_forall₂ {items : List α} {others : List β}
    (kept : List.Forall₂ (fun item other => after item = true → before other = true) items others)
    (lost : ¬List.Forall₂ (fun item other => before other = true → after item = true) items others) :
    items.countP after < others.countP before := by
  induction kept with
  | nil => exact absurd .nil lost
  | @cons item other _ _ here rest inductionHypothesis =>
    rw [List.countP_cons, List.countP_cons]
    by_cases same : before other = true → after item = true
    · have fewer := inductionHypothesis fun all => lost (.cons same all)
      split <;> split <;> grind
    · have fewer := countP_le_of_forall₂ rest
      rw [Classical.not_imp] at same
      rw [if_pos same.1, if_neg same.2]
      omega

end Counting

namespace Layout

variable {layout after : Layout}

/-- If passes that change something lower a bound on how often that can happen, a search finishes
within one pass more than the bound. -/
theorem repeatPass_bounded {step : Step} (decides : step.Avoids AsmError.isDivergence) (Bounded : Nat → Layout → Prop)
    (lower : ∀ {bound layout after}, Bounded bound layout →
      (pass step).apply layout = (.ok true, after) → ∃ less, less < bound ∧ Bounded less after)
    {limit remaining bound : Nat} (bounded : Bounded bound layout) (room : bound < remaining)
    (fits : remaining ≤ limit) :
    (repeatPass step limit remaining).Decides layout ∧
      ∀ count after, (repeatPass step limit remaining).apply layout = (.ok count, after) →
        count + remaining ≤ limit + bound + 1 := by
  -- The bound falls with the passes that remain, so it never outgrows them.
  induction remaining generalizing bound layout with
  | zero => omega
  | succ remaining inductionHypothesis =>
    rw [repeatPass]
    constructor
    · refine (avoids_pass layout decides).bind fun changed middle once => ?_
      cases changed with
      | false => exact Stage.avoids_of_ok (Stage.apply_pure _ _)
      | true =>
        obtain ⟨less, fewer, bounded⟩ := lower bounded once
        exact (inductionHypothesis bounded (by omega) (by omega)).1
    · intro count after done
      obtain ⟨changed, middle, once, done⟩ := (Stage.bind_eq_ok_iff _ _ _ _ _).1 done
      cases changed with
      | false =>
        simp only [Bool.false_eq_true, if_false, Stage.apply_pure, Prod.mk.injEq,
          Except.ok.injEq] at done
        omega
      | true =>
        obtain ⟨less, fewer, bounded⟩ := lower bounded once
        have counted := (inductionHypothesis bounded (by omega) (by omega)).2 count after done
        omega

theorem fixpoint_bounded {step : Step} (decides : step.Avoids AsmError.isDivergence) (Bounded : Nat → Layout → Prop)
    (lower : ∀ {bound layout after}, Bounded bound layout →
      (pass step).apply layout = (.ok true, after) → ∃ less, less < bound ∧ Bounded less after)
    {bound : Nat} (bounded : Bounded bound layout) (room : bound < layout.passLimit) :
    (fixpoint step).Decides layout ∧
      ∀ count after, (fixpoint step).apply layout = (.ok count, after) → count ≤ bound + 1 := by
  have search : (fixpoint step).apply layout =
      (repeatPass step layout.passLimit layout.passLimit).apply layout := by
    rw [fixpoint, Stage.apply_bind, Stage.apply_get]
  obtain ⟨decided, counted⟩ :=
    repeatPass_bounded decides Bounded lower bounded room (Nat.le_refl _)
  constructor
  · unfold Stage.Decides Stage.Avoids
    rw [search]
    exact decided
  · intro count after done
    rw [search] at done
    have := counted count after done
    omega

/-- A layout whose labels each stand in front of one instruction, and none in the operand of a `BASE`
line. -/
structure Independent (layout : Layout) : Prop where
  distinct : layout.labels.Distinct
  names : layout.labels.names = layout.program.filterMap Instruction.label
  anchored : ∀ inst ∈ layout.program, inst.Anchored

namespace Independent

theorem named (independent : layout.Independent) :
    ∀ inst ∈ layout.program, inst.Named layout.labels.names := by
  intro inst member name label
  rw [independent.names]
  exact List.mem_filterMap.2 ⟨inst, member, label⟩

theorem keeps (independent : layout.Independent) (keeps : layout.Keeps after) :
    after.Independent := by
  refine ⟨keeps.distinct independent.distinct, ?_, ?_⟩
  · have labels : ∀ program : List Instruction,
        program.filterMap Instruction.label =
          (program.map unplaced).filterMap Instruction.label := by
      intro program
      rw [List.filterMap_map]
      rfl
    rw [keeps.names, independent.names, labels, ← keeps.code, ← labels]
  · exact forall_of_code keeps.code Iff.rfl independent.anchored

theorem placed {step : Step} {Allowed : Instruction → Prop} (independent : layout.Independent)
    (walks : step.Walks) (strides : step.Strides Allowed)
    (allowed : ∀ inst ∈ layout.program, Allowed inst) {changed : Bool}
    (once : (pass step).apply layout = (.ok changed, after)) :
    Placed after.labels (.point 0) after.program := by
  obtain ⟨walk, program, swept, -, rfl⟩ := (pass_eq_ok_iff _ _ _ _).1 once
  refine swept.placed walks strides allowed independent.anchored independent.named ?_
  rw [← independent.names]
  exact independent.distinct

end Independent

/-! ### The search for addresses -/

theorem addressPass_of_placed (distinct : layout.labels.Distinct)
    (placed : Placed layout.labels (.point 0) layout.program) {changed : Bool}
    (once : (pass addressStep).apply layout = (.ok changed, after)) : changed = false := by
  obtain ⟨cursor, swept⟩ := placed.addressPass distinct
  have again : (pass addressStep).apply layout =
      (.ok false, layout.passed layout.labels layout.program) :=
    (pass_eq_ok_iff _ _ _ _).2 ⟨_, _, swept, rfl, rfl⟩
  rw [again, Prod.mk.injEq, Except.ok.injEq] at once
  exact once.1.symm

/-- So many address passes can still change something. -/
structure AddressRoom (bound : Nat) (layout : Layout) : Prop where
  independent : layout.Independent
  proper : layout.labels.Proper
  opened : ∀ inst ∈ layout.program, inst.Open
  placed : bound = 0 → Placed layout.labels (.point 0) layout.program

/-- The search for addresses takes one pass to put everything in place, and one to notice it. -/
theorem addressFixpoint_bounded (independent : layout.Independent) (proper : layout.labels.Proper)
    (opened : ∀ inst ∈ layout.program, inst.Open) :
    (fixpoint addressStep).Decides layout ∧
      ∀ count after, (fixpoint addressStep).apply layout = (.ok count, after) → count ≤ 2 := by
  have room : AddressRoom 1 layout := ⟨independent, proper, opened, by simp⟩
  refine fixpoint_bounded
    (fun failed => AsmError.isDivergence_of_ofSearch (addressStep_plain failed)) AddressRoom ?_ room (by unfold passLimit; omega)
  intro bound layout after room once
  obtain ⟨keeps, proper, opened⟩ := addressPass_keeps room.proper room.opened once
  have placed := room.independent.placed addressStep_walks addressStep_strides
    (fun _ _ => trivial) once
  refine ⟨0, ?_, room.independent.keeps keeps, proper, opened, fun _ => placed⟩
  by_contra full
  have still := addressPass_of_placed room.independent.distinct (room.placed (by omega)) once
  contradiction

end Layout

/-! ### The search for sizes -/

section SizePass

variable {walk walk' : Walk} {inst inst' : Instruction} {program program' rest : List Instruction}

/-- A size pass notices nothing on a line in its place if it leaves its sizes as they are. -/
theorem sizeStep_rests (distinct : walk.labels.Distinct)
    (placed : Placed walk.labels walk.cursor (inst :: rest)) (sized : inst.Sized)
    (unchanged : walk.changed = false) (same : inst'.sizeRange = inst.sizeRange)
    (done : sizeStep walk inst = (walk', inst', none)) :
    walk'.changed = false ∧ walk'.labels = walk.labels ∧
      Placed walk'.labels walk'.cursor rest := by
  obtain ⟨labels, cursor, changed⟩ := walk
  dsimp only at distinct placed unchanged
  subst unchanged
  cases placed with
  | base kind given evaluated placed =>
    rcases sizeStep_cases done with ⟨-, operand, range, given', evaluated', rfl, -⟩ | ⟨data, -⟩ |
      ⟨notBase, -⟩
    · rw [given, Option.some.injEq] at given'
      subst given'
      rw [evaluated, Except.ok.injEq] at evaluated'
      subst evaluated'
      exact ⟨by simp, rfl, placed⟩
    · rw [kind] at data
      contradiction
    · exact absurd kind notBase
  | placed kind labelled placed =>
    have still := Walk.place_eq_self ⟨labels, inst.addressRange, false⟩ distinct rfl labelled
    rcases sizeStep_cases done with ⟨base, -⟩ | ⟨data, sizeRange, -, rfl, rfl⟩ |
      ⟨notBase, notData, rfl, -⟩
    · exact absurd base kind
    · dsimp only at same
      subst same
      rw [still]
      exact ⟨by simp [Walk.mark, Walk.advance], rfl, placed⟩
    · rw [still, ← sized.width notBase notData]
      exact ⟨rfl, rfl, placed⟩

theorem sizePass_rests (swept : Sweeps sizeStep walk program walk' program')
    (distinct : walk.labels.Distinct) (placed : Placed walk.labels walk.cursor program)
    (sized : ∀ inst ∈ program, inst.Sized) (unchanged : walk.changed = false)
    (same : List.Forall₂ (fun inst inst' : Instruction => inst'.sizeRange = inst.sizeRange) program
      program') : walk'.changed = false := by
  induction swept with
  | nil => exact unchanged
  | cons first _ inductionHypothesis =>
    rw [List.forall_mem_cons] at sized
    cases same with
    | cons here others =>
      obtain ⟨still, labels, placed⟩ :=
        sizeStep_rests distinct placed sized.1 unchanged here first
      exact inductionHypothesis (labels ▸ distinct) placed sized.2 still others

end SizePass

namespace Instruction

variable {inst inst' : Instruction}

/-- A `DATA` line that can still have one byte or two. -/
def unsized (inst : Instruction) : Bool := inst.kind = .data && !inst.sizeRange.isPoint

/-- The sizes are some of those that a `DATA` line can have. -/
def Sizable (inst : Instruction) : Prop :=
  inst.kind = .data → inst.sizeRange.Inside ⟨1, 2⟩ ∧ inst.sizeRange.Proper

theorem Shrunk.unsized (shrunk : inst'.Shrunk inst) (sizable : inst'.Sizable)
    (unsized : inst'.unsized = true) : inst.unsized = true := by
  simp only [Instruction.unsized, Bool.and_eq_true, decide_eq_true_eq, Bool.not_eq_true',
    Interval.isPoint, beq_eq_false_iff_ne] at unsized ⊢
  have inside := shrunk.sizes unsized.1
  have proper := (sizable unsized.1).2
  unfold Interval.Inside at inside
  unfold Interval.Proper at proper
  refine ⟨shrunk.kind ▸ unsized.1, ?_⟩
  omega

/-- A `DATA` line that was not fixed has kept its sizes. -/
theorem Shrunk.sizeRange_eq (shrunk : inst'.Shrunk inst) (data : inst'.kind = .data)
    (sizable' : inst'.Sizable) (sizable : inst.Sizable)
    (still : inst.unsized = true → inst'.unsized = true) : inst'.sizeRange = inst.sizeRange := by
  have data' : inst.kind = .data := shrunk.kind ▸ data
  have inside := shrunk.sizes data
  obtain ⟨-, proper⟩ := sizable' data
  obtain ⟨bounded, -⟩ := sizable data'
  simp only [Instruction.unsized, data, data', decide_true, Bool.true_and, Bool.not_eq_true',
    Interval.isPoint, beq_eq_false_iff_ne] at still
  unfold Interval.Inside at inside bounded
  unfold Interval.Proper at proper
  generalize inst'.sizeRange = sizes' at *
  generalize inst.sizeRange = sizes at *
  obtain ⟨lo', hi'⟩ := sizes'
  obtain ⟨lo, hi⟩ := sizes
  rw [Interval.mk.injEq]
  dsimp only at *
  omega

end Instruction

namespace Layout

variable {layout before after first measured : Layout} {changed : Bool}

/-- What a complete size pass leaves: everything in place for the sizes that it has found. -/
structure Rested (layout : Layout) : Prop where
  placed : Placed layout.labels (.point 0) layout.program
  sizable : ∀ inst ∈ layout.program, inst.Sizable

theorem sizePass_rested (independent : before.Independent) (narrowed : first.Narrowed before)
    (once : (pass sizeStep).apply before = (.ok changed, after)) : after.Rested := by
  refine ⟨independent.placed sizeStep_walks sizeStep_strides
    (fun inst member => (narrowed.resolved inst member).sized) once, ?_⟩
  obtain ⟨walk, program, swept, -, rfl⟩ := (pass_eq_ok_iff _ _ _ _).1 once
  obtain ⟨-, became⟩ := swept.invariant (Walk.Sound before.labels.names)
    (fun _ inst' => inst'.Sizable)
    (fun {walk walk' inst inst'} sound _ done => by
      obtain ⟨sound', moved⟩ := sizeStep_keeps sound done
      refine ⟨sound', fun data => ?_⟩
      obtain ⟨width, -, needed, -⟩ := sizeStep_moves done
      rw [moved.rest] at data
      obtain ⟨found, same⟩ := needed data
      rw [same]
      exact ⟨Instruction.dataSize_inside found,
        inst.proper_dataSize (sound.labels.stamp _ sound.cursor) found⟩)
    ⟨rfl, narrowed.proper, Interval.proper_point 0⟩ fun _ _ => trivial
  exact forall_of_forall₂ became id

/-- A size pass that changes a program in its place fixes the size of a `DATA` line. -/
theorem sizePass_fixes (independent : before.Independent) (narrowed : first.Narrowed before)
    (rested : before.Rested) (narrower : after.Narrower before)
    (once : (pass sizeStep).apply before = (.ok true, after)) :
    after.program.countP Instruction.unsized < before.program.countP Instruction.unsized := by
  have rested' := sizePass_rested independent narrowed once
  have shrunk : List.Forall₂ (fun inst' inst : Instruction => inst'.Sizable ∧ inst.Sizable ∧
      inst'.Shrunk inst) after.program before.program := by
    refine (List.forall₂_and_left ..).2 ⟨rested'.sizable, List.Forall₂.flip ?_⟩
    exact (List.forall₂_and_left ..).2 ⟨rested.sizable, narrower.program.flip⟩
  refine countP_lt_of_forall₂
    (shrunk.imp fun _ _ ⟨sizable, _, shrunk⟩ => shrunk.unsized sizable) fun still => ?_
  obtain ⟨walk, program, swept, noticed, rfl⟩ := (pass_eq_ok_iff _ _ _ _).1 once
  have moved := swept.became Instruction.Moved sizeStep_moved
  have same : List.Forall₂ (fun inst inst' : Instruction => inst'.sizeRange = inst.sizeRange)
      before.program program := by
    have fixed : List.Forall₂ (fun inst inst' : Instruction => inst.Moved inst' →
        inst'.sizeRange = inst.sizeRange) before.program program := by
      refine List.Forall₂.mp ?_ shrunk.flip still.flip
      rintro inst inst' ⟨sizable', sizable, shrunk⟩ still moved
      by_cases data : inst'.kind = .data
      · exact shrunk.sizeRange_eq data sizable' sizable still
      · exact (moved.size (shrunk.kind ▸ data)).1
    exact List.Forall₂.mp (fun _ _ moved fixed => fixed moved) moved fixed
  have unnoticed := sizePass_rests swept independent.distinct rested.placed
    (fun inst member => (narrowed.resolved inst member).sized) rfl same
  rw [unnoticed] at noticed
  contradiction

def dataLines (program : List Instruction) : Nat := program.countP (·.kind = .data)

theorem dataLines_map_unplaced (program : List Instruction) :
    dataLines (program.map unplaced) = dataLines program := by
  unfold dataLines
  rw [List.countP_map]
  rfl

theorem dataLines_of_code {program program' : List Instruction}
    (same : program'.map unplaced = program.map unplaced) :
    dataLines program' = dataLines program := by
  rw [← dataLines_map_unplaced program', same, dataLines_map_unplaced]

theorem unsized_le_dataLines (program : List Instruction) :
    program.countP Instruction.unsized ≤ dataLines program := by
  refine List.countP_mono_left fun inst _ unsized => ?_
  simp only [Instruction.unsized, Bool.and_eq_true] at unsized
  exact unsized.1

/-- So many size passes can still change something. -/
structure SizeRoom (first measured : Layout) (bound : Nat) (layout : Layout) : Prop where
  narrowed : first.Narrowed layout
  passes : ∃ count, Passes sizeStep measured count layout
  room : dataLines first.program < bound ∨
    layout.Rested ∧ layout.program.countP Instruction.unsized ≤ bound

theorem SizeRoom.next {bound : Nat} (known : first.Measured measured)
    (independent : first.Independent) (room : SizeRoom first measured bound before)
    (once : (pass sizeStep).apply before = (.ok true, after)) :
    ∃ less, less < bound ∧ SizeRoom first measured less after := by
  obtain ⟨count, passes⟩ := room.passes
  obtain ⟨narrower, narrowed⟩ := known.narrower passes once
  have independentBefore := independent.keeps room.narrowed.keeps
  have rested := sizePass_rested independentBefore room.narrowed once
  refine ⟨after.program.countP Instruction.unsized, ?_, narrowed, ⟨_, passes.next once⟩,
    .inr ⟨rested, Nat.le_refl _⟩⟩
  -- Before the first pass nothing is in place, so that pass may change something and fix nothing.
  rcases room.room with fewer | ⟨restedBefore, fewer⟩
  · have lines := unsized_le_dataLines after.program
    rw [dataLines_of_code narrowed.keeps.code] at lines
    omega
  · have fixed := sizePass_fixes independentBefore room.narrowed restedBefore narrower once
    omega

/-- The search for sizes takes one pass to put everything in place, one to fix each `DATA` line at
worst, and one to notice that nothing changes any more. -/
theorem sizeFixpoint_bounded (known : first.Measured measured) (independent : first.Independent) :
    (fixpoint sizeStep).Decides measured ∧
      ∀ count after, (fixpoint sizeStep).apply measured = (.ok count, after) →
        count ≤ dataLines first.program + 2 := by
  have room : SizeRoom first measured (dataLines first.program + 1) measured :=
    ⟨known.narrowed, ⟨0, .none⟩, .inl (Nat.lt_succ_self _)⟩
  refine fixpoint_bounded sizeStep_decides (SizeRoom first measured)
    (fun room once => room.next known independent once) room ?_
  have lines : dataLines first.program ≤ measured.program.length := by
    rw [← dataLines_of_code known.narrowed.keeps.code]
    exact List.countP_le_length
  unfold passLimit
  omega

/-! ### The whole run -/

theorem Discovered.independent {found : Layout} (discovered : layout.Discovered found)
    (anchored : ∀ inst ∈ layout.program, inst.Anchored) : found.Independent := by
  refine ⟨discovered.distinct, discovered.names, ?_⟩
  rw [discovered.program]
  intro inst member
  obtain ⟨original, kept, rfl⟩ := List.mem_map.1 member
  exact anchored original (List.mem_filter.1 kept).1

theorem Discovered.dataLines {found : Layout} (discovered : layout.Discovered found) :
    dataLines found.program = dataLines layout.program := by
  rw [discovered.program, dataLines_map_unplaced]
  unfold Layout.dataLines
  rw [List.countP_filter]
  congr 1
  funext inst
  by_cases data : inst.kind = .data <;> simp [data]

/-- A run that diverges does so in one of its searches. -/
theorem run_decides
    (addresses : ∀ found, discover.apply layout = (.ok (), found) →
      (fixpoint addressStep).Decides found)
    (sizes : ∀ measured, measure.apply layout = (.ok (), measured) →
      (fixpoint sizeStep).Decides measured) : run.Decides layout :=
  run_avoids AsmError.isDivergence_of_ofSearch layout addresses sizes

/-- Where no `BASE` line depends on a label, a layout never diverges: the search for addresses takes
at most two passes, the search for sizes at most two more than there are `DATA` lines. -/
theorem run_converges (layout : Layout)
    (anchored : ∀ inst ∈ layout.program, inst.kind = .base → ∀ operand,
      inst.operand = some operand → operand.labels = []) :
    (∀ passes position, (run.apply layout).1 ≠ .error ⟨.layoutDiverged passes, position⟩) ∧
    (∀ found count after, discover.apply layout = (.ok (), found) →
      (fixpoint addressStep).apply found = (.ok count, after) → count ≤ 2) ∧
    (∀ measured count after, measure.apply layout = (.ok (), measured) →
      (fixpoint sizeStep).apply measured = (.ok count, after) →
        count ≤ layout.program.countP (·.kind = .data) + 2) := by
  have addresses : ∀ found, discover.apply layout = (.ok (), found) →
      (fixpoint addressStep).Decides found ∧
        ∀ count after, (fixpoint addressStep).apply found = (.ok count, after) → count ≤ 2 := by
    intro found discovered
    have known := discover_discovered discovered
    exact addressFixpoint_bounded (known.independent anchored) known.unknown.proper known.opened
  have sizes : ∀ measured, measure.apply layout = (.ok (), measured) →
      (fixpoint sizeStep).Decides measured ∧
        ∀ count after, (fixpoint sizeStep).apply measured = (.ok count, after) →
          count ≤ dataLines layout.program + 2 := by
    intro measured done
    obtain ⟨found, first, discovered, keeps, known⟩ := measure_measured done
    have discovered := discover_discovered discovered
    rw [← discovered.dataLines, ← dataLines_of_code keeps.code]
    exact sizeFixpoint_bounded known ((discovered.independent anchored).keeps keeps)
  refine ⟨fun passes position failed => ?_, fun found count after discovered done =>
    (addresses found discovered).2 count after done, fun measured count after done searched =>
    (sizes measured done).2 count after searched⟩
  have decides : run.Decides layout :=
    run_decides (fun found discovered => (addresses found discovered).1)
      fun measured done => (sizes measured done).1
  have impossible := decides _ failed
  contradiction

/-- The bound is reached: the data are known to need two bytes only after the pass that knows the size
of the instruction behind them. -/
theorem run_converges_straddle : ∃ file found first measured sized,
    SourceFile.parse "straddle.asm"
      "START @main\nBASE $FC\n@main: DATA @end\nLDX #$1234\n@end: NOP\n" = .ok file ∧
    discover.apply (.ofFiles [file]) = (.ok (), found) ∧
    (fixpoint addressStep).apply found = (.ok 2, first) ∧
    measure.apply (.ofFiles [file]) = (.ok (), measured) ∧
    (fixpoint sizeStep).apply measured = (.ok 3, sized) ∧
    3 ≤ (ofFiles [file]).program.countP (·.kind = .data) + 2 ∧
    ∀ passes position, (run.apply (.ofFiles [file])).1 ≠ .error ⟨.layoutDiverged passes, position⟩ := by
  have ran : ∃ file,
      SourceFile.parse "straddle.asm"
        "START @main\nBASE $FC\n@main: DATA @end\nLDX #$1234\n@end: NOP\n" = .ok file ∧
      (∀ inst ∈ (ofFiles [file]).program, inst.kind = .base → ∀ operand ∈ inst.operand,
        operand.labels = []) ∧
      (∃ found, discover.apply (.ofFiles [file]) = (.ok (), found) ∧
        ∃ first, (fixpoint addressStep).apply found = (.ok 2, first)) ∧
      ∃ measured, measure.apply (.ofFiles [file]) = (.ok (), measured) ∧
        ∃ sized, (fixpoint sizeStep).apply measured = (.ok 3, sized) := by
    decide +kernel
  obtain ⟨file, parsed, anchored, ⟨found, discovered, first, addresses⟩, measured, done, sized,
    sizes⟩ := ran
  obtain ⟨decides, -, bound⟩ := run_converges (.ofFiles [file]) anchored
  exact ⟨file, found, first, measured, sized, parsed, discovered, addresses, done, sizes,
    bound measured 3 sized done sizes, decides⟩

end Layout
end Micro65
