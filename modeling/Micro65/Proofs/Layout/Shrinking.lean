import Micro65.Proofs.Layout.Searches

set_option autoImplicit false

/-!
Passes only narrow. Two passes walked side by side differ no more than the tables and the widths that
they read, so what one pass has narrowed, the next one narrows everywhere. The search for sizes starts
inside the solution of the search for addresses, which is at rest; the search for addresses starts from
the whole address space, and narrows from then on if its first pass stays in there.
-/

namespace Micro65

/-- The same code, with no more sizes and exactly the size that the other has. -/
structure Instruction.Alike (inst other : Instruction) : Prop extends inst.SameCode other where
  size : inst.kind ≠ .data → inst.size = other.size
  sizes : inst.sizeRange.Inside other.sizeRange

variable {walk walk' outer outer' : Walk} {inst inst' other other' : Instruction}

/-- Under a table that knows more, a `DATA` line needs no sizes that it did not need before. -/
theorem Instruction.dataSize_narrows {labels labels' : Labels} {sizes sizes' : Interval}
    (within : labels.Within labels') (proper : labels.Proper)
    (operand : inst.operand = other.operand) (found : inst.dataSize labels = .ok sizes)
    (found' : other.dataSize labels' = .ok sizes') : sizes.Inside sizes' := by
  obtain ⟨target, value, given, evaluated, -, rfl⟩ := (inst.dataSize_eq_ok_iff _ _).1 found
  obtain ⟨target', value', given', evaluated', -, rfl⟩ := (other.dataSize_eq_ok_iff _ _).1 found'
  rw [operand, given', Option.some.injEq] at given
  subst given
  have inside := Expr.range_inside within proper evaluated evaluated'
  exact ⟨dataWidth_mono inside.1, dataWidth_mono inside.2⟩

theorem addressStep_alike (done : addressStep walk inst = (walk', inst', none)) :
    inst'.Alike inst := by
  rw [addressStep_moved done]
  exact ⟨⟨rfl, rfl, rfl⟩, fun _ => rfl, Interval.inside_refl _⟩

/-- A pass by sizes changes no size but that of a `DATA` line. -/
theorem Instruction.Moved.alike (moved : inst.Moved inst') (shrunk : inst'.Shrunk inst) :
    inst'.Alike inst := by
  refine ⟨⟨shrunk.kind, by rw [moved.rest], by rw [moved.rest]⟩, fun notData => ?_, ?_⟩
  · exact (moved.size (shrunk.kind ▸ notData)).2
  · by_cases data : inst'.kind = .data
    · exact shrunk.sizes data
    · rw [(moved.size (shrunk.kind ▸ data)).1]
      exact Interval.inside_refl _

theorem addressStep_narrows (within : walk.Within outer) (proper : walk.labels.Proper)
    (alike : inst.Alike other) (done : addressStep walk inst = (walk', inst', none))
    (done' : addressStep outer other = (outer', other', none)) :
    walk'.Within outer' ∧ inst'.Shrunk other' := by
  obtain ⟨within', addresses⟩ := within.moves proper alike.toSameCode (addressStep_moves done)
    (addressStep_moves done') fun _ => alike.sizes
  refine ⟨within', ?_, addresses, fun _ => ?_⟩
  · rw [addressStep_moved done, addressStep_moved done']
    exact alike.kind
  · rw [addressStep_moved done, addressStep_moved done']
    exact alike.sizes

theorem sizeStep_narrows {names : List String} (within : walk.Within outer) (sound : walk.Sound names)
    (alike : inst.Alike other) (done : sizeStep walk inst = (walk', inst', none))
    (done' : sizeStep outer other = (outer', other', none)) :
    walk'.Within outer' ∧ inst'.Shrunk other' := by
  obtain ⟨width, moves, data, exactly⟩ := sizeStep_moves done
  obtain ⟨width', moves', data', exactly'⟩ := sizeStep_moves done'
  have needed : inst.kind = .data → width.Inside width' := by
    intro kind
    have stamped := within.labels.stamp inst.label within.cursor
    refine Instruction.dataSize_narrows stamped (sound.labels.stamp _ sound.cursor) alike.operand
      (data kind).1 ?_
    rw [alike.label]
    exact (data' (alike.kind ▸ kind)).1
  obtain ⟨within', addresses⟩ := within.moves sound.labels alike.toSameCode moves moves' <| by
    intro notBase
    by_cases kind : inst.kind = .data
    · exact needed kind
    · rw [exactly kind notBase, exactly' (alike.kind ▸ kind) (alike.kind ▸ notBase), alike.size kind]
      exact Interval.inside_refl _
  have same : inst'.kind = inst.kind := by rw [(sizeStep_moved done).rest]
  refine ⟨within', ?_, addresses, fun kind => ?_⟩
  · rw [same, (sizeStep_moved done').rest]
    exact alike.kind
  · rw [same] at kind
    rw [(data kind).2, (data' (alike.kind ▸ kind)).2]
    exact needed kind

namespace Layout

/-- Nothing is wider than it was before: no label, no address and no `DATA` line. -/
structure Narrower (after before : Layout) : Prop where
  labels : after.labels.Within before.labels
  program : List.Forall₂ Instruction.Shrunk after.program before.program

variable {layout before middle after : Layout} {changed changed' : Bool}

/-! ### The search for addresses -/

/-- Two address passes in a row: what the first has narrowed, the second narrows everywhere. -/
theorem addressPass_narrower (proper : before.labels.Proper)
    (opened : ∀ inst ∈ before.program, inst.Open)
    (once : (pass addressStep).apply before = (.ok changed, middle))
    (within : middle.labels.Within before.labels)
    (again : (pass addressStep).apply middle = (.ok changed', after)) : after.Narrower middle := by
  obtain ⟨-, proper', opened'⟩ := addressPass_keeps proper opened once
  obtain ⟨walk, program, swept, -, rfl⟩ := (pass_eq_ok_iff _ _ _ _).1 once
  obtain ⟨walk', program', swept', -, rfl⟩ := (pass_eq_ok_iff _ _ _ _).1 again
  have alike := swept.became (fun inst inst' => inst'.Alike inst) addressStep_alike
  have openAlike : List.Forall₂ (fun inst other : Instruction => inst.Open ∧ inst.Alike other)
      program before.program :=
    (List.forall₂_and_left ..).2 ⟨opened', alike.flip⟩
  obtain ⟨⟨-, within'⟩, shrunk⟩ := swept'.related
    (fun walk outer => walk.Sound walk.labels.names ∧ walk.Within outer)
    (fun inst other => inst.Open ∧ inst.Alike other) Instruction.Shrunk
    (fun ⟨sound, within⟩ ⟨opened, alike⟩ done done' => by
      obtain ⟨within', shrunk⟩ := addressStep_narrows within sound.labels alike done done'
      have sound' := addressStep_sound sound opened.proper done
      exact ⟨⟨⟨rfl, sound'.labels, sound'.cursor⟩, within'⟩, shrunk⟩)
    swept ⟨⟨rfl, proper', Interval.proper_point 0⟩, within, Interval.inside_refl _⟩ openAlike
  exact ⟨within'.labels, shrunk⟩

/-- If the first pass stays in the address space, where discovery puts every label, it narrows. -/
theorem addressPass_within {found first : Layout} (unknown : found.labels.Unknown)
    (opened : ∀ inst ∈ found.program, inst.Open)
    (once : (pass addressStep).apply found = (.ok changed, first))
    (inside : ∀ label ∈ first.labels.toList, label.range.Inside .unknown) :
    first.labels.Within found.labels := by
  obtain ⟨keeps, -⟩ := addressPass_keeps unknown.proper opened once
  refine Labels.within_of_names keeps.names fun name range range' held held' => ?_
  obtain ⟨label, member, rfl⟩ := Labels.exists_of_get? held
  rw [unknown name range' held']
  exact inside label member

/-! ### The search for sizes -/

/-- Two size passes in a row: what the first has narrowed, the second narrows everywhere. -/
theorem sizePass_narrower (proper : middle.labels.Proper)
    (once : (pass sizeStep).apply before = (.ok changed, middle)) (narrower : middle.Narrower before)
    (again : (pass sizeStep).apply middle = (.ok changed', after)) : after.Narrower middle := by
  obtain ⟨walk, program, swept, -, rfl⟩ := (pass_eq_ok_iff _ _ _ _).1 once
  obtain ⟨walk', program', swept', -, rfl⟩ := (pass_eq_ok_iff _ _ _ _).1 again
  have moved := swept.became Instruction.Moved sizeStep_moved
  have alike : List.Forall₂ Instruction.Alike program before.program :=
    List.Forall₂.mp (fun _ _ moved shrunk => moved.alike shrunk) moved.flip narrower.program
  obtain ⟨⟨-, within'⟩, shrunk⟩ := swept'.related
    (fun walk outer => walk.Sound walk.labels.names ∧ walk.Within outer) Instruction.Alike
    Instruction.Shrunk
    (fun ⟨sound, within⟩ alike done done' => by
      obtain ⟨within', shrunk⟩ := sizeStep_narrows within sound alike done done'
      have sound' := (sizeStep_keeps sound done).1
      exact ⟨⟨⟨rfl, sound'.labels, sound'.cursor⟩, within'⟩, shrunk⟩)
    swept ⟨⟨rfl, proper, Interval.proper_point 0⟩, narrower.labels, Interval.inside_refl _⟩ alike
  exact ⟨within'.labels, shrunk⟩

/-- The first size pass narrows what the search for addresses has found: walked beside one more
address pass, which leaves the solution at rest, it stays inside. -/
theorem Measured.sizePass {first measured : Layout} (known : first.Measured measured)
    (once : (pass sizeStep).apply measured = (.ok changed, after)) : after.Narrower measured := by
  obtain ⟨walk, program, swept, -, rfl⟩ := (pass_eq_ok_iff _ _ _ _).1 once
  obtain ⟨cursor, beside⟩ := known.placed.addressPass known.distinct
  obtain ⟨within, shrunk⟩ := sizePass_within swept beside
    ⟨rfl, known.narrowed.proper, Interval.proper_point 0⟩
    ⟨known.narrowed.within, Interval.inside_refl _⟩ known.narrowed.refines
  refine ⟨?_, forall₂_trans (fun both wider => both.2.trans wider) shrunk known.shrunk⟩
  rw [known.labels]
  exact within.labels

/-- Every size pass narrows, and stays within the solution of the search for addresses. -/
theorem Measured.narrower {first measured : Layout} (known : first.Measured measured) {count : Nat}
    (passes : Passes sizeStep measured count before)
    (once : (pass sizeStep).apply before = (.ok changed, after)) :
    after.Narrower before ∧ first.Narrowed after :=
  passes.pairs (fun after before => after.Narrower before ∧ first.Narrowed after)
    (fun once => ⟨known.sizePass once,
      sizePass_narrowed known.distinct known.placed known.narrowed once⟩)
    (fun once ⟨narrower, narrowed⟩ again => ⟨sizePass_narrower narrowed.proper once narrower again,
      sizePass_narrowed known.distinct known.placed narrowed again⟩)
    once

/-- Each pass of a run only narrows: in the search for sizes every one, in the search for addresses
every one after the first, if that has left every label in the address space. -/
theorem passes_narrow (layout : Layout) :
    (∀ measured, measure.apply layout = (.ok (), measured) →
      ∀ count before after changed, Passes sizeStep measured count before →
        (pass sizeStep).apply before = (.ok changed, after) → after.Narrower before) ∧
    (∀ found first started, discover.apply layout = (.ok (), found) →
      (pass addressStep).apply found = (.ok started, first) →
      (∀ label ∈ first.labels.toList, label.range.Inside .unknown) →
      ∀ count before after changed, Passes addressStep first count before →
        (pass addressStep).apply before = (.ok changed, after) → after.Narrower before) := by
  constructor
  · intro measured done count before after changed passes once
    obtain ⟨-, first, -, -, known⟩ := measure_measured done
    exact (known.narrower passes once).1
  · intro found first started discovered initial inside count before after changed passes once
    have known := discover_discovered discovered
    have within := addressPass_within known.unknown known.opened initial inside
    have pairs := passes.pairs
      (fun after before => after.Narrower before ∧ before.labels.Proper ∧
        ∀ inst ∈ before.program, inst.Open)
      (fun once => by
        obtain ⟨-, kept⟩ := addressPass_keeps known.unknown.proper known.opened initial
        exact ⟨addressPass_narrower known.unknown.proper known.opened initial within once, kept⟩)
      (fun once ⟨narrower, proper, opened⟩ again => by
        obtain ⟨-, kept⟩ := addressPass_keeps proper opened once
        exact ⟨addressPass_narrower proper opened once narrower.labels again, kept⟩)
      once
    exact pairs.1

/-- The second address pass narrows the label before the `BASE` line that looks ahead, the first size
pass the line of data. -/
theorem passes_narrow_ahead : ∃ file found first second measured next,
    SourceFile.parse "ahead.asm"
      "START @main\nBASE @late\n@main: DATA @main\nBASE $0300\n@late: NOP\n" = .ok file ∧
    discover.apply (.ofFiles [file]) = (.ok (), found) ∧
    (pass addressStep).apply found = (.ok true, first) ∧
    (∀ label ∈ first.labels.toList, label.range.Inside .unknown) ∧
    (pass addressStep).apply first = (.ok true, second) ∧ second.Narrower first ∧
    measure.apply (.ofFiles [file]) = (.ok (), measured) ∧
    (pass sizeStep).apply measured = (.ok true, next) ∧ next.Narrower measured := by
  have ran : ∃ file,
      SourceFile.parse "ahead.asm"
        "START @main\nBASE @late\n@main: DATA @main\nBASE $0300\n@late: NOP\n" = .ok file ∧
      (∃ found, discover.apply (.ofFiles [file]) = (.ok (), found) ∧
        ∃ first, (pass addressStep).apply found = (.ok true, first) ∧
          (∀ label ∈ first.labels.toList, label.range.Inside .unknown) ∧
          ∃ second, (pass addressStep).apply first = (.ok true, second)) ∧
      ∃ measured, measure.apply (.ofFiles [file]) = (.ok (), measured) ∧
        ∃ next, (pass sizeStep).apply measured = (.ok true, next) := by
    decide +kernel
  obtain ⟨file, parsed, ⟨found, discovered, first, initial, inside, second, again⟩, measured, done,
    next, once⟩ := ran
  obtain ⟨sizes, addresses⟩ := passes_narrow (.ofFiles [file])
  exact ⟨file, found, first, second, measured, next, parsed, discovered, initial, inside, again,
    addresses found first true discovered initial inside 0 first second true .none again, done, once,
    sizes measured done 0 measured next true .none once⟩

end Layout
end Micro65
