import Micro65.Proofs.Layout.Settled

set_option autoImplicit false

/-!
Laying out a second time. On a solution every search ends with its first pass and every update leaves
each instruction as it is, so all that a second run of the stages adds is what it counts and records.
-/

namespace Micro65.Layout

variable {layout : Layout}

theorem Settled.addressPass (settled : layout.Settled) :
    (pass addressStep).apply layout = (.ok false, layout.passed layout.labels layout.program) := by
  obtain ⟨cursor, swept⟩ := settled.placed.addressPass settled.distinct
  exact (pass_eq_ok_iff _ _ _ _).2 ⟨_, _, swept, rfl, rfl⟩

theorem Settled.sizePass (settled : layout.Settled) :
    (pass sizeStep).apply layout = (.ok false, layout.passed layout.labels layout.program) := by
  obtain ⟨cursor, swept⟩ := settled.placed.sizePass settled.distinct
    (fun inst member => (settled.settled inst member).sized)
    (fun inst member => (settled.settled inst member).fits)
  exact (pass_eq_ok_iff _ _ _ _).2 ⟨_, _, swept, rfl, rfl⟩

/-- A layout with the same labels and the same program is as much of a solution. -/
theorem Settled.congr {other : Layout} (settled : layout.Settled)
    (labels : other.labels = layout.labels) (program : other.program = layout.program) :
    other.Settled := by
  obtain ⟨distinct, placed, all⟩ := settled
  rw [← labels] at distinct placed all
  rw [← program] at placed all
  exact ⟨distinct, placed, all⟩

theorem Settled.settle (settled : layout.Settled) {start : UInt16}
    (started : layout.startAddress = .ok start) :
    Layout.settle.apply layout = (.ok start,
      { layout with
        addressPasses := 1, sizePasses := 1,
        trace := if layout.tracing then layout.trace ++ [layout.labels, layout.labels]
          else layout.trace }) := by
  let first : Layout := { layout.passed layout.labels layout.program with addressPasses := 1 }
  let last : Layout := { first.passed first.labels first.program with sizePasses := 1 }
  have again : first.Settled := settled.congr rfl rfl
  have moded : (updateProgram Instruction.resolveMode).apply first = (.ok (), first) :=
    updateProgram_eq_self fun inst member => (again.settled inst member).moded.resolveMode
  have measured : (updateProgram fun _ => Instruction.resolveSize).apply first = (.ok (), first) :=
    updateProgram_eq_self fun inst member => (again.settled inst member).measured.resolveSize
  have located : (updateProgram fun _ => Instruction.resolveAddress).apply last = (.ok (), last) :=
    updateProgram_eq_self fun inst member => (settled.settled inst member).located.resolveAddress
  have emitted : (updateProgram Instruction.emit).apply last = (.ok (), last) :=
    updateProgram_eq_self fun inst member =>
      (Instruction.emit_eq_ok_iff _ _ _).2 ⟨_, (settled.settled inst member).encoded, rfl⟩
  have done : Layout.settle.apply layout = (.ok start, last) :=
    (settle_eq_ok_iff _ _ _).2 ⟨1, _, _, _, 1, _, _, fixpoint_of_unchanged settled.addressPass, moded,
      measured, fixpoint_of_unchanged again.sizePass, located, emitted, started⟩
  rw [done]
  simp only [last, first, passed]
  split <;> simp

/-- A layout that has succeeded can be settled again: it has the same start, takes one pass for
addresses and one for sizes, and leaves every label and every instruction exactly as it was. -/
theorem settle_run {layout final : Layout} {start : UInt16}
    (done : run.apply layout = (.ok start, final)) :
    Layout.settle.apply final = (.ok start,
      { final with
        addressPasses := 1, sizePasses := 1,
        trace := if final.tracing then final.trace ++ [final.labels, final.labels]
          else final.trace }) := by
  obtain ⟨settled, started, -, -⟩ := run_settled done
  exact settled.settle started

/-- The width of the data decides where the code stands, and the load is shortened to page zero. -/
theorem settle_run_countdown : ∃ file start final,
    SourceFile.parse "countdown.asm"
      "START @main\n@count: DATA @end\n@main: LDX @count\n@end: DEC X\n" = .ok file ∧
    run.apply (.ofFiles [file]) = (.ok start, final) ∧
    Layout.settle.apply final = (.ok start,
      { final with
        addressPasses := 1, sizePasses := 1,
        trace := if final.tracing then final.trace ++ [final.labels, final.labels]
          else final.trace }) := by
  have ran : ∃ file,
      SourceFile.parse "countdown.asm"
        "START @main\n@count: DATA @end\n@main: LDX @count\n@end: DEC X\n" = .ok file ∧
      ∃ start, (run.apply (.ofFiles [file])).1 = .ok start := by
    decide +kernel
  obtain ⟨file, parsed, start, started⟩ := ran
  have done : run.apply (.ofFiles [file]) = (.ok start, (run.apply (.ofFiles [file])).2) :=
    Prod.ext started rfl
  exact ⟨file, start, _, parsed, done, settle_run done⟩

end Micro65.Layout
