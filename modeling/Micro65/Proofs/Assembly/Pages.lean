import Micro65.Proofs.Assembly.Format
import Micro65.Proofs.Assembly.WellFormed
import Micro65.Proofs.Expr.Agreement
import Micro65.Proofs.Layout.Searches

set_option autoImplicit false

/-!
The page chosen early is the right one at the end. A mode is chosen for all values that an operand can
still take, and says whether these fit into one byte. What the operand evaluates to when bytes are
emitted is among them, unless the operand measures the distance of two addresses; so no other operand
turns out to be too large or too small for its mode.
-/

namespace Micro65

/-! ### Before emission -/

namespace Layout

/-- All that a run does before it emits bytes. -/
def place : Stage Unit := do
  measure
  let sizePasses ← fixpoint sizeStep
  modify fun layout => { layout with sizePasses }
  updateProgram fun _ => Instruction.resolveAddress

theorem run_eq_place :
    run = (do
      place
      updateProgram Instruction.emit
      (← get).startAddress) := by
  simp only [run_eq_measure, place, bind_assoc]

variable {layout after : Layout}

theorem place_eq_ok_iff (layout after : Layout) :
    place.apply layout = (.ok (), after) ↔
      ∃ measured sizePasses sized, measure.apply layout = (.ok (), measured) ∧
        (fixpoint sizeStep).apply measured = (.ok sizePasses, sized) ∧
        (updateProgram fun _ => Instruction.resolveAddress).apply { sized with sizePasses } =
          (.ok (), after) := by
  simp only [place, Stage.bind_eq_ok_iff, Stage.apply_modify]
  constructor
  · rintro ⟨_, measured, measures, sizePasses, sized, sizes, _, _, ⟨⟩, placed⟩
    exact ⟨measured, sizePasses, sized, measures, sizes, placed⟩
  · rintro ⟨measured, sizePasses, sized, measures, sizes, placed⟩
    exact ⟨(), measured, measures, sizePasses, sized, sizes, (), _, rfl, placed⟩

/-- When bytes are to be emitted the modes hold under the labels as they are by then. -/
theorem place_resolved (done : place.apply layout = (.ok (), after)) :
    ∃ found, discover.apply layout = (.ok (), found) ∧ found.Keeps after ∧
      ∀ inst ∈ after.program, inst.Resolved after.labels := by
  obtain ⟨middle, sizePasses, sized, measures, sizes, placed⟩ := (place_eq_ok_iff _ _).1 done
  obtain ⟨found, first, discovered, keeps, measured⟩ := measure_measured measures
  obtain ⟨narrowed, -, -⟩ :=
    sizeFixpoint_placed measured.distinct measured.named measured.placed measured.narrowed sizes
  obtain ⟨program, addresses, rfl⟩ := (updateProgram_eq_ok_iff _ _ _ _).1 placed
  have located : List.Forall₂ (fun inst inst' : Instruction =>
      inst' = { inst with address := inst'.address }) sized.program program :=
    addresses.imp fun _ _ done => (Instruction.resolveAddress_eq_ok done).2
  refine ⟨found, discovered, keeps.trans (narrowed.keeps.trans ⟨rfl, ?_, rfl⟩), ?_⟩
  · refine map_unplaced_of_forall₂ (located.imp fun _ _ same => ?_)
    rw [same]
    rfl
  · have resolved : ∀ inst ∈ sized.program, inst.Resolved sized.labels := fun inst member =>
      (narrowed.resolved inst member).narrows narrowed.within narrowed.proper
    refine forall_of_forall₂ ((List.forall₂_and_left ..).2 ⟨resolved, located⟩) ?_
    rintro inst inst' ⟨⟨moded, measured, sized, bare⟩, same⟩
    rw [same]
    exact ⟨moded, measured, sized, bare⟩

end Layout

/-! ### Bytes -/

namespace Mode

theorem operandLength_eq_one_iff (mode : Mode) :
    mode.operandLength = 1 ↔ mode ∈ [imm, zpg, zpgX, zpgY, ind, indX, indY] := by
  cases mode <;> decide

theorem operandLength_eq_two_iff (mode : Mode) :
    mode.operandLength = 2 ↔ mode ∈ [abs, absX, absY] := by
  cases mode <;> decide

end Mode

namespace Mnemonic

theorem encode_of_implied : ∀ kind ∈ all, kind.isImplied = true →
    (Opcode.encode kind none).isSome = true := by decide +kernel

/-- What has a size has an opcode. -/
theorem exists_opcode {kind : Mnemonic} {mode : Option Mode} {size : Nat}
    (directive : kind.isDirective = false) (branch : kind.isBranch = false)
    (sized : kind.size? mode = some size) : ∃ code, Opcode.encode kind mode = some code := by
  by_cases jsr : kind = .jsr
  · subst jsr
    obtain ⟨rfl | rfl, -⟩ := size?_jsr_eq_some_iff.1 sized
    · exact ⟨0x20, by decide⟩
    · exact ⟨0x20, by decide⟩
  by_cases implied : kind.isImplied = true
  · have same : Opcode.canonical kind mode = Opcode.canonical kind none := by
      simp [Opcode.canonical, implied]
    have found := encode_of_implied kind kind.mem_all implied
    rw [Opcode.encode, ← same] at found
    exact Option.isSome_iff_exists.1 found
  · rw [Bool.not_eq_true] at implied
    obtain ⟨resolved, code, rfl, encoded, -⟩ :=
      (size?_eq_some_iff directive jsr implied branch).1 sized
    exact ⟨code, encoded⟩

/-- A mode with one operand byte is that of an instruction of two bytes, but for `JSR`, which has two
operand bytes in any mode. -/
theorem operandLength_of_size? {kind : Mnemonic} {mode : Mode} {size : Nat}
    (directive : kind.isDirective = false) (branch : kind.isBranch = false)
    (implied : kind.isImplied = false) (sized : kind.size? (some mode) = some size) (two : size = 2) :
    mode.operandLength = 1 := by
  by_cases jsr : kind = .jsr
  · subst jsr
    have three := (size?_jsr_eq_some_iff.1 sized).2
    omega
  · obtain ⟨resolved, code, same, -, size⟩ := (size?_eq_some_iff directive jsr implied branch).1 sized
    cases same
    omega

end Mnemonic

namespace Instruction

variable {labels : Labels} {inst : Instruction}

theorem encode_of_opcode {code : UInt8} (notBase : inst.kind ≠ .base) (notData : inst.kind ≠ .data)
    (found : Opcode.encode inst.kind inst.mode = some code) :
    inst.encode labels = do return code :: (← encode.operandBytes labels inst inst.param) := by
  unfold encode
  split
  · contradiction
  · contradiction
  · rw [found]

theorem valueBytes_isOk {value : Int} (branch : inst.kind.isBranch = false)
    (notData : inst.kind ≠ .data) (low : 0 ≤ value) (high : value ≤ 0xFFFF)
    (short : inst.size = 2 → value < 0x100) : ∃ bytes, inst.valueBytes value = .ok bytes := by
  unfold valueBytes
  rw [branch, if_neg Bool.false_ne_true, if_neg (not_not.2 ⟨low, high⟩)]
  by_cases two : inst.size = 2
  · exact ⟨_, if_pos ⟨short two, .inr two⟩⟩
  · dsimp only
    rw [if_neg (by simp [two, notData]), if_neg (by simp [two])]
    exact ⟨_, rfl⟩

theorem pointValue_of_range {expr : Expr} {range : Interval} (evaluated : expr.range labels = .ok range) :
    (∃ value, range = .point value ∧ pointValue labels expr = .ok value) ∨
      pointValue labels expr = .error .unresolvedValue := by
  cases point : range.value? with
  | some value =>
    rw [Interval.value?_eq_some_iff] at point
    subst point
    exact .inl ⟨value, rfl, (pointValue_eq_ok_iff _ _ _).2 evaluated⟩
  | none =>
    refine .inr ?_
    unfold pointValue
    rw [evaluated]
    dsimp only [bind, Except.bind]
    rw [point]
    rfl

/-- The bytes of a parameter whose mode covers what it evaluates to. -/
theorem operandBytes_of_paged {mode : Mode} {param : Expr} (directive : inst.kind.isDirective = false)
    (branch : inst.kind.isBranch = false) (implied : inst.kind.isImplied = false)
    (sized : inst.kind.size? (some mode) = some inst.size) (memory : mode.isRegister = false)
    (paged : Expr.Paged labels mode param) :
    (∃ bytes, encode.operandBytes labels inst (some param) = .ok bytes) ∨
      encode.operandBytes labels inst (some param) = .error .unresolvedValue := by
  obtain ⟨range, evaluated, byte, word⟩ := paged
  have length := mode.operandLength_le
  have nonzero := mode.operandLength_eq_zero_iff
  rw [memory, eq_false Bool.false_ne_true, iff_false] at nonzero
  rcases pointValue_of_range evaluated with ⟨value, rfl, point⟩ | unresolved
  · refine .inl ?_
    have bounds : 0 ≤ value ∧ value ≤ 0xFFFF ∧ (mode.operandLength = 1 → value < 0x100) := by
      rw [Interval.within_iff] at byte word
      dsimp only [Interval.point] at byte word
      omega
    have bytes := valueBytes_isOk branch ((Mnemonic.isDirective_eq_false_iff _).1 directive).2.2
      bounds.1 bounds.2.1 fun two =>
        bounds.2.2 (Mnemonic.operandLength_of_size? directive branch implied sized two)
    obtain ⟨bytes, encoded⟩ := bytes
    exact ⟨bytes, (operandBytes_eq_ok_iff _ _ _ _).2 (.inr ⟨param, value, rfl, evaluated, encoded⟩)⟩
  · refine .inr ?_
    change (do inst.valueBytes (← pointValue labels param)) = _
    rw [unresolved]
    rfl

/-- Encoding an instruction whose operand measures no distance fails only where the value is not settled.
Where it succeeds, the value is of the page that the mode stands for. -/
theorem encode_paged (resolved : inst.Resolved labels) (complete : inst.Complete)
    (directive : inst.kind.isDirective = false) (branch : inst.kind.isBranch = false)
    (plain : ∀ operand, inst.operand = some operand → operand.hasDistance labels = false)
    (defined : ∀ operand, inst.operand = some operand →
      ∀ name ∈ operand.labels, name ∈ labels.names) :
    ((∃ bytes, inst.encode labels = .ok bytes) ∨ inst.encode labels = .error .unresolvedValue) ∧
      ∀ mode param, inst.mode = some mode → inst.param = some param → Expr.Paged labels mode param := by
  obtain ⟨-, notBase, notData⟩ := (Mnemonic.isDirective_eq_false_iff _).1 directive
  have sized := (resolved.measured.exact notBase notData).1
  obtain ⟨code, found⟩ := Mnemonic.exists_opcode directive branch sized
  rw [encode_of_opcode notBase notData found]
  have finish : ∀ {result : Except AsmError (List UInt8)},
      (∃ bytes, result = .ok bytes) ∨ result = .error .unresolvedValue →
      (∃ bytes, (do return code :: (← result)) = .ok bytes) ∨
        (do return code :: (← result)) = .error .unresolvedValue := by
    rintro result (⟨bytes, rfl⟩ | rfl)
    · exact .inl ⟨code :: bytes, rfl⟩
    · exact .inr rfl
  cases given : inst.operand with
  | none =>
    rw [resolved.bare given]
    refine ⟨finish (.inl ⟨[], rfl⟩), ?_⟩
    rintro _ _ _ ⟨⟩
  | some operand =>
    have implied : inst.kind.isImplied = false := by
      rw [Instruction.Complete, given, Mnemonic.takesOperand] at complete
      simpa using complete
    obtain ⟨mode, chosen, moded⟩ := resolved.moded notBase notData operand given
    rw [moded] at sized ⊢
    cases param : inst.param with
    | none =>
      refine ⟨finish (.inl ⟨[], rfl⟩), ?_⟩
      rintro _ _ _ ⟨⟩
    | some expr =>
      rw [param] at chosen
      have paged := Expr.mode_paged (.of_plain (plain operand given)) (defined operand given) chosen
      rcases Expr.mode_param chosen with ⟨-, missing, -⟩ | ⟨-, -, memory⟩
      · contradiction
      refine ⟨finish (operandBytes_of_paged directive branch implied sized memory paged), ?_⟩
      rintro _ _ ⟨⟩ ⟨⟩
      exact paged

end Instruction

/-! ### Programs -/

/-- Whatever the program, as soon as bytes are emitted: an instruction other than a branch, whose operand
measures no distance of two addresses, is encoded or has a value that is not settled, and is never found
to be too large for its mode. If it is encoded, its value is one byte in the modes with one operand byte
and needs two in the others. -/
theorem encode_of_place {files : List SourceFile}
    (parsed : ∀ file ∈ files, ∃ name text, SourceFile.parse name text = .ok file)
    {layout : Layout} (done : Layout.place.apply (.ofFiles files) = (.ok (), layout))
    {inst : Instruction} (member : inst ∈ layout.program)
    (directive : inst.kind.isDirective = false) (branch : inst.kind.isBranch = false)
    (plain : ∀ operand, inst.operand = some operand →
      operand.hasDistance layout.labels = false) :
    ((∃ bytes, inst.encode layout.labels = .ok bytes) ∨
      inst.encode layout.labels = .error .unresolvedValue) ∧
    ∀ bytes, inst.encode layout.labels = .ok bytes → ∀ mode param, inst.mode = some mode →
      inst.param = some param → ∃ value, param.range layout.labels = .ok (.point value) ∧
        (mode ∈ [Mode.imm, .zpg, .zpgX, .zpgY, .ind, .indX, .indY] → value < 0x100) ∧
        (mode ∈ [Mode.abs, .absX, .absY] → 0x100 ≤ value) := by
  obtain ⟨found, discovered, keeps, resolved⟩ := Layout.place_resolved done
  have checked := (Layout.discover_eq_ok_iff (.ofFiles files)).1 (by rw [discovered])
  have known := Layout.discover_discovered discovered
  have code : layout.program.map Layout.unplaced =
      (laidOut (files.flatMap SourceFile.instructions)).map Layout.unplaced := by
    rw [keeps.code, known.program, List.map_map]
    rfl
  have names : layout.labels.names =
      (laidOut (files.flatMap SourceFile.instructions)).filterMap Instruction.label := by
    rw [keeps.names, known.names, known.program, List.filterMap_map]
    rfl
  have defined : ∀ inst ∈ layout.program, ∀ operand, inst.operand = some operand →
      ∀ name ∈ operand.labels, name ∈ layout.labels.names := by
    refine Layout.forall_of_code code Iff.rfl fun other placed operand given name mentioned => ?_
    rw [names]
    exact mem_filterMap_label.2 (checked.defined other placed operand given name mentioned)
  obtain ⟨complete, -⟩ := Assembly.forall_complete parsed code inst member
  obtain ⟨encodes, paged⟩ :=
    Instruction.encode_paged (resolved inst member) complete directive branch plain
      (defined inst member)
  refine ⟨encodes, fun bytes encoded mode param moded given => ?_⟩
  obtain ⟨range, evaluated, byte, word⟩ := paged mode param moded given
  obtain ⟨-, notBase, notData⟩ := (Mnemonic.isDirective_eq_false_iff _).1 directive
  rcases Instruction.encode_cases encoded with ⟨base, -⟩ | ⟨data, -⟩ | ⟨-, -, opcode, rest, -, operand, -⟩
  · contradiction
  · contradiction
  rw [Instruction.operandBytes_eq_ok_iff] at operand
  rcases operand with ⟨missing, -⟩ | ⟨expr, value, given', point, -⟩
  · rw [given] at missing
    contradiction
  rw [given, Option.some.injEq] at given'
  subst given'
  rw [point, Except.ok.injEq] at evaluated
  subst evaluated
  rw [Interval.within_iff] at byte word
  dsimp only [Interval.point] at byte word
  refine ⟨value, point, fun short => ?_, fun long => ?_⟩
  · have one := mode.operandLength_eq_one_iff.2 short
    omega
  · have two := mode.operandLength_eq_two_iff.2 long
    omega

/-- The pages of two operands are known before their addresses: a pointer behind its use in page zero,
and a table behind its use in page two. -/
theorem encode_of_place_forward : ∃ file layout pointer table,
    SourceFile.parse "pages.asm"
      "LDA [@cell] + Y\n@cell: DATA @table\nBASE $0200\nSTART @main\n@main: STA @table + X\n@table: DATA $00\n" =
        .ok file ∧
    Layout.place.apply (.ofFiles [file]) = (.ok (), layout) ∧
    (∃ inst ∈ layout.program, inst.mode = some .indY ∧ inst.param = some pointer ∧
      ∃ value, pointer.range layout.labels = .ok (.point value) ∧ value < 0x100) ∧
    (∃ inst ∈ layout.program, inst.mode = some .absX ∧ inst.param = some table ∧
      ∃ value, table.range layout.labels = .ok (.point value) ∧ 0x100 ≤ value) := by
  have laid : ∃ file, SourceFile.parse "pages.asm"
      "LDA [@cell] + Y\n@cell: DATA @table\nBASE $0200\nSTART @main\n@main: STA @table + X\n@table: DATA $00\n" =
        .ok file ∧
      ∃ layout, Layout.place.apply (.ofFiles [file]) = (.ok (), layout) ∧
        (∃ inst ∈ layout.program, inst.kind = .lda ∧ inst.mode = some .indY ∧
          inst.param.isSome ∧
          (∀ operand ∈ inst.operand, operand.hasDistance layout.labels = false) ∧
          ∃ bytes, inst.encode layout.labels = .ok bytes) ∧
        (∃ inst ∈ layout.program, inst.kind = .sta ∧ inst.mode = some .absX ∧
          inst.param.isSome ∧
          (∀ operand ∈ inst.operand, operand.hasDistance layout.labels = false) ∧
          ∃ bytes, inst.encode layout.labels = .ok bytes) := by
    decide +kernel
  obtain ⟨file, parsed, layout, done,
    ⟨first, member, lda, indY, needed, plain, bytes, encoded⟩,
    second, member', sta, absX, needed', plain', bytes', encoded'⟩ := laid
  obtain ⟨pointer, param⟩ := Option.isSome_iff_exists.1 needed
  obtain ⟨table, param'⟩ := Option.isSome_iff_exists.1 needed'
  have sources := SourceFile.exists_parse_of_mem_singleton parsed
  obtain ⟨value, point, short, -⟩ := (encode_of_place sources done member (by rw [lda]; rfl)
    (by rw [lda]; rfl) plain).2 bytes encoded _ _ indY param
  obtain ⟨value', point', -, long⟩ := (encode_of_place sources done member' (by rw [sta]; rfl)
    (by rw [sta]; rfl) plain').2 bytes' encoded' _ _ absX param'
  exact ⟨file, layout, pointer, table, parsed, done,
    ⟨first, member, indY, param, value, point, short (by decide)⟩,
    second, member', absX, param', value', point', long (by decide)⟩

end Micro65
