import Micro65.Proofs.Cpu.Locating

set_option autoImplicit false

/-!
Interruptions that return at once. What an interrupt sequence or a `BRK` saves, an `RTI` takes off the
stack again, and as requests are masked in between nothing else is started before it. So afterwards the
registers are what they were, wherever in the page the stack pointer stands, and memory has changed in
the three cells of the stack at most.
-/

namespace Micro65

variable {δ μ : Type} [Device δ]

/-! ### Cells that are not written -/

/-- The bus answers reads of the address with the value, as long as nothing is written there. -/
def Retains (address : UInt16) (value : UInt8) (devices : List δ) : Prop :=
  ∀ accesses : List Access, (∀ data, .write address data ∉ accesses) →
    (Bus.readDevices address (devices.map (accesses.foldl Device.after ·))).1 = some value

namespace Retains

variable {address : UInt16} {value : UInt8}

theorem after {devices : List δ} (retains : Retains address value devices) {accesses : List Access}
    (apart : ∀ data, .write address data ∉ accesses) :
    Retains address value (devices.map (accesses.foldl Device.after ·)) := by
  intro later apart'
  have both := retains (accesses ++ later) fun data => by
    rw [List.mem_append, not_or]
    exact ⟨apart data, apart' data⟩
  rw [List.map_map]
  simpa only [Function.comp_def, ← List.foldl_append] using both

theorem shown {allowed : Access → Prop} {core other : Core δ μ} (shows' : core.Shows allowed other)
    (apart : ∀ data, ¬allowed (.write address data)) (retains : Retains address value core.devices) :
    Retains address value other.devices := by
  obtain ⟨accesses, permitted, devices⟩ := shows'
  rw [devices]
  exact retains.after fun data member => apart data (permitted _ member)

theorem answer {core : Core δ μ} (retains : Retains address value core.devices) :
    ((Exec.read address : Exec δ μ UInt8).run core).1 = value := by
  have found := retains [] fun _ => List.not_mem_nil
  simp only [List.foldl_nil, List.map_id'] at found
  exact congrArg (Option.getD · 0x00) found

end Retains

/-- Memory that is the last to claim an address retains what it holds there. -/
theorem Serves.retains {ram : Block → δ} (isRam : IsRam ram) {address : UInt16} {value : UInt8}
    {devices : List δ} (serves : Serves ram address value devices) : Retains address value devices := by
  intro accesses apart
  induction accesses generalizing devices with
  | nil =>
    rw [show (fun device : δ => List.foldl Device.after device []) = id from rfl, List.map_id]
    exact serves.answer isRam
  | cons access rest inductionHypothesis =>
    have kept : Serves ram address value (devices.map (Device.after · access)) := by
      cases access with
      | read other => exact serves.after_read isRam other
      | write other data =>
        have different : address ≠ other := by
          rintro rfl
          exact apart data List.mem_cons_self
        have written := serves.after_write isRam other data
        rwa [if_neg different] at written
    have found := inductionHypothesis kept fun data member => apart data (List.mem_cons_of_mem _ member)
    rwa [List.map_map] at found

theorem Peripheral.retains_rom {block : Block} {address : UInt16} {value : UInt8}
    (held : block.get? address = some value) (front : List Peripheral) :
    Retains address value (front ++ [.rom block]) := by
  intro accesses _
  have same (shown : List Access) : shown.foldl Device.after (rom block) = rom block := by
    induction shown with
    | nil => rfl
    | cons access rest inductionHypothesis => cases access <;> exact inductionHypothesis
  induction front with
  | nil =>
    rw [List.nil_append, List.map_singleton, same]
    exact held
  | cons device rest inductionHypothesis =>
    rw [List.cons_append, List.map_cons, Bus.readDevices_fst_cons, inductionHypothesis]
    rfl

/-! ### The cells of an interruption -/

/-- The cells that an interruption pushes to. -/
def pushedCells (s : UInt8) : List UInt16 := [stackCell s, stackCell (s - 1), stackCell (s - 2)]

theorem not_mem_pushedCells {address : UInt16} (above : 0x01FF < address) (s : UInt8) :
    address ∉ pushedCells s := by
  have outside (s : UInt8) : address ≠ stackCell s := by
    rintro rfl
    exact absurd (exists_stackCell_iff.1 ⟨s, rfl⟩).2 (UInt16.not_le.2 above)
  simp only [pushedCells, List.mem_cons, List.not_mem_nil, or_false, not_or]
  exact ⟨outside _, outside _, outside _⟩

/-- The access is a read, or a write to one of these cells. -/
def Access.Pushes (s : UInt8) : Access → Prop
  | .read _ => True
  | .write address _ => address ∈ pushedCells s

theorem Access.IsRead.pushes {access : Access} (isRead : access.IsRead) (s : UInt8) :
    access.Pushes s := by
  cases access with
  | read address => trivial
  | write address data => exact isRead.elim

theorem Retains.pushed {address : UInt16} {value : UInt8} {s : UInt8} {core other : Core δ μ}
    (apart : address ∉ pushedCells s) (shows' : core.Shows (Access.Pushes s) other)
    (retains : Retains address value core.devices) : Retains address value other.devices :=
  retains.shown shows' fun _ => apart

namespace Exec

/-! ### Entering and leaving -/

theorem readWord_answer {core : Core δ μ} {address : UInt16} {low high : UInt8}
    (first : Retains address low core.devices) (second : Retains (address + 1) high core.devices) :
    ((readWord address : Exec δ μ UInt16).run core).1 = wordOf low high := by
  have read : core.Shows Access.IsRead ((read address : Exec δ μ UInt8).run core).2 :=
    .single (.read address) trivial (read_devices core address)
  have later := second.shown read fun _ => id
  let opened := ((Exec.read address : Exec δ μ UInt8).run core).2
  change wordOf ((Exec.read address : Exec δ μ UInt8).run core).1
    ((Exec.read (address + 1) : Exec δ μ UInt8).run opened).1 = _
  rw [first.answer, later.answer]

section Entering

variable [Monitor μ] (core : Core δ μ)

/-- What an interruption saves. -/
def saved : Core δ μ :=
  ((push core.regs.p.byte : Exec δ μ Unit).run ((pushWord core.regs.pc : Exec δ μ Unit).run core).2).2

theorem saved_pushes : core.Shows (Access.Pushes core.regs.s) (saved core) := by
  let first := ((push (core.regs.pc >>> 8).toUInt8 : Exec δ μ Unit).run core).2
  let second := ((push core.regs.pc.toUInt8 : Exec δ μ Unit).run first).2
  have third : second.regs.s = core.regs.s - 2 := by
    change core.regs.s - 1 - 1 = _
    grind
  refine (Core.Shows.single (.write (stackCell core.regs.s) _) ?_ (push_devices core _)).trans
    ((Core.Shows.single (.write (stackCell first.regs.s) _) ?_ (push_devices first _)).trans
      (.single (.write (stackCell second.regs.s) _) ?_ (push_devices second _)))
  · exact List.mem_cons_self
  · exact List.mem_cons_of_mem _ List.mem_cons_self
  · rw [third]
    exact List.mem_cons_of_mem _ (List.mem_cons_of_mem _ List.mem_cons_self)

/-- Entering a handler is saving, and a jump through the vector. -/
theorem run_enter (vector : UInt16) :
    ((enter vector : Exec δ μ Unit).run core).2 =
      let found := (readWord vector : Exec δ μ UInt16).run (saved core)
      { found.2 with regs := { found.2.regs with pc := found.1 } } := rfl

theorem enter_pushes (vector : UInt16) :
    core.Shows (Access.Pushes core.regs.s) ((enter vector : Exec δ μ Unit).run core).2 := by
  have found := ((writes_readWord vector).reads (saved core)).mono fun _ => (Access.IsRead.pushes · core.regs.s)
  exact (saved_pushes core).trans found

/-- A handler is entered where the vector leads, with the status as it was, and with three bytes fewer
below the stack pointer. -/
theorem enter_regs {vector : UInt16} {low high : UInt8} (first : Retains vector low core.devices)
    (second : Retains (vector + 1) high core.devices) (above : 0x01FF < vector ∧ 0x01FF < vector + 1) :
    ((enter vector : Exec δ μ Unit).run core).2.regs =
      { core.regs with pc := wordOf low high, s := core.regs.s - 1 - 1 - 1 } := by
  have pushes := saved_pushes core
  rw [run_enter, ← readWord_answer (first.pushed (not_mem_pushedCells above.1 _) pushes)
    (second.pushed (not_mem_pushedCells above.2 _) pushes)]
  rfl

end Entering
end Exec

theorem Stacked.enter [Monitor μ] {ram : Block → δ} (isRam : IsRam ram) {base : UInt8} {core : Core δ μ}
    (stacked : Stacked ram base [] core) (vector : UInt16) :
    Stacked ram base (core.regs.p.byte :: littleEndian core.regs.pc)
      ((Exec.enter vector : Exec δ μ Unit).run core).2 := by
  have word : Stacked ram base (littleEndian core.regs.pc) _ :=
    stacked.pushWord isRam (by decide) core.regs.pc
  have saved : Stacked ram base _ (Exec.saved core) :=
    word.push isRam (Nat.le_of_ble_eq_true rfl) core.regs.p.byte
  have found := saved.spare (((Exec.writes_readWord vector).reads (Exec.saved core)).spares isRam rfl)
  exact found.spare ⟨rfl, fun _ _ serves => serves⟩

/-- A return takes the status and an address off the stack. -/
theorem Stacked.rti [Monitor μ] {ram : Block → δ} (isRam : IsRam ram) {base status low high : UInt8}
    {core : Core δ μ} (stacked : Stacked ram base (status :: [low, high]) core)
    (handler : Retains core.regs.pc 0x40 core.devices) :
    core.Executes .rti ∧ core.Shows Access.IsRead core.next ∧ core.next.regs =
      { core.regs with pc := wordOf low high, s := core.regs.s + 1 + 1 + 1, p := ⟨status⟩ } := by
  let fetched := ((Exec.fetch : Exec δ μ UInt8).run core).2
  let pulled := (Exec.pull : Exec δ μ UInt8).run fetched
  let target := (Exec.pullWord : Exec δ μ UInt16).run pulled.2
  have operation : Operation.ofCode? 0x40 = some ⟨⟨.rti, none⟩, 5⟩ := by decide +kernel
  have fetches : (Exec.fetchOperation : Exec δ μ Operation).run core =
      (⟨⟨.rti, none⟩, 5⟩, fetched) := by
    have code : ((Exec.fetch : Exec δ μ UInt8).run core).1 = 0x40 := handler.answer
    rw [Exec.run_fetchOperation, code, operation]
    rfl
  have step := Exec.run_step rfl fetches (Exec.run_operandOf_none rfl _)
  have next : core.next =
      { target.2 with regs := { target.2.regs with p := ⟨pulled.1⟩, pc := target.1 } } := by
    rw [Core.next, step]
    rfl
  obtain ⟨first, stacked⟩ := (stacked.spare ((Exec.fetch_reads core).spares isRam rfl)).pull isRam
  obtain ⟨second, -⟩ := stacked.pullWord isRam
  refine ⟨?_, ?_, ?_⟩
  · rw [Core.Executes, step]
    rfl
  · rw [next]
    exact (Exec.fetch_reads core).trans ((Exec.writes_pull.reads fetched).trans (Exec.writes_pullWord.reads pulled.2))
  · rw [next, ← first, ← second]
    rfl

/-! ### Interruptions -/

namespace Sequence

/-- The vector through which a handler is entered that is to return to the program. -/
def vector? : Sequence → Option UInt16
  | .nmi => some nmiVector
  | .irq | .instruction .brk => some irqVector
  | .reset | .instruction _ => none

/-- Where the program goes on behind an interruption at an address: a `BRK` skips one byte. -/
def resumes (sequence : Sequence) (address : UInt16) : UInt16 :=
  match sequence with
  | .instruction .brk => address + 2
  | _ => address

variable {sequence : Sequence} {vector : UInt16}

theorem masks_of_vector? (enters : sequence.vector? = some vector) : sequence.masks = true := by
  cases sequence with
  | reset => contradiction
  | nmi | irq => rfl
  | instruction kind => cases kind <;> first | rfl | contradiction

theorem above_of_vector? (enters : sequence.vector? = some vector) :
    0x01FF < vector ∧ 0x01FF < vector + 1 := by
  have vectors : vector = nmiVector ∨ vector = irqVector := by
    cases sequence with
    | reset => contradiction
    | nmi => exact .inl (Option.some.inj enters).symm
    | irq => exact .inr (Option.some.inj enters).symm
    | instruction kind => cases kind <;> first | contradiction | exact .inr (Option.some.inj enters).symm
  rcases vectors with rfl | rfl <;> decide

theorem brk_of_vector? {kind : Mnemonic} (enters : (instruction kind).vector? = some vector) :
    kind = .brk ∧ vector = irqVector := by
  cases kind <;> first | contradiction | exact ⟨rfl, (Option.some.inj enters).symm⟩

end Sequence

namespace Exec

variable [Monitor μ] {core : Core δ μ}

/-- A `BRK` skips a byte and enters a handler. -/
theorem run_step_brk (executes : core.Executes .brk) :
    ∃ found : Core δ μ,
      core.Shows Access.IsRead found ∧ found.regs = { core.regs with pc := core.regs.pc + 2 } ∧
      core.next =
        let entered := ((enter irqVector : Exec δ μ Unit).run found).2
        { entered with
          regs := ((entered.regs.setFlag .irqDisable true).setFlag .brk true).setFlag .decimal false } := by
  obtain ⟨row, -, ⟨shape, cycles⟩, kind, rfl, fetched⟩ := exists_fetched executes (by decide)
  obtain ⟨⟨fetchedKind, mode⟩, code⟩ := row
  cases kind
  let opened := ((fetch : Exec δ μ UInt8).run core).2
  let found : Core δ μ := { opened with regs := { opened.regs with pc := opened.regs.pc + 1 } }
  have operand : (operandOf ⟨⟨.brk, mode⟩, cycles⟩ : Exec δ μ (Place × Nat)).run opened =
      ((.a, 0), opened) := rfl
  refine ⟨found, fetch_reads core, ?_, ?_⟩
  · have behind : core.regs.pc + 1 + 1 = core.regs.pc + 2 := by grind
    rw [← behind]
    rfl
  · rw [Core.next, run_step rfl fetched operand]
    rfl

/-- Whatever starts an interruption enters its handler from where the program is to go on. -/
theorem start_enters {nmiEdge : Bool} {sequence : Sequence} {remaining : Nat} {after : Core δ μ}
    {vector : UInt16}
    (run : (start nmiEdge : Exec δ μ (Sequence × Nat)).run core = ((sequence, remaining), after))
    (enters : sequence.vector? = some vector) :
    ∃ found : Core δ μ, core.Shows Access.IsRead found ∧
      found.regs = { core.regs with pc := sequence.resumes core.regs.pc } ∧
      let entered := ((enter vector : Exec δ μ Unit).run found).2
      after.devices = entered.devices ∧ after.regs = { entered.regs with p := after.regs.p } := by
  rw [run_start] at run
  split at run
  · cases run
    contradiction
  split at run
  · cases run
    cases enters
    exact ⟨core, .still rfl, rfl, rfl, rfl⟩
  split at run
  · cases run
    cases enters
    exact ⟨core, .still rfl, rfl, rfl, rfl⟩
  · rw [Prod.mk.injEq, Prod.mk.injEq] at run
    obtain ⟨⟨rfl, -⟩, next'⟩ := run
    obtain ⟨executes, rfl⟩ := Sequence.brk_of_vector? enters
    obtain ⟨found, reads, regs, next⟩ := run_step_brk executes
    refine ⟨found, reads, ?_, ?_⟩
    · rw [regs, executes]
      rfl
    · rw [← next', show ((step : Exec δ μ (Mnemonic × Nat)).run core).2 = core.next from rfl, next]
      exact ⟨rfl, rfl⟩

end Exec

/-- A handler has been entered that is to return at once: requests are masked, an `RTI` comes next, and
on the stack are the status and the address to go on from. -/
structure Interrupted (ram : Block → δ) (before : Registers) (resume : UInt16) (core : Core δ μ) :
    Prop where
  masked : core.regs.Masked
  regs : core.regs =
    { before with pc := core.regs.pc, s := before.s - 1 - 1 - 1, p := core.regs.p }
  stacked : Stacked ram before.s (before.p.byte :: littleEndian resume) core
  handler : Retains core.regs.pc 0x40 core.devices

namespace Interrupted

variable {ram : Block → δ} {before : Registers} {resume : UInt16} {core other : Core δ μ}

/-- Only the registers and the devices matter. -/
theorem congr (interrupted : Interrupted ram before resume core) (regs : other.regs = core.regs)
    (devices : other.devices = core.devices) : Interrupted ram before resume other := by
  obtain ⟨masked, kept, stacked, handler⟩ := interrupted
  refine ⟨?_, ?_, stacked.spare ⟨congrArg _ regs, fun _ _ serves => devices ▸ serves⟩, ?_⟩
  · rw [regs]
    exact masked
  · rw [regs]
    exact kept
  · rw [regs, devices]
    exact handler

variable [Monitor μ]

/-- Starting an interruption. -/
theorem of_start (isRam : IsRam ram) (page : ∀ s, ∃ value, Serves ram (stackCell s) value core.devices)
    {nmiEdge : Bool} {sequence : Sequence} {remaining : Nat} {after : Core δ μ} {vector : UInt16}
    {low high : UInt8}
    (run : (Exec.start nmiEdge : Exec δ μ (Sequence × Nat)).run core = ((sequence, remaining), after))
    (enters : sequence.vector? = some vector) (first : Retains vector low core.devices)
    (second : Retains (vector + 1) high core.devices)
    (handler : Retains (wordOf low high) 0x40 core.devices)
    (apart : wordOf low high ∉ pushedCells core.regs.s) :
    Interrupted ram core.regs (sequence.resumes core.regs.pc) after ∧
      core.Shows (Access.Pushes core.regs.s) after := by
  obtain ⟨found, reads, regs, devices, regs'⟩ := Exec.start_enters run enters
  have pushes :
      found.Shows (Access.Pushes core.regs.s) ((Exec.enter vector : Exec δ μ Unit).run found).2 := by
    have pushed := Exec.enter_pushes found vector
    rwa [regs] at pushed
  have shows' : core.Shows (Access.Pushes core.regs.s) after := by
    have both := (reads.mono fun _ => (Access.IsRead.pushes · core.regs.s)).trans pushes
    obtain ⟨accesses, permitted, shown⟩ := both
    exact ⟨accesses, permitted, devices.trans shown⟩
  have entered := Exec.enter_regs found (first.shown reads fun _ => id) (second.shown reads fun _ => id)
    (Sequence.above_of_vector? enters)
  have empty : Stacked ram core.regs.s [] found := by
    refine ⟨Nat.zero_le _, ?_, fun s => ?_, nofun⟩
    · rw [regs]
      exact (UInt8.sub_zero _).symm
    · obtain ⟨value, serves⟩ := page s
      exact ⟨value, reads.serves isRam serves⟩
  have stacked := empty.enter isRam vector
  rw [regs] at entered stacked
  rw [entered] at regs'
  refine ⟨⟨?_, ?_, ?_, ?_⟩, shows'⟩
  · have masks : ((Exec.start nmiEdge : Exec δ μ (Sequence × Nat)).run core).1.1.masks = true := by
      rw [run]
      exact Sequence.masks_of_vector? enters
    have masked := Exec.masked_start_of_masks masks
    rwa [run] at masked
  · rw [regs']
  · exact stacked.spare ⟨by rw [regs', entered], fun _ _ serves => devices ▸ serves⟩
  · rw [regs']
    exact handler.pushed apart shows'

/-- The step out of the handler. At the next boundary nothing but the return can be started, and it brings
all registers back. -/
theorem start (isRam : IsRam ram) (interrupted : Interrupted ram before resume core)
    (reset : core.board.bus.resetLine = false) :
    ∃ remaining, (Exec.start false : Exec δ μ (Sequence × Nat)).run core =
        ((.instruction .rti, remaining), core.next) ∧
      core.Shows Access.IsRead core.next ∧ core.next.regs = { before with pc := resume } := by
  obtain ⟨masked, regs, stacked, handler⟩ := interrupted
  obtain ⟨executes, reads, after⟩ := stacked.rti isRam handler
  refine ⟨((Exec.step : Exec δ μ (Mnemonic × Nat)).run core).1.2, ?_, reads, ?_⟩
  · have unmasked : core.regs.p.has .irqDisable = true := masked
    rw [Exec.run_start, reset, unmasked, Bool.not_true, Bool.and_false, if_neg Bool.false_ne_true,
      if_neg Bool.false_ne_true, if_neg Bool.false_ne_true]
    dsimp only
    rw [show ((Exec.step : Exec δ μ (Mnemonic × Nat)).run core).1.1 = .rti from executes]
    rfl
  · have pointer : before.s - 1 - 1 - 1 + 1 + 1 + 1 = before.s := by grind
    rw [after, wordOf_littleEndian, regs]
    dsimp only
    rw [pointer]

end Interrupted

/-! ### Waiting -/

namespace Cpu

variable [Monitor μ]

/-- Ticks that count down or that the monitor refuses. In between the lines and the monitor may change,
but not the devices. -/
inductive Waits : Cpu → Board δ μ → Cpu → Board δ μ → Prop where
  | none (cpu : Cpu) (board : Board δ μ) : Waits cpu board cpu board
  | change {cpu cpu' : Cpu} {board board' board'' : Board δ μ} (waits : Waits cpu board cpu' board')
      (devices : board''.bus.devices = board'.bus.devices) : Waits cpu board cpu' board''
  | tick {cpu cpu' : Cpu} {board board' : Board δ μ} (waits : Waits cpu board cpu' board')
      (idle : cpu'.starts board' = Option.none) :
      Waits cpu board (cpu'.tick board').2.1 (cpu'.tick board').2.2

variable {cpu cpu' : Cpu} {board board' : Board δ μ}

theorem Waits.kept (waits : Waits cpu board cpu' board') :
    cpu'.regs = cpu.regs ∧ board'.bus.devices = board.bus.devices := by
  induction waits with
  | none => exact ⟨rfl, rfl⟩
  | change waits devices inductionHypothesis =>
    exact ⟨inductionHypothesis.1, devices.trans inductionHypothesis.2⟩
  | @tick waited _ board' waits idle inductionHypothesis =>
    have ticked := waited.ticked board'
    rw [idle] at ticked
    generalize waited.tick board' = after at ticked
    cases ticked with
    | counted busy => exact inductionHypothesis
    | refused idle halts => exact inductionHypothesis

/-- Whatever is under way comes to an end. -/
theorem waits_countdown (cpu : Cpu) (board : Board δ μ) :
    Waits cpu board { cpu with remaining := 0 } board := by
  suffices counted : ∀ count ≤ cpu.remaining,
      Waits cpu board { cpu with remaining := cpu.remaining - count } board by
    have all := counted cpu.remaining (Nat.le_refl _)
    rwa [Nat.sub_self] at all
  intro count most
  induction count with
  | zero => exact .none cpu board
  | succ count inductionHypothesis =>
    have left : cpu.remaining - count ≠ 0 := by omega
    have busy : ({ cpu with remaining := cpu.remaining - count } : Cpu).busy = true := bne_iff_ne.2 left
    have waits := (inductionHypothesis (Nat.le_of_succ_le most)).tick (if_pos busy)
    unfold tick at waits
    rw [if_pos left] at waits
    exact waits

/-- A tick that starts something, as far as registers and devices go. -/
theorem tick_of_starts {sequence : Sequence} (begins : cpu.starts board = some sequence) :
    ∃ (remaining : Nat) (asked : Board δ μ) (after : Core δ μ), asked.bus = board.bus ∧
      (Exec.start (board.bus.nmi && !cpu.lastNmi) : Exec δ μ (Sequence × Nat)).run ⟨cpu.regs, asked⟩ =
        ((sequence, remaining), after) ∧
      (cpu.tick board).2.1.regs = after.regs ∧ (cpu.tick board).2.2.bus.devices = after.devices := by
  have ticked := cpu.ticked board
  rw [begins] at ticked
  generalize cpu.tick board = ended at ticked
  cases ticked with
  | @started _ remaining after idle passes run =>
    refine ⟨remaining, _, after, Board.ask_bus _ _, run, rfl, ?_⟩
    rw [Board.askAfter_bus, Board.reportStatus_bus]
    rfl

/-- An interruption that is answered by a return is invisible. An NMI, an interrupt request or a `BRK` is
started where page one is memory and where the vector leads to an `RTI` that is not overwritten. Whatever
the request does, the next thing to be started is the `RTI`, provided that there is neither a reset
nor a new edge of the NMI line; and then all registers are what they were, but for the program counter
behind a `BRK`, and of memory nothing has changed but the three cells of the stack. -/
theorem interruption_invisible {ram : Block → δ} (isRam : IsRam ram)
    (page : ∀ address, 0x0100 ≤ address → address ≤ 0x01FF →
      ∃ value, Serves ram address value board.bus.devices)
    {sequence : Sequence} {vector : UInt16} {low high : UInt8}
    (begins : cpu.starts board = some sequence) (enters : sequence.vector? = some vector)
    (first : Retains vector low board.bus.devices)
    (second : Retains (vector + 1) high board.bus.devices)
    (handler : Retains (wordOf low high) 0x40 board.bus.devices)
    (apart : wordOf low high ∉ pushedCells cpu.regs.s)
    (waits : Waits (cpu.tick board).2.1 (cpu.tick board).2.2 cpu' board')
    (boundary : (cpu'.starts board').isSome = true) (reset : board'.bus.resetLine = false)
    (edge : board'.bus.nmi = true → cpu'.lastNmi = true) :
    cpu'.starts board' = some (.instruction .rti) ∧
    (cpu'.tick board').2.1.regs = { cpu.regs with pc := sequence.resumes cpu.regs.pc } ∧
    (∃ accesses : List Access, (∀ access ∈ accesses, access.Pushes cpu.regs.s) ∧
      (cpu'.tick board').2.2.bus.devices =
        board.bus.devices.map (accesses.foldl Device.after ·)) ∧
    ∀ address value, address ∉ pushedCells cpu.regs.s → Retains address value board.bus.devices →
      Retains address value (cpu'.tick board').2.2.bus.devices := by
  obtain ⟨_, asked, entered, bus, run, enteredRegs, enteredDevices⟩ := tick_of_starts begins
  obtain ⟨waitedRegs, waitedDevices⟩ := waits.kept
  rw [← bus] at page first second handler
  let core : Core δ μ := ⟨cpu.regs, asked⟩
  have cells (s : UInt8) : ∃ value, Serves ram (stackCell s) value core.devices := by
    obtain ⟨above, below⟩ := exists_stackCell_iff.1 ⟨s, rfl⟩
    exact page _ above below
  obtain ⟨later, begins'⟩ := Option.isSome_iff_exists.1 boundary
  obtain ⟨remaining, asked', left, bus', run', leftRegs, leftDevices⟩ := tick_of_starts begins'
  let waited : Core δ μ := ⟨cpu'.regs, asked'⟩
  have interrupted : Interrupted ram core.regs (sequence.resumes core.regs.pc) entered ∧
      core.Shows (Access.Pushes core.regs.s) entered :=
    Interrupted.of_start isRam cells run enters first second handler apart
  have same : waited.devices = entered.devices := by
    change asked'.bus.devices = _
    rw [bus', waitedDevices, enteredDevices]
  have waiting : Interrupted ram core.regs (sequence.resumes core.regs.pc) waited :=
    interrupted.1.congr (waitedRegs.trans enteredRegs) same
  obtain ⟨_, started, reads, regs⟩ := waiting.start isRam (bus' ▸ reset)
  have quiet : (board'.bus.nmi && !cpu'.lastNmi) = false := by
    rw [Bool.and_eq_false_imp, Bool.not_eq_false']
    exact edge
  rw [quiet, started] at run'
  cases run'
  have shown : core.Shows (Access.Pushes core.regs.s) waited.next :=
    interrupted.2.trans (.trans (.still same) (reads.mono fun _ => (Access.IsRead.pushes · core.regs.s)))
  refine ⟨begins', leftRegs.trans regs, ?_, fun address value apart' retains => ?_⟩
  · obtain ⟨accesses, permitted, devices⟩ := shown
    refine ⟨accesses, permitted, ?_⟩
    rw [leftDevices, devices, ← bus]
    rfl
  · rw [leftDevices]
    rw [← bus] at retains
    exact Retains.pushed apart' shown retains

/-- The request stays up all the time, and the stack wraps within page one. -/
theorem interruption_invisible_wrapping :
    let page : Block := .empty ⟨0x0100, 0x01FF, by decide⟩
    let span : Span := ⟨0xFFFD, 0xFFFF, by decide⟩
    let rom : Block := ⟨span, Block.fill (.replicate _ 0) 0 [0x40, 0xFD, 0xFF]⟩
    let board : Board Peripheral Silent :=
      { bus := { devices := [.ram page, .rom rom], irqLine := true }, monitor := .silent }
    let cpu : Cpu := { regs := { pc := 0x1234, a := 0x56, s := 0x01, p := ⟨0x83⟩ } }
    let entered : Cpu := { (cpu.tick board).2.1 with remaining := 0 }
    let left := entered.tick (cpu.tick board).2.2
    cpu.starts board = some .irq ∧ entered.regs.pc = 0xFFFD ∧ entered.regs.s = 0xFE ∧
    entered.starts (cpu.tick board).2.2 = some (.instruction .rti) ∧ left.2.1.regs = cpu.regs ∧
    Retains 0x0102 0x00 left.2.2.bus.devices := by
  intro page span rom board cpu entered left
  have quiet (address : UInt16) (below : address ≤ 0x01FF) :
      ∀ device ∈ [Peripheral.rom rom], Device.Quiet address device := by
    intro device member
    rw [List.mem_singleton.1 member]
    refine Peripheral.quiet_of_read (rom.get?_eq_none_of_outside fun inside => ?_)
    exact absurd (UInt16.le_trans inside.1 below) (by decide)
  have claimed : ∀ address, 0x0100 ≤ address → address ≤ 0x01FF →
      ∃ value, Serves Peripheral.ram address value board.bus.devices := by
    intro address low high
    have within : page.span.first ≤ address ∧ address ≤ page.span.last := ⟨low, high⟩
    obtain ⟨value, held⟩ := page.exists_get?_of_mem within.1 within.2
    exact ⟨value, .here held (quiet address high)⟩
  have begins : cpu.starts board = some .irq := by decide +kernel
  have boundary : (entered.starts (cpu.tick board).2.2).isSome = true := by decide +kernel
  have retained (address : UInt16) (value : UInt8) (held : rom.get? address = some value) :
      Retains address value board.bus.devices := Peripheral.retains_rom held [.ram page]
  have low : Retains 0xFFFE 0xFD board.bus.devices := retained _ _ (by decide +kernel)
  have high : Retains (0xFFFE + 1) 0xFF board.bus.devices := retained _ _ (by decide +kernel)
  have handler : Retains 0xFFFD 0x40 board.bus.devices := retained _ _ (by decide +kernel)
  obtain ⟨returns, regs, -, kept⟩ := interruption_invisible Peripheral.isRam claimed begins rfl low high
    handler (by decide) (waits_countdown _ _) boundary (by decide +kernel) (by decide +kernel)
  have untouched : Serves Peripheral.ram 0x0102 0x00 board.bus.devices :=
    .here (by decide +kernel) (quiet _ (by decide))
  exact ⟨begins, by decide +kernel, by decide +kernel, returns, regs,
    kept _ _ (by decide) (untouched.retains Peripheral.isRam)⟩

end Cpu
end Micro65
