import Micro65.Proofs.Bus.Accesses
import Micro65.Proofs.Cpu.Step

set_option autoImplicit false

/-!
The stack of the processor. Page one, read from the cell above the stack pointer up, is a stack of bytes:
whatever is pushed comes off again in reverse order, for every stack pointer to start with and up to the
full page. A subroutine that leaves the stack as it found it returns behind the instruction that called
it.
-/

namespace Micro65

/-! ### The page -/

theorem toNat_stackCell (s : UInt8) : (stackCell s).toNat = 0x100 + s.toNat := by
  have joined := Nat.two_pow_add_eq_or_of_lt (i := 8) s.toNat_lt 1
  rw [stackCell, UInt16.toNat_or, UInt8.toNat_toUInt16]
  exact joined.symm

theorem stackCell_inj {s other : UInt8} : stackCell s = stackCell other ↔ s = other := by
  rw [← UInt16.toNat_inj, toNat_stackCell, toNat_stackCell, Nat.add_left_cancel_iff, UInt8.toNat_inj]

/-- The cells of the stack are the addresses of page one. -/
theorem exists_stackCell_iff {address : UInt16} :
    (∃ s, stackCell s = address) ↔ 0x0100 ≤ address ∧ address ≤ 0x01FF := by
  rw [UInt16.le_iff_toNat_le, UInt16.le_iff_toNat_le]
  change _ ↔ 256 ≤ _ ∧ _ ≤ 511
  constructor
  · rintro ⟨s, rfl⟩
    have bound := s.toNat_lt
    rw [toNat_stackCell]
    omega
  · rintro ⟨low, high⟩
    refine ⟨UInt8.ofNat (address.toNat - 256), ?_⟩
    rw [← UInt16.toNat_inj, toNat_stackCell, UInt8.toNat_ofNat']
    omega

/-! ### The abstract stack -/

inductive StackOp where
  | push (value : UInt8)
  | pull
  | pushWord (value : UInt16)
  | pullWord
  deriving DecidableEq, Repr

inductive StackAnswer where
  | done
  | byte (value : UInt8)
  | word (value : UInt16)
  deriving DecidableEq, Repr

namespace StackOp

/-- What an operation answers and leaves of a stack of bytes, the top first; `none` where there would be
fewer than none or more than 256. -/
def outcome? : StackOp → List UInt8 → Option (StackAnswer × List UInt8)
  | push value, stack => if stack.length < 256 then some (.done, value :: stack) else none
  | pull, [] => none
  | pull, value :: rest => some (.byte value, rest)
  | pushWord value, stack =>
    if stack.length + 2 ≤ 256 then some (.done, littleEndian value ++ stack) else none
  | pullWord, [] | pullWord, [_] => none
  | pullWord, low :: high :: rest => some (.word (wordOf low high), rest)

/-- What the processor does for it. -/
def action {δ μ : Type} [Device δ] [Monitor μ] : StackOp → Exec δ μ StackAnswer
  | push value => do Exec.push value; return .done
  | pull => do return .byte (← Exec.pull)
  | pushWord value => do Exec.pushWord value; return .done
  | pullWord => do return .word (← Exec.pullWord)

end StackOp

variable {δ μ : Type}

/-! ### What the devices are shown -/

def Access.IsRead : Access → Prop
  | .read _ => True
  | .write _ _ => False

/-- The access is a read, or a write to page one. -/
def Access.OnStack : Access → Prop
  | .read _ => True
  | .write address _ => 0x0100 ≤ address ∧ address ≤ 0x01FF

theorem Access.IsRead.onStack {access : Access} (isRead : access.IsRead) : access.OnStack := by
  cases access with
  | read address => trivial
  | write address data => exact isRead.elim

namespace Core

def devices (core : Core δ μ) : List δ := core.board.bus.devices

variable [Device δ] {allowed : Access → Prop} {core middle other : Core δ μ}

/-- From one core to the other the devices have been shown accesses of a kind, and nothing else has been
done to them. -/
def Shows (allowed : Access → Prop) (core other : Core δ μ) : Prop :=
  ∃ accesses : List Access, (∀ access ∈ accesses, allowed access) ∧
    other.devices = core.devices.map (accesses.foldl Device.after ·)

theorem Shows.trans (first : Shows allowed core middle) (second : Shows allowed middle other) :
    Shows allowed core other := by
  obtain ⟨accesses, permitted, shown⟩ := first
  obtain ⟨later, permitted', shown'⟩ := second
  refine ⟨accesses ++ later, fun access member => ?_, ?_⟩
  · rcases List.mem_append.1 member with member | member
    · exact permitted access member
    · exact permitted' access member
  · rw [shown', shown, List.map_map]
    exact List.map_congr_left fun device _ => (List.foldl_append ..).symm

theorem Shows.mono {wider : Access → Prop} (included : ∀ access, allowed access → wider access)
    (shows' : Shows allowed core other) : Shows wider core other := by
  obtain ⟨accesses, permitted, shown⟩ := shows'
  exact ⟨accesses, fun access member => included access (permitted access member), shown⟩

theorem Shows.single (access : Access) (permitted : allowed access)
    (shown : other.devices = core.devices.map (Device.after · access)) : Shows allowed core other :=
  ⟨[access], by simpa using permitted, shown⟩

/-- Whatever is read, memory keeps its bytes. -/
theorem Shows.serves {ram : Block → δ} (isRam : IsRam ram) (shows' : Shows Access.IsRead core other)
    {address : UInt16} {value : UInt8} (serves : Serves ram address value core.devices) :
    Serves ram address value other.devices := by
  obtain ⟨accesses, reads, shown⟩ := shows'
  rw [shown]
  generalize core.devices = devices at serves
  clear shown
  induction accesses generalizing devices with
  | nil => rwa [show (fun device : δ => List.foldl Device.after device []) = id from rfl, List.map_id]
  | cons access rest inductionHypothesis =>
    rw [List.forall_mem_cons] at reads
    cases access with
    | write => exact reads.1.elim
    | read address =>
      have after := inductionHypothesis reads.2 _ (serves.after_read isRam address)
      rwa [List.map_map] at after

end Core

namespace Exec

variable [Device δ] (core : Core δ μ)

/-! Reads -/

theorem read_devices (address : UInt16) :
    ((read address : Exec δ μ UInt8).run core).2.devices =
      core.devices.map (Device.after · (.read address)) :=
  Bus.readDevices_snd address core.devices

theorem read_answer {ram : Block → δ} (isRam : IsRam ram) {address : UInt16} {value : UInt8}
    (serves : Serves ram address value core.devices) :
    ((read address : Exec δ μ UInt8).run core).1 = value :=
  congrArg (Option.getD · 0x00) (serves.answer isRam)

theorem fetch_regs : ((fetch : Exec δ μ UInt8).run core).2.regs =
    { core.regs with pc := core.regs.pc + 1 } := rfl

theorem fetch_reads : core.Shows Access.IsRead ((fetch : Exec δ μ UInt8).run core).2 :=
  .single (.read core.regs.pc) trivial (read_devices core core.regs.pc)

theorem fetchWord_regs : ((fetchWord : Exec δ μ UInt16).run core).2.regs =
    { core.regs with pc := core.regs.pc + 1 + 1 } := rfl

theorem fetchWord_reads : core.Shows Access.IsRead ((fetchWord : Exec δ μ UInt16).run core).2 :=
  (fetch_reads core).trans (fetch_reads _)

theorem pull_s : ((pull : Exec δ μ UInt8).run core).2.regs.s = core.regs.s + 1 := rfl

theorem pull_devices :
    ((pull : Exec δ μ UInt8).run core).2.devices =
      core.devices.map (Device.after · (.read (stackCell (core.regs.s + 1)))) :=
  read_devices { core with regs := { core.regs with s := core.regs.s + 1 } } _

theorem pull_answer {ram : Block → δ} (isRam : IsRam ram) {value : UInt8}
    (serves : Serves ram (stackCell (core.regs.s + 1)) value core.devices) :
    ((pull : Exec δ μ UInt8).run core).1 = value :=
  read_answer { core with regs := { core.regs with s := core.regs.s + 1 } } isRam serves

theorem pull_onStack : core.Shows Access.OnStack ((pull : Exec δ μ UInt8).run core).2 :=
  .single (.read (stackCell (core.regs.s + 1))) trivial (pull_devices core)

theorem pullWord_onStack : core.Shows Access.OnStack ((pullWord : Exec δ μ UInt16).run core).2 :=
  (pull_onStack core).trans (pull_onStack _)

/-! Writes -/

variable [Monitor μ]

theorem push_s (value : UInt8) :
    ((push value : Exec δ μ Unit).run core).2.regs.s = core.regs.s - 1 := rfl

theorem push_devices (value : UInt8) :
    ((push value : Exec δ μ Unit).run core).2.devices =
      core.devices.map (Device.after · (.write (stackCell core.regs.s) value)) :=
  Bus.writeDevices_fst (stackCell core.regs.s) value core.devices

theorem push_onStack (value : UInt8) :
    core.Shows Access.OnStack ((push value : Exec δ μ Unit).run core).2 :=
  .single (.write (stackCell core.regs.s) value) (exists_stackCell_iff.1 ⟨_, rfl⟩)
    (push_devices core value)

theorem pushWord_onStack (value : UInt16) :
    core.Shows Access.OnStack ((pushWord value : Exec δ μ Unit).run core).2 :=
  (push_onStack core _).trans (push_onStack _ _)

end Exec

/-- Whatever happens between two stack operations, as long as it leaves page one and the stack pointer as
they are. -/
structure Core.Spares [Device δ] (ram : Block → δ) (core other : Core δ μ) : Prop where
  s : other.regs.s = core.regs.s
  page : ∀ s {value}, Serves ram (stackCell s) value core.devices →
    Serves ram (stackCell s) value other.devices

theorem Core.Shows.spares [Device δ] {ram : Block → δ} (isRam : IsRam ram) {core other : Core δ μ}
    (reads : core.Shows Access.IsRead other) (s : other.regs.s = core.regs.s) :
    core.Spares ram other :=
  ⟨s, fun _ _ serves => reads.serves isRam serves⟩

/-! ### The invariant -/

/-- The cells above the stack pointer hold an abstract stack, whose depth the pointer has gone down
from `base`. -/
structure Stacked [Device δ] (ram : Block → δ) (base : UInt8) (stack : List UInt8) (core : Core δ μ) :
    Prop where
  fits : stack.length ≤ 256
  pointer : core.regs.s = base - UInt8.ofNat stack.length
  claimed : ∀ s, ∃ value, Serves ram (stackCell s) value core.devices
  holds : ∀ depth value, stack[depth]? = some value →
    Serves ram (stackCell (core.regs.s + 1 + UInt8.ofNat depth)) value core.devices

namespace Stacked

variable [Device δ] {ram : Block → δ} {base : UInt8} {stack : List UInt8} {core : Core δ μ}

theorem pull (isRam : IsRam ram) {value : UInt8} (stacked : Stacked ram base (value :: stack) core) :
    ((Exec.pull : Exec δ μ UInt8).run core).1 = value ∧
      Stacked ram base stack ((Exec.pull : Exec δ μ UInt8).run core).2 := by
  obtain ⟨fits, pointer, claimed, holds⟩ := stacked
  rw [List.length_cons] at fits pointer
  refine ⟨Exec.pull_answer core isRam ?_, ?_⟩
  · have top := holds 0 value rfl
    rwa [show UInt8.ofNat 0 = 0 from rfl, UInt8.add_zero] at top
  · refine ⟨Nat.le_of_succ_le fits, ?_, fun s => ?_, fun depth found held => ?_⟩
    · rw [Exec.pull_s, pointer, UInt8.ofNat_add]
      grind
    · obtain ⟨found, serves⟩ := claimed s
      exact ⟨found, Exec.pull_devices core ▸ serves.after_read isRam _⟩
    · have serves := holds (depth + 1) found held
      rw [Exec.pull_s, Exec.pull_devices]
      refine Serves.after_read isRam ?_ _
      rwa [UInt8.ofNat_add, UInt8.add_comm (UInt8.ofNat depth), ← UInt8.add_assoc] at serves

theorem push [Monitor μ] (isRam : IsRam ram) (stacked : Stacked ram base stack core)
    (room : stack.length < 256) (value : UInt8) :
    Stacked ram base (value :: stack) ((Exec.push value : Exec δ μ Unit).run core).2 := by
  obtain ⟨fits, pointer, claimed, holds⟩ := stacked
  refine ⟨room, ?_, fun s => ?_, fun depth found held => ?_⟩
  · rw [Exec.push_s, pointer, List.length_cons, UInt8.ofNat_add]
    grind
  · obtain ⟨found, serves⟩ := claimed s
    exact ⟨_, Exec.push_devices core value ▸ serves.after_write isRam _ value⟩
  · rw [Exec.push_s, Exec.push_devices]
    cases depth with
    | zero =>
      rw [List.getElem?_cons_zero, Option.some.injEq] at held
      subst held
      obtain ⟨old, serves⟩ := claimed core.regs.s
      have written := serves.after_write isRam (stackCell core.regs.s) value
      rw [if_pos rfl] at written
      rwa [show UInt8.ofNat 0 = 0 from rfl, UInt8.add_zero, UInt8.sub_add_cancel]
    | succ depth =>
      rw [List.getElem?_cons_succ] at held
      -- The cell written is below all the others, even where the pointer has wrapped.
      have inside := (List.getElem?_eq_some_iff.1 held).1
      have below : stackCell (core.regs.s + 1 + UInt8.ofNat depth) ≠ stackCell core.regs.s := by
        rw [Ne, stackCell_inj, ← UInt8.toNat_inj, UInt8.toNat_add, UInt8.toNat_add,
          UInt8.toNat_ofNat']
        have bound := core.regs.s.toNat_lt
        change ¬((core.regs.s.toNat + 1) % 2 ^ 8 + depth % 2 ^ 8) % 2 ^ 8 = core.regs.s.toNat
        omega
      have serves := (holds depth found held).after_write isRam (stackCell core.regs.s) value
      rw [if_neg below] at serves
      rwa [UInt8.sub_add_cancel, UInt8.ofNat_add, UInt8.add_comm (UInt8.ofNat depth), ← UInt8.add_assoc]

theorem pullWord (isRam : IsRam ram) {low high : UInt8}
    (stacked : Stacked ram base (low :: high :: stack) core) :
    ((Exec.pullWord : Exec δ μ UInt16).run core).1 = wordOf low high ∧
      Stacked ram base stack ((Exec.pullWord : Exec δ μ UInt16).run core).2 := by
  obtain ⟨first, stacked⟩ := stacked.pull isRam
  obtain ⟨second, stacked⟩ := stacked.pull isRam
  rw [← first, ← second]
  exact ⟨rfl, stacked⟩

theorem pushWord [Monitor μ] (isRam : IsRam ram) (stacked : Stacked ram base stack core)
    (room : stack.length + 2 ≤ 256) (value : UInt16) :
    Stacked ram base (littleEndian value ++ stack)
      ((Exec.pushWord value : Exec δ μ Unit).run core).2 :=
  (stacked.push isRam (Nat.lt_of_succ_lt room) _).push isRam room _

/-- Only the stack pointer and the page matter. -/
theorem spare {other : Core δ μ} (stacked : Stacked ram base stack core)
    (spares : core.Spares ram other) : Stacked ram base stack other := by
  obtain ⟨fits, pointer, claimed, holds⟩ := stacked
  refine ⟨fits, spares.s.trans pointer, fun s => ?_, fun depth value held => ?_⟩
  · obtain ⟨value, serves⟩ := claimed s
    exact ⟨value, spares.page s serves⟩
  · rw [spares.s]
    exact spares.page _ (holds depth value held)

theorem action [Monitor μ] (isRam : IsRam ram) (stacked : Stacked ram base stack core) {op : StackOp}
    {answer : StackAnswer} {after : List UInt8} (yields : op.outcome? stack = some (answer, after)) :
    ((op.action : Exec δ μ StackAnswer).run core).1 = answer ∧
      Stacked ram base after ((op.action : Exec δ μ StackAnswer).run core).2 := by
  cases op with
  | push value =>
    rw [StackOp.outcome?, Option.ite_none_right_eq_some] at yields
    obtain ⟨room, ⟨⟩⟩ := yields
    exact ⟨rfl, stacked.push isRam room value⟩
  | pull =>
    rcases stack with _ | ⟨value, rest⟩
    · contradiction
    cases yields
    obtain ⟨same, stacked⟩ := stacked.pull isRam
    exact ⟨congrArg StackAnswer.byte same, stacked⟩
  | pushWord value =>
    rw [StackOp.outcome?, Option.ite_none_right_eq_some] at yields
    obtain ⟨room, ⟨⟩⟩ := yields
    exact ⟨rfl, stacked.pushWord isRam room value⟩
  | pullWord =>
    rcases stack with _ | ⟨low, _ | ⟨high, rest⟩⟩
    · contradiction
    · contradiction
    cases yields
    obtain ⟨same, stacked⟩ := stacked.pullWord isRam
    exact ⟨congrArg StackAnswer.word same, stacked⟩

end Stacked

/-! ### Subroutines -/

namespace Opcode

/-- Calls have one form, and so have returns. -/
theorem shape_of_subroutine : ∀ row ∈ table,
    (row.1.kind = .jsr → row.1 = ⟨.jsr, some .abs⟩) ∧ (row.1.kind = .rts → row.1 = ⟨.rts, none⟩) := by
  decide +kernel

end Opcode

variable [Device δ] [Monitor μ] {core : Core δ μ}

/-- What the step from a core runs. -/
def Core.Executes (core : Core δ μ) (kind : Mnemonic) : Prop :=
  ((Exec.step : Exec δ μ (Mnemonic × Nat)).run core).1.1 = kind

/-- What the step leaves. -/
def Core.next (core : Core δ μ) : Core δ μ := ((Exec.step : Exec δ μ (Mnemonic × Nat)).run core).2

namespace Exec

/-- What a step runs, but for undefined bytes, has been fetched as a shape of the opcode table. -/
theorem exists_fetched {kind : Mnemonic} (executes : core.Executes kind) (defined : kind ≠ .nop) :
    ∃ row ∈ Opcode.table, ∃ operation, row.1.kind = kind ∧ operation.shape = row.1 ∧
      (fetchOperation : Exec δ μ Operation).run core =
        (operation, ((fetch : Exec δ μ UInt8).run core).2) := by
  rw [Core.Executes, run_step_kind, run_fetchOperation] at executes
  rw [run_fetchOperation]
  generalize ((fetch : Exec δ μ UInt8).run core).1 = code at executes
  rw [Operation.ofCode?_eq] at executes ⊢
  cases decoded : Opcode.decode code with
  | none =>
    rw [decoded] at executes
    exact absurd executes.symm defined
  | some shape =>
    rw [decoded] at executes
    exact ⟨(shape, code), (Opcode.decode_eq_some_iff _ _).1 decoded, ⟨shape, shape.cycles⟩, executes,
      rfl, rfl⟩

/-- A call reads its three bytes, pushes the address of the last of them, and jumps. -/
theorem run_step_jsr (executes : core.Executes .jsr) :
    ∃ (found : Core δ μ) (target : UInt16),
      core.Shows Access.IsRead found ∧ found.regs = { core.regs with pc := core.regs.pc + 3 } ∧
      core.next =
        let pushed := ((pushWord (core.regs.pc + 2) : Exec δ μ Unit).run found).2
        { pushed with regs := { pushed.regs with pc := target } } := by
  obtain ⟨row, member, ⟨_, cycles⟩, kind, rfl, fetched⟩ := exists_fetched executes (by decide)
  rw [(Opcode.shape_of_subroutine row member).1 kind] at fetched
  let opened := ((fetch : Exec δ μ UInt8).run core).2
  let found := ((fetchWord : Exec δ μ UInt16).run opened).2
  have regs : found.regs = { core.regs with pc := core.regs.pc + 3 } := by
    rw [fetchWord_regs, fetch_regs]
    dsimp only
    rw [UInt16.add_assoc, UInt16.add_assoc]
    rfl
  refine ⟨found, ((fetchWord : Exec δ μ UInt16).run opened).1,
    (fetch_reads core).trans (fetchWord_reads opened), regs, ?_⟩
  have operand : (operandOf ⟨⟨.jsr, some .abs⟩, cycles⟩ : Exec δ μ (Place × Nat)).run opened =
      ((.memory ((fetchWord : Exec δ μ UInt16).run opened).1, 0), found) := rfl
  rw [Core.next, run_step rfl fetched operand]
  have behind : core.regs.pc + 2 = found.regs.pc - 1 := by
    rw [regs]
    dsimp only
    grind
  rw [behind]
  rfl

/-- A return pulls an address and jumps behind it. -/
theorem run_step_rts (executes : core.Executes .rts) :
    ∃ found : Core δ μ,
      core.Shows Access.IsRead found ∧ found.regs = { core.regs with pc := core.regs.pc + 1 } ∧
      core.next =
        let pulled := (pullWord : Exec δ μ UInt16).run found
        { pulled.2 with regs := { pulled.2.regs with pc := pulled.1 + 1 } } := by
  obtain ⟨row, member, ⟨_, cycles⟩, kind, rfl, fetched⟩ := exists_fetched executes (by decide)
  rw [(Opcode.shape_of_subroutine row member).2 kind] at fetched
  refine ⟨((fetch : Exec δ μ UInt8).run core).2, fetch_reads core, fetch_regs core, ?_⟩
  rw [Core.next, run_step rfl fetched (run_operandOf_none rfl _)]
  rfl

end Exec

/-! ### Runs -/

/-- What calls at these addresses have pushed, the latest call first. -/
def returnBytes (callers : List UInt16) : List UInt8 :=
  callers.flatMap fun caller => littleEndian (caller + 2)

/-- Stack operations, calls and returns in any order, as long as their bytes fit into the page, and
between them whatever leaves the page and the stack pointer alone; with the abstract stack that results
from an empty one. -/
inductive StackRun (ram : Block → δ) (start : Core δ μ) : List UInt8 → Core δ μ → Prop where
  | start : StackRun ram start [] start
  | op {stack after : List UInt8} {core : Core δ μ} {op : StackOp} {answer : StackAnswer}
      (run : StackRun ram start stack core) (yields : op.outcome? stack = some (answer, after)) :
      StackRun ram start after ((op.action : Exec δ μ StackAnswer).run core).2
  | call {stack : List UInt8} {core : Core δ μ} (run : StackRun ram start stack core)
      (jsr : core.Executes .jsr) (room : stack.length + 2 ≤ 256) :
      StackRun ram start (littleEndian (core.regs.pc + 2) ++ stack) core.next
  | ret {low high : UInt8} {stack : List UInt8} {core : Core δ μ}
      (run : StackRun ram start (low :: high :: stack) core) (rts : core.Executes .rts) :
      StackRun ram start stack core.next
  | spare {stack : List UInt8} {core other : Core δ μ} (run : StackRun ram start stack core)
      (spares : core.Spares ram other) : StackRun ram start stack other

namespace Stacked

variable {ram : Block → δ} {base : UInt8} {stack : List UInt8}

theorem call (isRam : IsRam ram) (stacked : Stacked ram base stack core) (jsr : core.Executes .jsr)
    (room : stack.length + 2 ≤ 256) :
    Stacked ram base (littleEndian (core.regs.pc + 2) ++ stack) core.next := by
  obtain ⟨found, target, reads, regs, after⟩ := Exec.run_step_jsr jsr
  have before := stacked.spare (reads.spares isRam (by rw [regs]))
  rw [after]
  exact (before.pushWord isRam room _).spare ⟨rfl, fun _ _ serves => serves⟩

theorem ret (isRam : IsRam ram) {low high : UInt8}
    (stacked : Stacked ram base (low :: high :: stack) core) (rts : core.Executes .rts) :
    core.next.regs.pc = wordOf low high + 1 ∧ Stacked ram base stack core.next := by
  obtain ⟨found, reads, regs, after⟩ := Exec.run_step_rts rts
  have before := stacked.spare (reads.spares isRam (by rw [regs]))
  obtain ⟨word, stacked⟩ := before.pullWord isRam
  rw [after]
  exact ⟨congrArg (· + 1) word, stacked.spare ⟨rfl, fun _ _ serves => serves⟩⟩

end Stacked

theorem Exec.action_onStack (core : Core δ μ) (op : StackOp) :
    core.Shows Access.OnStack ((op.action : Exec δ μ StackAnswer).run core).2 := by
  cases op with
  | push value => exact push_onStack core value
  | pull => exact pull_onStack core
  | pushWord value => exact pushWord_onStack core value
  | pullWord => exact pullWord_onStack core

theorem Exec.step_onStack (subroutine : core.Executes .jsr ∨ core.Executes .rts) :
    core.Shows Access.OnStack core.next := by
  rcases subroutine with jsr | rts
  · obtain ⟨found, target, reads, -, after⟩ := run_step_jsr jsr
    rw [after]
    exact (reads.mono fun _ => Access.IsRead.onStack).trans (pushWord_onStack found _)
  · obtain ⟨found, reads, -, after⟩ := run_step_rts rts
    rw [after]
    exact (reads.mono fun _ => Access.IsRead.onStack).trans (pullWord_onStack found)

namespace StackRun

variable {ram : Block → δ} {start : Core δ μ} {stack : List UInt8}

theorem stacked (isRam : IsRam ram)
    (claimed : ∀ address, 0x0100 ≤ address → address ≤ 0x01FF →
      ∃ value, Serves ram address value start.devices)
    (run : StackRun ram start stack core) : Stacked ram start.regs.s stack core := by
  induction run with
  | start =>
    refine ⟨Nat.zero_le _, (UInt8.sub_zero _).symm, fun s => ?_, nofun⟩
    obtain ⟨low, high⟩ := exists_stackCell_iff.1 ⟨s, rfl⟩
    exact claimed _ low high
  | op run yields inductionHypothesis => exact (inductionHypothesis.action isRam yields).2
  | call run jsr room inductionHypothesis => exact inductionHypothesis.call isRam jsr room
  | ret run rts inductionHypothesis => exact (inductionHypothesis.ret isRam rts).2
  | spare run spares inductionHypothesis => exact inductionHypothesis.spare spares

/-- The stack of the processor refines an abstract one, where memory is the last to claim page one. The
stack pointer has gone down by the depth; each operation answers what it answers on the abstract stack,
so that a word comes off as it was pushed; a return goes behind the latest call that has not returned;
and nothing is written outside the page. -/
theorem refines (isRam : IsRam ram)
    (claimed : ∀ address, 0x0100 ≤ address → address ≤ 0x01FF →
      ∃ value, Serves ram address value start.devices)
    (run : StackRun ram start stack core) :
    core.regs.s = start.regs.s - UInt8.ofNat stack.length ∧ stack.length ≤ 256 ∧
    (∀ (op : StackOp) answer after, op.outcome? stack = some (answer, after) →
      ((op.action : Exec δ μ StackAnswer).run core).1 = answer) ∧
    (∀ value rest, stack = littleEndian value ++ rest →
      ((Exec.pullWord : Exec δ μ UInt16).run core).1 = value) ∧
    (∀ caller callers rest, stack = returnBytes (caller :: callers) ++ rest → core.Executes .rts →
      core.next.regs.pc = caller + 3 ∧ StackRun ram start (returnBytes callers ++ rest) core.next) ∧
    (∀ op : StackOp, core.Shows Access.OnStack ((op.action : Exec δ μ StackAnswer).run core).2) ∧
    (core.Executes .jsr ∨ core.Executes .rts →
      core.Shows Access.OnStack core.next) := by
  have stacked := run.stacked isRam claimed
  refine ⟨stacked.pointer, stacked.fits, fun op answer after yields => (stacked.action isRam yields).1,
    ?_, ?_, Exec.action_onStack core, Exec.step_onStack⟩
  · rintro value rest rfl
    rw [(stacked.pullWord isRam).1, wordOf_littleEndian]
  · rintro caller callers rest rfl rts
    refine ⟨?_, .ret run rts⟩
    rw [(stacked.ret isRam rts).1, wordOf_littleEndian, UInt16.add_assoc]
    rfl

/-- Two nested calls from a stack pointer that wraps, with code in a ROM, and a serial link that was
attached after the memory of the stack: the inner call returns behind the outer one, and the next return
behind the first. -/
theorem refines_nested :
    let page : Block := .empty ⟨0x0100, 0x01FF, by decide⟩
    let rom : Span := ⟨0x0200, 0x0206, by decide⟩
    let code : Block := ⟨rom, Block.fill (.replicate _ 0) 0 [0x20, 0x03, 0x02, 0x20, 0x06, 0x02, 0x60]⟩
    let board : Board Peripheral Silent :=
      { bus := { devices := [.rom code, .ram page, .serial { tx := 0x8001, rx := 0x8000 }] },
        monitor := .silent }
    let core : Core Peripheral Silent := { regs := { pc := 0x0200, s := 0x01 }, board }
    let inner := core.next.next
    (∀ address, 0x0100 ≤ address → address ≤ 0x01FF →
      ∃ value, Serves Peripheral.ram address value core.devices) ∧
    StackRun Peripheral.ram core (returnBytes [0x0203, 0x0200] ++ []) inner ∧ inner.regs.s = 0xFD ∧
    inner.Executes .rts ∧ inner.next.regs.pc = 0x0206 ∧
    inner.next.Executes .rts ∧ inner.next.next.regs.pc = 0x0203 := by
  intro page rom code board core inner
  have claimed : ∀ address, 0x0100 ≤ address → address ≤ 0x01FF →
      ∃ value, Serves Peripheral.ram address value core.devices := by
    intro address low high
    have first : page.span.first = 0x0100 := rfl
    have last : page.span.last = 0x01FF := rfl
    obtain ⟨value, held⟩ := page.exists_get?_of_mem (first ▸ low) (last ▸ high)
    refine ⟨value, .later (.here held fun device member => ?_)⟩
    rw [List.mem_singleton.1 member]
    refine Peripheral.quiet_of_read ((Serial.read_eq_none_iff _ address).2 ?_)
    rintro rfl
    exact absurd high (by decide)
  have outer : core.Executes .jsr := by
    unfold Core.Executes
    decide +kernel
  have nested : core.next.Executes .jsr := by
    unfold Core.Executes
    decide +kernel
  have rts : inner.Executes .rts := by
    unfold Core.Executes
    decide +kernel
  have callers : littleEndian (core.next.regs.pc + 2) ++ (littleEndian (core.regs.pc + 2) ++ []) =
      returnBytes [0x0203, 0x0200] ++ [] := by decide +kernel
  have run : StackRun Peripheral.ram core (returnBytes [0x0203, 0x0200] ++ []) inner := by
    rw [← callers]
    exact .call (.call .start outer (by decide)) nested (by decide)
  obtain ⟨pointer, -, -, -, returns, -, -⟩ := refines Peripheral.isRam claimed run
  obtain ⟨behindInner, returned⟩ := returns 0x0203 [0x0200] [] rfl rts
  have rts' : inner.next.Executes .rts := by
    unfold Core.Executes
    decide +kernel
  obtain ⟨-, -, -, -, returns, -, -⟩ := refines Peripheral.isRam claimed returned
  obtain ⟨behindOuter, -⟩ := returns 0x0200 [] [] rfl rts'
  exact ⟨claimed, run, pointer.trans (by decide), rts, behindInner.trans (by decide), rts',
    behindOuter.trans (by decide)⟩

end StackRun

end Micro65
