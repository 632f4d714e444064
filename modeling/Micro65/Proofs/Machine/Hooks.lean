import Mathlib.Data.List.Forall2
import Micro65.Devices.Peripheral
import Micro65.Proofs.Cpu.Writes

set_option autoImplicit false

/-!
What a trace records of a run. Each tick leaves one group of events, which its own mark closes: nothing
else while a sequence is under way, and otherwise the question before the sequence, the writes of the
sequence in the order in which the devices were shown them, and the question after it.
-/

namespace Micro65

/-- The questions after a sequence, under a trace that halts on `BRK` or not. -/
def Sequence.questions (breaks : Bool) : Sequence → List Event
  | .reset => [.asked .reset]
  | .nmi => [.asked .nmi]
  | .irq => [.asked .irq]
  | .instruction .brk => .asked .brk :: if breaks then [] else [.asked .afterInstruction]
  | .instruction _ => [.asked .afterInstruction]

namespace Board

variable {δ : Type}

theorem events_ask (board : Board δ Trace) (query : Query) :
    (board.ask query).2.monitor.events = board.monitor.events ++ [.asked query] :=
  Trace.events_push _ _

theorem events_askAfter (board : Board δ Trace) (sequence : Sequence) :
    (board.askAfter sequence).2.monitor.events =
      board.monitor.events ++ sequence.questions board.monitor.flags.brk := by
  cases sequence with
  | instruction kind =>
    cases kind with
    | brk =>
      unfold askAfter
      dsimp only
      cases breaks : board.monitor.flags.brk with
      | true =>
        rw [show board.ask .brk = (true, (board.ask .brk).2) from Prod.ext breaks rfl]
        exact board.events_ask .brk
      | false =>
        rw [show board.ask .brk = (false, (board.ask .brk).2) from Prod.ext breaks rfl]
        dsimp only
        rw [events_ask, events_ask, List.append_assoc]
        rfl
    | _ => exact board.events_ask _
  | _ => exact board.events_ask _

/-- A trace keeps reports of registers and lines in its snapshot, and nowhere else. -/
theorem events_tellAll (board : Board δ Trace) {reports : List Report}
    (quiet : ∀ address data, .write address data ∉ reports) :
    (board.tellAll reports).monitor.events = board.monitor.events ∧
      (board.tellAll reports).monitor.flags = board.monitor.flags := by
  induction reports generalizing board with
  | nil => exact ⟨rfl, rfl⟩
  | cons report rest inductionHypothesis =>
    have later := inductionHypothesis (board.tell report) fun address data member =>
      quiet address data (List.mem_cons_of_mem _ member)
    cases report with
    | write address data => exact absurd List.mem_cons_self (quiet address data)
    | _ => exact later

theorem events_reportStatus [Device δ] (board : Board δ Trace) (regs : Registers) :
    (board.reportStatus regs).monitor.events = board.monitor.events ∧
      (board.reportStatus regs).monitor.flags = board.monitor.flags :=
  board.events_tellAll fun address data => by simp [statusReports]

end Board

variable {δ μ : Type} [Device δ] [Monitor μ]

namespace Machine

/-- The machine with what is scheduled before a tick. -/
def scheduled (schedule : Schedule) (time : Nat) (machine : Machine δ μ) : Machine δ μ :=
  match schedule.get? time with
  | some action => machine.mapBus action.apply
  | none => machine

/-- The machines that the ticks of a run find. -/
def found (schedule : Schedule) (time : Nat) : Nat → Machine δ μ → List (Machine δ μ)
  | 0, _ => []
  | count + 1, machine =>
    machine.scheduled schedule time ::
      match machine.runTick schedule time with
      | (true, _) => []
      | (false, machine) => found schedule (time + 1) count machine

/-- The events of one tick, from the machine that it finds. -/
inductive TickEvents (machine : Machine δ Trace) : List Event → Prop where
  | counted (busy : machine.cpu.busy = true) : TickEvents machine [.tick]
  | started {sequence : Sequence} {writes : List (UInt16 × UInt8)} (idle : machine.cpu.busy = false)
      (starts : machine.cpu.starts (machine.mapBus Bus.tick).board = some sequence)
      (few : writes.length ≤ 3) (three : sequence.masks = true → writes.length = 3)
      (shown : ∃ accesses : List Access, accesses.filterMap Access.write? = writes ∧
        machine.tick.2.board.bus.devices =
          machine.board.bus.devices.map fun device => accesses.foldl Device.after (Device.tick device)) :
      TickEvents machine (.asked (.nextInstruction machine.cpu.regs.pc) ::
        writes.flatMap Event.ofWrite ++ sequence.questions machine.board.monitor.flags.brk ++ [.tick])

theorem tick_recorded (machine : Machine δ Trace) : ∃ events,
    machine.TickEvents (events ++ [.tick]) ∧
      machine.tick.2.board.monitor.events = machine.board.monitor.events ++ events := by
  rw [tick_snd]
  have ticked := machine.cpu.ticked (machine.mapBus Bus.tick).board
  generalize starts : machine.cpu.starts (machine.mapBus Bus.tick).board = begun,
    tick : machine.cpu.tick (machine.mapBus Bus.tick).board = ended at ticked
  cases ticked with
  | counted busy => exact ⟨[], .counted busy, (List.append_nil _).symm⟩
  | refused idle halts => exact absurd halts Bool.false_ne_true
  | @started sequence remaining after idle passes run =>
    obtain ⟨made, few, three, wrote⟩ := Exec.start_recorded
      ((machine.mapBus Bus.tick).board.bus.nmi && !machine.cpu.lastNmi)
      ⟨machine.cpu.regs,
        ((machine.mapBus Bus.tick).board.ask (.nextInstruction machine.cpu.regs.pc)).2⟩
    rw [run] at three wrote
    obtain ⟨⟨accesses, writes, shown⟩, events, flags⟩ := wrote
    obtain ⟨told, flags'⟩ := after.board.events_reportStatus after.regs
    refine ⟨_, .started idle starts few three ⟨accesses, writes, ?_⟩, ?_⟩
    · rw [tick_snd, tick]
      dsimp only
      rw [Board.askAfter_bus, Board.reportStatus_bus, shown, Board.ask_bus]
      exact List.map_map
    · dsimp only at events flags ⊢
      rw [Board.events_askAfter, told, flags', events, flags, Board.events_ask]
      rw [List.append_assoc, List.append_assoc]
      rfl

/-- A tick of a run records one group, which the monitor's own tick closes. -/
theorem runTick_recorded (schedule : Schedule) (time : Nat) (machine : Machine δ Trace) :
    ∃ group, (machine.scheduled schedule time).TickEvents group ∧
      (machine.runTick schedule time).2.board.monitor.events = machine.board.monitor.events ++ group := by
  obtain ⟨events, ticks, recorded⟩ := (machine.scheduled schedule time).tick_recorded
  have before : (machine.scheduled schedule time).board.monitor = machine.board.monitor := by
    unfold scheduled
    split <;> rfl
  refine ⟨events ++ [.tick], ticks, ?_⟩
  rw [before] at recorded
  rw [← List.append_assoc, ← recorded]
  exact Trace.events_push _ _

theorem runFrom_recorded (schedule : Schedule) (time count : Nat) (machine : Machine δ Trace) :
    let run := machine.runFrom schedule time count
    ∃ groups, List.Forall₂ TickEvents (machine.found schedule time count) groups ∧
      run.machine.board.monitor.events = machine.board.monitor.events ++ groups.flatten ∧
      run.time = time + groups.length := by
  induction count generalizing time machine with
  | zero => exact ⟨[], .nil, (List.append_nil _).symm, rfl⟩
  | succ count inductionHypothesis =>
    obtain ⟨group, ticks, recorded⟩ := machine.runTick_recorded schedule time
    unfold runFrom found
    cases next : machine.runTick schedule time with
    | mk halted after =>
    rw [next] at recorded
    dsimp only at recorded
    cases halted with
    | true => exact ⟨[group], .cons ticks .nil, by rw [recorded, List.flatten_singleton], rfl⟩
    | false =>
      obtain ⟨groups, later, further, counted⟩ := inductionHypothesis (time + 1) after
      refine ⟨group :: groups, .cons ticks later, ?_, ?_⟩
      · rw [further, recorded, List.append_assoc, List.flatten_cons]
      · rw [counted, List.length_cons, Nat.add_assoc, Nat.add_comm 1]

/-- What is recorded in a run, whatever its limit and its schedule, is one group of events for each of
its ticks, in their order: a group has the form that the machine found by its tick gives it. -/
theorem run_hooks (limit : Option Nat) (schedule : Schedule) (machine : Machine δ Trace) :
    let run := machine.run limit schedule
    let found := machine.found schedule 0 (limit.getD tickLimit)
    ∃ groups, List.Forall₂ TickEvents found groups ∧ groups.length = run.time ∧
      run.machine.board.monitor.events = machine.board.monitor.events ++ groups.flatten := by
  obtain ⟨groups, ticks, recorded, time⟩ :=
    machine.runFrom_recorded schedule 0 (limit.getD tickLimit)
  exact ⟨groups, ticks, (time.trans (Nat.zero_add _)).symm, recorded⟩

example :
    let machine : Machine Peripheral Trace := { board := { bus := {}, monitor := {} } }
    (machine.powerup.2.run (some 2) {}).machine.board.monitor.events =
      [.asked .started, .asked (.nextInstruction 0x0000),
        .write 0x01FF 0x00, .asked (.addressChanged 0x01FF),
        .write 0x01FE 0x02, .asked (.addressChanged 0x01FE),
        .write 0x01FD 0x04, .asked (.addressChanged 0x01FD),
        .asked .brk, .asked .afterInstruction, .tick, .tick] := by
  decide +kernel

end Machine
end Micro65
