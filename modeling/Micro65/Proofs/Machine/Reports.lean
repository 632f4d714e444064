import Micro65.Machine.Basic
import Micro65.Devices.Peripheral
import Micro65.Proofs.Cpu.Ticks
import Micro65.Proofs.Monitor.Snapshot

set_option autoImplicit false

/-!
The registers as a monitor reports them. Whatever a tick has done to the registers, it ends in a report of
all of them; a tick that only counts down and a tick that is refused leave registers and snapshot alone.
So from powerup on the snapshot is never out of date.
-/

namespace Micro65

variable {δ μ : Type}

/-- A kind of monitor that keeps what it is told of the registers, and changes it for nothing else. -/
structure KeepsSnapshot [Monitor μ] (latest : μ → Snapshot) : Prop where
  ask : ∀ monitor query, latest (Monitor.ask monitor query).monitor = latest monitor
  tell : ∀ monitor report, latest (Monitor.tell monitor report).1 = (latest monitor).record report

theorem Trace.keepsSnapshot : KeepsSnapshot Trace.latest where
  ask _ _ := rfl
  tell monitor report := by cases report <;> rfl

theorem Console.keepsSnapshot : KeepsSnapshot Console.latest where
  ask console query := by
    cases query with
    | nextInstruction pc =>
      change (console.visit pc).monitor.latest = console.latest
      unfold Console.visit
      dsimp only
      split <;> rfl
    | _ => rfl
  tell console report := by
    cases report with
    | write address data =>
      change (console.tell (.write address data)).1.latest = console.latest
      unfold Console.tell
      dsimp only
      split <;> rfl
    | _ => rfl

namespace Board

variable [Monitor μ] {latest : μ → Snapshot} (board : Board δ μ)

theorem latest_ask (keeps : KeepsSnapshot latest) (query : Query) :
    latest (board.ask query).2.monitor = latest board.monitor := keeps.ask _ _

theorem latest_tellAll (keeps : KeepsSnapshot latest) (reports : List Report) :
    latest (board.tellAll reports).monitor = reports.foldl Snapshot.record (latest board.monitor) := by
  induction reports generalizing board with
  | nil => rfl
  | cons report rest inductionHypothesis =>
    refine (inductionHypothesis (board.tell report)).trans ?_
    rw [List.foldl_cons]
    exact congrArg (rest.foldl Snapshot.record) (keeps.tell _ _)

theorem latest_askAfter (keeps : KeepsSnapshot latest) (sequence : Sequence) :
    latest (board.askAfter sequence).2.monitor = latest board.monitor :=
  askAfter_keeps (motive := fun asked => latest asked.monitor = latest board.monitor)
    (fun asked query kept => (asked.latest_ask keeps query).trans kept) rfl sequence

/-- A report of the status leaves nothing in the snapshot that is out of date. -/
theorem shows_reportStatus [Device δ] (keeps : KeepsSnapshot latest) (regs : Registers) :
    (latest (board.reportStatus regs).monitor).Shows regs := by
  rw [reportStatus, board.latest_tellAll keeps]
  exact Snapshot.shows_record_statusReports _ _ _

end Board

namespace Machine

variable [Device δ] [Monitor μ] {latest : μ → Snapshot}

/-- What machines come to from powerup on: ticks in any number and further reports of the status, and in
between everything that leaves the processor and the snapshot alone, whatever it does to the lines, to
the devices and to what the monitor halts on. -/
inductive Reached (latest : μ → Snapshot) : Machine δ μ → Prop where
  | powerup (machine : Machine δ μ) : Reached latest machine.powerup.2
  | tick {machine : Machine δ μ} (reached : Reached latest machine) : Reached latest machine.tick.2
  | report {machine : Machine δ μ} (reached : Reached latest machine) :
      Reached latest machine.reportStatus
  | outside {machine : Machine δ μ} (reached : Reached latest machine) (board : Board δ μ)
      (kept : latest board.monitor = latest machine.board.monitor) :
      Reached latest { machine with board }

theorem Reached.mapBus {machine : Machine δ μ} (reached : Reached latest machine)
    (change : Bus δ → Bus δ) : Reached latest (machine.mapBus change) :=
  .outside reached (machine.mapBus change).board rfl

/-- The snapshot has the registers of the processor. -/
def Reported (latest : μ → Snapshot) (machine : Machine δ μ) : Prop :=
  (latest machine.board.monitor).Shows machine.cpu.regs

variable {machine : Machine δ μ}

theorem reported_powerup (keeps : KeepsSnapshot latest) (machine : Machine δ μ) :
    machine.powerup.2.Reported latest := by
  let found := machine.mapBus Bus.powerup
  let up := found.cpu.powerup found.board
  change (latest ((up.2.reportStatus up.1.regs).ask .started).2.monitor).Shows up.1.regs
  rw [Board.latest_ask _ keeps]
  exact up.2.shows_reportStatus keeps up.1.regs

theorem Reported.tick (keeps : KeepsSnapshot latest) (reported : machine.Reported latest) :
    machine.tick.2.Reported latest := by
  have ticked := machine.cpu.ticked (machine.mapBus Bus.tick).board
  have before : (latest (machine.mapBus Bus.tick).board.monitor).Shows machine.cpu.regs := reported
  change (latest (machine.cpu.tick (machine.mapBus Bus.tick).board).2.2.monitor).Shows
    (machine.cpu.tick (machine.mapBus Bus.tick).board).2.1.regs
  generalize (machine.mapBus Bus.tick).board = board at ticked before
  generalize machine.cpu.starts board = starts, machine.cpu.tick board = after at ticked
  cases ticked with
  | counted busy => exact before
  | refused idle halts =>
    dsimp only
    rwa [Board.latest_ask _ keeps]
  | @started sequence _ after idle passes run =>
    dsimp only
    rw [Board.latest_askAfter _ keeps]
    exact after.board.shows_reportStatus keeps after.regs

theorem Reached.reported (keeps : KeepsSnapshot latest) (reached : machine.Reached latest) :
    machine.Reported latest := by
  induction reached with
  | powerup machine => exact reported_powerup keeps machine
  | tick reached inductionHypothesis => exact inductionHypothesis.tick keeps
  | report reached inductionHypothesis => exact Board.shows_reportStatus _ keeps _
  | outside reached board kept inductionHypothesis =>
    rw [Reported, kept]
    exact inductionHypothesis

/-- After powerup and any number of ticks, the latest snapshot of a trace and of a console has exactly the
registers and flags of the processor. The registers that a trace gives back are those of the processor
with bit 5 of the status cleared. -/
theorem snapshot_shows_registers :
    (∀ machine : Machine δ Trace, machine.Reached Trace.latest →
      machine.board.monitor.latest.Shows machine.cpu.regs ∧
      machine.board.monitor.registers =
        { machine.cpu.regs with p := ⟨machine.cpu.regs.p.byte &&& ~~~0x20⟩ }) ∧
    (∀ machine : Machine δ Console, machine.Reached Console.latest →
      machine.board.monitor.latest.Shows machine.cpu.regs) := by
  refine ⟨fun machine reached => ?_, fun machine reached => reached.reported Console.keepsSnapshot⟩
  have shown := reached.reported Trace.keepsSnapshot
  exact ⟨shown, shown.registers_eq⟩

/-- A `PLP` that pulls all ones from an empty link, with a request on the line: the trace does not see
bit 5. The same under a console that refuses the first tick and sees the `PLP` in the second one. -/
theorem snapshot_shows_registers_pulled :
    let memory : List Peripheral :=
      [.rom ⟨⟨0x0000, 0x0000, by decide⟩, #v[0x28]⟩, .serial { tx := 0x0200, rx := 0x0100 }]
    let traced : Machine Peripheral Trace := { board := { bus := { devices := memory }, monitor := {} } }
    let watched : Machine Peripheral Console :=
      { board := { bus := { devices := memory }, monitor := { breakpoints := [0x0000] } } }
    let pulled := (traced.powerup.2.mapBus LineAction.irq.apply).tick.2
    let passed := watched.powerup.2.tick.2.tick.2.tick.2
    pulled.Reached Trace.latest ∧ pulled.cpu.regs.p = ⟨0xFF⟩ ∧
      pulled.board.monitor.latest.Shows pulled.cpu.regs ∧ pulled.board.monitor.registers.p = ⟨0xDF⟩ ∧
      passed.Reached Console.latest ∧ passed.cpu.regs.p = ⟨0xFF⟩ ∧
      passed.board.monitor.latest.Shows passed.cpu.regs := by
  intro memory traced watched pulled passed
  have reached : pulled.Reached Trace.latest := ((Reached.powerup traced).mapBus _).tick
  have reached' : passed.Reached Console.latest := .tick (.tick (.tick (.powerup watched)))
  have ones : pulled.cpu.regs.p = ⟨0xFF⟩ := by decide +kernel
  have ones' : passed.cpu.regs.p = ⟨0xFF⟩ := by decide +kernel
  obtain ⟨trace, console⟩ := snapshot_shows_registers (δ := Peripheral)
  obtain ⟨shown, registers⟩ := trace pulled reached
  refine ⟨reached, ones, shown, ?_, reached', ones', console passed reached'⟩
  rw [registers, ones]
  rfl

end Machine
end Micro65
