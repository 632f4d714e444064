import Micro65.Asm.Layout.Encoding
import Micro65.Asm.Layout.Passes
import Micro65.Asm.Source

set_option autoImplicit false

/-!
Layout of a program. Every instruction starts anywhere in memory with the sizes that its kind allows.
Passes narrow the intervals of the labels until nothing changes; then modes are chosen and sizes
become exact, and further passes pin every address down. A layout that fails keeps what was done.
-/

namespace Micro65

/-- A layout in progress. -/
structure Layout where
  program : List Instruction
  labels : Labels := .empty
  /-- Operand and position of the last `START` line. -/
  start : Option (Expr × Position) := none
  /-- Passes that the last finished search for addresses took. -/
  addressPasses : Nat := 0
  /-- Passes that the last finished search for sizes took. -/
  sizePasses : Nat := 0
  /-- The label table is recorded after every pass. -/
  tracing : Bool := false
  trace : List Labels := []

/-- A stage of layout. A failure keeps the layout as it is by then. -/
abbrev Stage := ExceptT Diagnostic (StateM Layout)

/-- What a stage answers, and what it leaves of a layout. -/
def Stage.apply {α : Type} (stage : Stage α) (layout : Layout) : Except Diagnostic α × Layout :=
  stage.run.run layout

namespace Layout

def ofFiles (files : List SourceFile) : Layout :=
  { program := files.flatMap SourceFile.instructions }

/-- Forgets all that is known of the place of an instruction. -/
def unplaced (inst : Instruction) : Instruction :=
  let (lo, hi) := inst.kind.sizeRange
  { inst with
    addressRange := .unknown, sizeRange := ⟨lo, hi⟩, address := 0, size := 0, mode := none,
    param := none, bytes := [] }

/-- Labels and start of a program, which loses its `START` lines. A label that is defined twice stops
the search there. -/
def collect (labels : Labels) (start : Option (Expr × Position)) :
    List Instruction → Swept (Labels × Option (Expr × Position)) Instruction Diagnostic
  | [] => ⟨(labels, start), [], none⟩
  | inst :: rest =>
    if inst.kind = .start then
      collect labels (match inst.operand with
        | some operand => some (operand, inst.position)
        | none => start) rest
    else
      match inst.label with
      | none => keep inst (collect labels start rest)
      | some name =>
        match labels.insert name inst.position with
        | (_, some _) =>
          ⟨(labels, start), unplaced inst :: rest, some ⟨.duplicateLabel name, some inst.position⟩⟩
        | (labels, none) => keep inst (collect labels start rest)
where
  keep (inst : Instruction) (after : Swept (Labels × Option (Expr × Position)) Instruction Diagnostic) :
      Swept (Labels × Option (Expr × Position)) Instruction Diagnostic :=
    { after with items := unplaced inst :: after.items }

/-- Operands of a program and of its start, each with its position. -/
def operands (layout : Layout) : List (Expr × Position) :=
  (layout.program.filterMap fun inst => inst.operand.map fun operand => (operand, inst.position)) ++
    layout.start.toList

/-- The first label that is mentioned and not defined. -/
def undefined? (layout : Layout) : Option Diagnostic :=
  layout.operands.findSome? fun (operand, position) =>
    (operand.labels.find? fun name => !layout.labels.contains name).map fun name =>
      ⟨.unresolvedLabel name, some position⟩

/-- Stops with a failure, if there is one. -/
def stopAt : Option Diagnostic → Stage Unit
  | some failure => throw failure
  | none => pure ()

/-- Collects labels and start, and checks that every label mentioned is defined. -/
def discover : Stage Unit := do
  let found := collect .empty none (← get).program
  modify fun layout =>
    { layout with program := found.items, labels := found.state.1, start := found.state.2 }
  stopAt found.failure
  stopAt (← get).undefined?

/-- One pass, after which the labels are recorded. The answer says whether anything changed. -/
def pass (step : Step) : Stage Bool := do
  let layout ← get
  let swept := step.pass layout.labels layout.program
  set { layout with program := swept.items, labels := swept.state.labels }
  stopAt swept.failure
  modify fun layout =>
    if layout.tracing then { layout with trace := layout.trace ++ [layout.labels] } else layout
  return swept.state.changed

/-- Passes until nothing changes, `remaining` of them at most. The answer is their number. -/
def repeatPass (step : Step) (limit : Nat) : Nat → Stage Nat
  | 0 => throw ⟨.layoutDiverged limit, none⟩
  | remaining + 1 => do
    if ← pass step then repeatPass step limit remaining else return limit - remaining

/-- More passes than any program should need. -/
def passLimit (layout : Layout) : Nat := 4 * layout.program.length + 16

def fixpoint (step : Step) : Stage Nat := do
  let limit := (← get).passLimit
  repeatPass step limit limit

/-- Updates every instruction by the labels as they are. -/
def updateProgram (update : Labels → Instruction → Except AsmError Instruction) : Stage Unit := do
  let layout ← get
  let (program, failure) :=
    updateAll (fun inst => locate inst.position (update layout.labels inst)) layout.program
  set { layout with program }
  stopAt failure

def startAddress (layout : Layout) : Except Diagnostic UInt16 :=
  match layout.start with
  | none => .error ⟨.missingStart, none⟩
  | some (operand, position) => locate position do
    match (← operand.range layout.labels).value? with
    | some address =>
      if 0x0000 ≤ address ∧ address ≤ 0xFFFF then return address.toNat.toUInt16
      else throw .unresolvedStart
    | none => throw .unresolvedStart

/-- All stages after discovery. They can be run again on a finished layout. -/
def settle : Stage UInt16 := do
  let addressPasses ← fixpoint addressStep
  modify fun layout => { layout with addressPasses }
  updateProgram Instruction.resolveMode
  updateProgram fun _ => Instruction.resolveSize
  let sizePasses ← fixpoint sizeStep
  modify fun layout => { layout with sizePasses }
  updateProgram fun _ => Instruction.resolveAddress
  updateProgram Instruction.emit
  (← get).startAddress

def run : Stage UInt16 := do
  discover
  settle

end Layout
end Micro65
