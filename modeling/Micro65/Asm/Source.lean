import Micro65.Asm.Instruction
import Micro65.Asm.Statement
import Micro65.Text.Lines

set_option autoImplicit false

/-!
Source files. A constant holds from its definition to the end of its file. A label on a line of its
own belongs to the next instruction of the same file.
-/

namespace Micro65

/-- A source line. A line with only a label, a constant or a comment has no instruction. -/
structure Line where
  number : Nat
  text : String
  instruction : Option Instruction
  deriving DecidableEq, Repr

structure SourceFile where
  name : String
  lines : List Line
  deriving DecidableEq, Repr

def SourceFile.instructions (file : SourceFile) : List Instruction :=
  file.lines.filterMap (·.instruction)

namespace SourceFile

/-- What earlier lines leave to later ones. -/
structure Context where
  constants : Constants := []
  /-- A label that waits for its instruction, with the line of its definition. -/
  pending : Option (String × Position) := none

/-- The pending label after a line that defines `label`, if any. -/
def Context.addLabel (context : Context) (position : Position) (label : Option String) :
    Except Diagnostic (Option (String × Position)) :=
  match label, context.pending with
  | none, pending => .ok pending
  | some name, none => .ok (some (name, position))
  | some _, some (earlier, defined) => .error ⟨.danglingLabel earlier, some defined⟩

/-- The instruction of one line, and what the line leaves to later ones. -/
def parseLine (context : Context) (position : Position) (text : String) :
    Except Diagnostic (Context × Option Instruction) := do
  match ← locate position (Statement.ofLine context.constants text) with
  | .empty => return (context, none)
  | .const name value =>
    if (context.constants.lookup name).isSome then
      throw ⟨.redefinedConstant name, some position⟩
    return ({ context with constants := (name, value) :: context.constants }, none)
  | .code label body =>
    let pending ← context.addLabel position label
    match body with
    | none => return ({ context with pending }, none)
    | some code =>
      let inst : Instruction :=
        { position, label := pending.map (·.1), spelling := code.spelling, kind := code.kind,
          operand := code.operand }
      return ({ context with pending := none }, some inst)

/-- Lines numbered from `number` on. -/
def parseLines (name : String) (context : Context) (number : Nat) :
    List String → Except Diagnostic (List Line)
  | [] =>
    match context.pending with
    | some (label, position) => .error ⟨.danglingLabel label, some position⟩
    | none => .ok []
  | text :: rest => do
    let (context, instruction) ← parseLine context ⟨name, number⟩ text
    let lines ← parseLines name context (number + 1) rest
    return ⟨number, text, instruction⟩ :: lines

def parse (name text : String) : Except Diagnostic SourceFile := do
  return ⟨name, ← parseLines name {} 1 (Text.lines text)⟩

end SourceFile
end Micro65
