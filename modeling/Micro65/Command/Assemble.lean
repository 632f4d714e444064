import Micro65.Asm.Output.Image
import Micro65.Asm.Output.Listing
import Micro65.Asm.Output.PunchCard
import Micro65.Asm.Output.RomListing
import Micro65.Asm.Report
import Micro65.Command.Host
import Micro65.Command.Options

set_option autoImplicit false

/-!
The command that assembles source files.
-/

namespace Micro65.Command

open Text

inductive Format where
  | punchCard | rom | image
  deriving DecidableEq, Repr

namespace Format

def all : List Format := [punchCard, rom, image]

def name : Format → String
  | punchCard => "punchcard"
  | rom => "rom"
  | image => "image"

def ofName? (name : String) : Option Format := all.find? (·.name == name)

end Format

structure AssembleOptions where
  inputs : List String
  output : Option String := none
  format : Format := .punchCard
  dump : Bool := false
  deriving DecidableEq, Repr

namespace AssembleOptions

def grammar : Grammar where
  options :=
    [⟨'o', "output", .valued .text⟩, ⟨'f', "format", .valued (.choice (Format.all.map Format.name))⟩,
      ⟨'d', "dump", .flag⟩] ++ standardOptions
  most := none
  required := true

def read (arguments : List String) : Except Usage AssembleOptions := do
  let arguments ← grammar.read arguments
  return {
    inputs := arguments.positional
    output := arguments.value? "output"
    format := ((arguments.value? "format").bind Format.ofName?).getD .punchCard
    dump := arguments.has "dump" }

end AssembleOptions

variable {m : Type → Type} [Monad m] [Host m]

/-- The assembler stops at the first failure, and the sources read so far are kept for the report. -/
abbrev Assembling (m : Type → Type) := ExceptT Diagnostic (StateT Sources m)

namespace Assembling

def printLine (line : String) : Assembling m Unit := liftM (Host.printLine line : m Unit)

def print (text : String) : Assembling m Unit := liftM (Host.print text : m Unit)

/-- A failure without a position in a source. -/
def fail {α : Type} (error : AsmError) : Assembling m α := throw ⟨error, none⟩

def readSource (path : String) : Assembling m SourceFile := do
  printLine ("  < " ++ path)
  let some text := (← liftM (Host.readFile path : m _)).bind String.fromUTF8?
    | fail (.fileOpen path)
  modify (· ++ [(path, lines text)])
  SourceFile.parse path text

/-- A label in its column. -/
def labelLine (label : Label) : String := "  @" ++ padRight 16 label.name ++ " " ++ label.range.text

def printLayout (asm : Assembly) : Assembling m Unit := do
  printLine ("  start: $" ++ hexWord asm.start)
  asm.labels.toList.forM fun label => printLine (labelLine label)

def render (format : Format) (asm : Assembly) : ByteArray :=
  match format with
  | .punchCard => (PunchCard.text asm).toUTF8
  | .rom => (RomListing.text asm).toUTF8
  | .image => ⟨(Image.content asm).toArray⟩

/-- An image is never printed. -/
def generate (options : AssembleOptions) (asm : Assembly) : Assembling m Unit := do
  match options.output, options.format with
  | some path, format =>
    printLine ("  > " ++ path)
    match ← liftM (Host.writeFile path (render format asm) : m _) with
    | .written => return
    | .notCreated => fail (.fileCreate path)
    | .notWritten => fail (.fileWrite path)
  | none, .punchCard => print (PunchCard.text asm)
  | none, .rom => print (RomListing.text asm)
  | none, .image => fail (.fileCreate "<stdout>")

def program (options : AssembleOptions) : Assembling m Unit := do
  printLine "r65asm: 65C02 assembler"
  printLine "1. Read Files and Parse Lines"
  let files ← options.inputs.mapM readSource
  printLine "2. Layout"
  let asm ← assemble files
  printLayout asm
  if options.dump then print (Listing.text asm)
  printLine "3. Generate Output"
  generate options asm

end Assembling

/-- Assembles and answers the exit code. A failure is reported on the terminal. -/
def assembleFiles (options : AssembleOptions) : m UInt32 := do
  let (result, sources) ← ((Assembling.program options).run).run []
  match result with
  | .ok _ => return 0
  | .error diagnostic =>
    Host.print (diagnostic.report sources)
    return 1

end Micro65.Command
