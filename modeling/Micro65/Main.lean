import Micro65.Command.Assemble
import Micro65.Command.Emulate

set_option autoImplicit false

/-!
The program: `asm` assembles source files and `emu` runs an image.
-/

namespace Micro65.Command

/-- Files and the terminal of the system. -/
instance : Host IO where
  readFile path := return (← (IO.FS.readBinFile path).toBaseIO).toOption
  writeFile path content := do
    match ← (IO.FS.Handle.mk path .write).toBaseIO with
    | .error _ => return .notCreated
    | .ok handle =>
      match ← (do handle.write content; handle.flush : IO Unit).toBaseIO with
      | .ok _ => return .written
      | .error _ => return .notWritten
  print text := do
    let terminal ← IO.getStdout
    terminal.putStr text
    terminal.flush

def overview : String :=
  "Usage:\n  asm <INPUT>... [-o <OUTPUT>] [-f punchcard|rom|image] [-d]\n  " ++
    "emu [-c <CONFIG>] [-t <TMAX>] [-b] [-i <INTR>] [IMAGE]"

def Usage.text : Usage → String
  | missingArgument => "an argument is missing"
  | invalidValue => "a value is missing or not possible"
  | unknownArgument => "unexpected argument"
  | repeated => "an option is given more than once"
  | surplusValue => "an option that takes no value has one"
  | malformedNumber => "a value is no number"
  | help => overview
  | version => "0.1.0"

/-- The exit code is zero only where the user has asked for a text. -/
def showUsage (usage : Usage) : IO UInt32 := do
  match usage with
  | .help | .version =>
    IO.println usage.text
    return 0
  | usage =>
    IO.eprintln ("error: " ++ usage.text ++ "\n\n" ++ overview)
    return 2

def start {α : Type} (read : List String → Except Usage α) (run : α → IO UInt32)
    (arguments : List String) : IO UInt32 :=
  match read arguments with
  | .ok options => run options
  | .error usage => showUsage usage

end Micro65.Command

open Micro65.Command in
def main (arguments : List String) : IO UInt32 :=
  match arguments with
  | "asm" :: arguments => start AssembleOptions.read assembleFiles arguments
  | "emu" :: arguments => start EmulateOptions.read emulate arguments
  | "-h" :: _ | "--help" :: _ => showUsage .help
  | "-V" :: _ | "--version" :: _ => showUsage .version
  | _ => showUsage .missingArgument
