import Micro65.Asm.Error
import Micro65.Text.Lines

set_option autoImplicit false

/-!
Diagnostics as shown to the user: the message, and the source line that caused it.
-/

namespace Micro65

open Text

/-- Names of source files with their lines. -/
abbrev Sources := List (String × List String)

/-- A line of a file. Of files with one name the last is meant. -/
def Sources.line? (sources : Sources) (position : Position) : Option String := do
  let lines ← sources.reverse.lookup position.file
  if position.line = 0 then none else lines[position.line - 1]?

/-- Each line of the report ends with a line feed. A source line that is not at hand is left blank. -/
def Diagnostic.report (sources : Sources) (diagnostic : Diagnostic) : String :=
  let head := errorWord ++ ": " ++ diagnostic.error.message ++ "\n"
  match diagnostic.position with
  | none => head
  | some position =>
    let bar := "      " ++ Style.blue.paint "|" ++ "\n"
    let place := Style.underline.paint (position.file ++ s!":{position.line}")
    let margin := Style.blue.paint (padLeft 4 (toString position.line) ++ " |")
    head ++ "     " ++ Style.blue.paint "-->" ++ " " ++ place ++ "\n" ++ bar ++
      " " ++ margin ++ " " ++ (sources.line? position).getD "" ++ "\n" ++ bar

end Micro65
