import Micro65.Machine.Schedule
import Micro65.Yaml.Document

set_option autoImplicit false

/-!
Schedules as documents: a mapping from ticks to actions.
-/

namespace Micro65.Schedule

open Yaml

def entry? (entry : Node × Node) : Option (Nat × LineAction) := do
  let (key, value) := entry
  return (← key.natural?, ← LineAction.ofName? (← value.written?))

def ofNode? (node : Node) : Option Schedule := do
  return ofList (← (← node.entries?).mapM entry?)

def read? (text : String) : Option Schedule := do ofNode? (← Yaml.read? text)

end Micro65.Schedule
