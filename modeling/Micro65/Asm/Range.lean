import Micro65.Asm.Expr
import Micro65.Asm.Labels

set_option autoImplicit false

/-!
The interval of values that an expression can take while its labels range over their intervals.
-/

namespace Micro65

def Half.range : Half → Interval → Interval
  | low, range => range.lowByte
  | high, range => range.highByte

/-- Registers and cells of memory have no value before the program runs. Of two causes of failure the
left one is reported. -/
def Expr.range (labels : Labels) : Expr → Except AsmError Interval
  | literal value => .ok (.point value.toNat)
  | label name =>
    match labels.get? name with
    | some range => .ok range
    | none => .error (.unknownLabel name)
  | register _ | indirect _ => .error .nonStaticValue
  | address inner => inner.range labels
  | add left right => do return (← left.range labels) + (← right.range labels)
  | sub left right => do return (← left.range labels) - (← right.range labels)
  | mul left right => do return (← left.range labels) * (← right.range labels)
  | half side inner => do return side.range (← inner.range labels)

end Micro65
