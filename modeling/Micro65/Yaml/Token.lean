set_option autoImplicit false

/-!
Tokens of a document. Blocks have no brackets in the text, and their starts and ends are tokens that
stand for a change of indentation.
-/

namespace Micro65.Yaml

inductive Token where
  | plain (text : String)
  | quoted (text : String)
  | openSequence | closeSequence | openMapping | closeMapping | comma
  /-- In front of an item of a block. -/
  | dash
  /-- In front of a key, written as a question mark or not at all. -/
  | key
  /-- In front of a value. -/
  | value
  | blockSequence | blockMapping | blockEnd
  | documentStart | documentEnd
  deriving DecidableEq, Repr

end Micro65.Yaml
