set_option autoImplicit false

/-!
Lines of a text. A line ends with a line feed, and a carriage return just before the line feed belongs
to the line's end. What follows the last line feed is a line unless it is empty.
-/

namespace Micro65.Text

/-- Lines as character lists, each without its end. -/
def lineLists (text : List Char) : List (List Char) :=
  go [] text
where
  /-- The line under way is kept in reverse. -/
  go (line : List Char) : List Char → List (List Char)
    | [] => if line.isEmpty then [] else [line.reverse]
    | '\n' :: rest => (match line with | '\r' :: line => line.reverse | line => line.reverse) :: go [] rest
    | c :: rest => go (c :: line) rest

def lines (text : String) : List String :=
  (lineLists text.toList).map String.ofList

end Micro65.Text
