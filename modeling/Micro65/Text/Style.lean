set_option autoImplicit false

/-!
Terminal styles and column padding. A style is a pair of escape sequences put around a text; padding
counts characters and never cuts.
-/

namespace Micro65.Text

inductive Style where
  | red | green | yellow | blue | magenta | cyan | bold | underline
  deriving DecidableEq, Repr

def Style.opening : Style → String
  | .red => "\x1b[31m"
  | .green => "\x1b[32m"
  | .yellow => "\x1b[33m"
  | .blue => "\x1b[34m"
  | .magenta => "\x1b[35m"
  | .cyan => "\x1b[36m"
  | .bold => "\x1b[1m"
  | .underline => "\x1b[4m"

/-- All colours share one closing sequence, the one that restores the default colour. -/
def Style.closing : Style → String
  | .bold => "\x1b[22m"
  | .underline => "\x1b[24m"
  | _ => "\x1b[39m"

def Style.paint (style : Style) (text : String) : String :=
  style.opening ++ text ++ style.closing

/-- The bold red word in front of an error message. -/
def errorWord : String :=
  Style.red.opening ++ Style.bold.opening ++ "error" ++ Style.red.closing ++ Style.bold.closing

def blanks (count : Nat) : String := String.ofList (List.replicate count ' ')

def padRight (width : Nat) (text : String) : String := text ++ blanks (width - text.length)

def padLeft (width : Nat) (text : String) : String := blanks (width - text.length) ++ text

end Micro65.Text
