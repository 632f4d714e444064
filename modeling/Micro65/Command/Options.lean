set_option autoImplicit false

/-!
Command lines. Options have a short and a long name and are given at most once; a value is attached to
its option or is the next argument. After `--` every argument is a positional one.
-/

namespace Micro65.Command

/-- Why the arguments do not start a command. -/
inductive Usage where
  | missingArgument
  /-- A value is missing, or is not among the possible values. -/
  | invalidValue
  | unknownArgument
  /-- An option is given twice. -/
  | repeated
  /-- A value is attached to an option that takes none. -/
  | surplusValue
  /-- A value does not have the form of a number. -/
  | malformedNumber
  | help
  | version
  deriving DecidableEq, Repr

/-- What the value of an option has to be. -/
inductive ValueKind where
  | text
  | choice (names : List String)
  /-- A number of 64 bits. -/
  | number
  deriving DecidableEq, Repr

inductive OptionKind where
  | flag
  | valued (kind : ValueKind)
  | help
  | version
  deriving DecidableEq, Repr

structure OptionRule where
  short : Char
  long : String
  kind : OptionKind
  deriving DecidableEq, Repr

structure Grammar where
  options : List OptionRule
  /-- No more positional arguments than this. -/
  most : Option Nat
  /-- There must be a positional argument. -/
  required : Bool

/-- The number that is written in decimal digits, with or without a plus sign. -/
def number? (text : String) : Option Nat :=
  let digits := match text.toList with
    | '+' :: digits => digits
    | digits => digits
  if digits.isEmpty || !digits.all Char.isDigit then none
  else
    let value := digits.foldl (fun value c => 10 * value + (c.toNat - '0'.toNat)) 0
    if value < UInt64.size then some value else none

def ValueKind.check (value : String) : ValueKind → Except Usage Unit
  | text => .ok ()
  | choice names => if names.contains value then .ok () else .error .invalidValue
  | number => if (number? value).isSome then .ok () else .error .malformedNumber

/-- What has been read of a command line. -/
structure Arguments where
  /-- Long names of the options that were given, with their values. -/
  given : List (String × String) := []
  positional : List String := []
  /-- An option that is not finished: its value, if it was given already, is still to be checked. -/
  waiting : Option (OptionRule × ValueKind × Option String) := none
  /-- Only positional arguments follow. -/
  escaped : Bool := false

namespace Arguments

def value? (arguments : Arguments) (long : String) : Option String := arguments.given.lookup long

def has (arguments : Arguments) (long : String) : Bool := (arguments.value? long).isSome

def give (arguments : Arguments) (rule : OptionRule) (value : String) : Except Usage Arguments :=
  if arguments.has rule.long then .error .repeated
  else .ok { arguments with given := arguments.given ++ [(rule.long, value)] }

/-- Finishes the option that is waiting. -/
def finish (arguments : Arguments) : Except Usage Arguments :=
  match arguments.waiting with
  | none => .ok arguments
  | some (_, _, none) => .error .invalidValue
  | some (rule, kind, some value) => do
    let arguments ← { arguments with waiting := none }.give rule value
    kind.check value
    return arguments

/-- An option without a value. -/
def addBare (arguments : Arguments) (rule : OptionRule) : Except Usage Arguments := do
  let arguments ← arguments.finish
  match rule.kind with
  | .flag => arguments.give rule ""
  | .valued kind => return { arguments with waiting := some (rule, kind, none) }
  | .help => throw .help
  | .version => throw .version

/-- An option with the value that is attached to it. -/
def addAttached (arguments : Arguments) (rule : OptionRule) (kind : ValueKind) (value : String) :
    Except Usage Arguments := do
  let arguments ← (← arguments.finish).give rule value
  kind.check value
  return arguments

def addPositional (grammar : Grammar) (arguments : Arguments) (value : String) :
    Except Usage Arguments := do
  if grammar.most.any (· ≤ arguments.positional.length) then throw .unknownArgument
  let arguments ← arguments.finish
  return { arguments with positional := arguments.positional ++ [value] }

/-- Short options behind one dash. What follows an option with a value is the value, and an equals
sign in front of it does not count. -/
def addShorts (grammar : Grammar) (arguments : Arguments) : List Char → Except Usage Arguments
  | [] => .ok arguments
  | c :: rest =>
    match grammar.options.find? (·.short == c) with
    | none => .error .unknownArgument
    | some rule =>
      match rule.kind, rest with
      | .valued kind, '=' :: value => arguments.addAttached rule kind (String.ofList value)
      | .valued kind, first :: value =>
        arguments.addAttached rule kind (String.ofList (first :: value))
      | _, rest => do addShorts grammar (← arguments.addBare rule) rest

def addLong (grammar : Grammar) (arguments : Arguments) (name : String) (value : Option String) :
    Except Usage Arguments :=
  match grammar.options.find? (·.long == name) with
  | none => .error .unknownArgument
  | some rule =>
    match rule.kind, value with
    | _, none => arguments.addBare rule
    | .valued kind, some value => arguments.addAttached rule kind value
    | _, some _ => .error .surplusValue

/-- The name of a long option and the value behind its equals sign. -/
def splitLong (argument : List Char) : String × Option String :=
  let name := String.ofList (argument.takeWhile (· != '='))
  match argument.dropWhile (· != '=') with
  | [] => (name, none)
  | _ :: value => (name, some (String.ofList value))

def addPlain (grammar : Grammar) (arguments : Arguments) (argument : String) :
    Except Usage Arguments :=
  match arguments.waiting with
  | some (rule, kind, none) => .ok { arguments with waiting := some (rule, kind, some argument) }
  | _ => arguments.addPositional grammar argument

def add (grammar : Grammar) (arguments : Arguments) (argument : String) : Except Usage Arguments :=
  if arguments.escaped then arguments.addPositional grammar argument
  else
    match argument.toList with
    | ['-', '-'] => .ok { arguments with escaped := true }
    | '-' :: '-' :: rest =>
      let (name, value) := splitLong rest
      arguments.addLong grammar name value
    | '-' :: first :: rest => arguments.addShorts grammar (first :: rest)
    | _ => arguments.addPlain grammar argument

end Arguments

/-- Reads a command line from left to right. Values are checked when the next option or positional
argument comes, and an unknown option goes before a bad value. -/
def Grammar.read (grammar : Grammar) (arguments : List String) : Except Usage Arguments := do
  let read ← (← arguments.foldlM (Arguments.add grammar) {}).finish
  if grammar.required && read.positional.isEmpty then throw .missingArgument
  return read

/-- Every command can show a help text and its version. -/
def standardOptions : List OptionRule := [⟨'h', "help", .help⟩, ⟨'V', "version", .version⟩]

end Micro65.Command
