import MiningAgent.CommandLine.Argument

/-!
# Reading flags

Arguments are taken one by one.  A flag without a value attached waits for the next
argument to be its value, and takes effect when the flag after it or the end is
met.
-/

namespace MiningAgent.CommandLine

inductive UsageFault
  | help
  | version
  | noCommand
  | unknownCommand
  | unknownArgument
  | missingValue
  /-- A value that is empty or not one of those that are possible. -/
  | unacceptableValue
  /-- A value that does not parse or is out of range. -/
  | malformedValue
  | unneededValue
  | repeatedFlag
  | missingFlag
deriving DecidableEq, Repr

def UsageFault.message : UsageFault → String
  | .help => "help was asked for"
  | .version => "the version was asked for"
  | .noCommand => "a command is required"
  | .unknownCommand => "unrecognized command"
  | .unknownArgument => "unexpected argument"
  | .missingValue => "a flag lacks its value"
  | .unacceptableValue => "a value is not one of those that are possible"
  | .malformedValue => "a value does not parse or is out of range"
  | .unneededValue => "a flag that takes no value has one"
  | .repeatedFlag => "a flag is given twice"
  | .missingFlag => "a required flag is missing"

/-- The flags of a command by their names, and what each adds to the options read so
far. -/
structure Grammar (Flag Options : Type) where
  long? : List Char → Option Flag
  short? : Char → Option Flag
  put : Flag → List Char → Options → Except UsageFault Options

structure Scan (Flag Options : Type) where
  options : Options
  /-- The flag that is waiting for its value or, once it has one, to take effect. -/
  pending : Option (Flag × Option (List Char))
  escaped : Bool

namespace Grammar

variable {Flag Options : Type} (grammar : Grammar Flag Options)

def commit (scan : Scan Flag Options) : Except UsageFault Options :=
  match scan.pending with
  | none => .ok scan.options
  | some (_, none) => .error .missingValue
  | some (flag, some value) => grammar.put flag value scan.options

/-- Takes a flag.  One with its value attached takes effect at once. -/
def takeFlag (scan : Scan Flag Options) (flag : Flag) (value : Option (List Char)) :
    Except UsageFault (Scan Flag Options) := do
  let options ← grammar.commit scan
  match value with
  | none => return ⟨options, some (flag, none), false⟩
  | some value => return ⟨← grammar.put flag value options, none, false⟩

def giveHelp (scan : Scan Flag Options) : Except UsageFault (Scan Flag Options) := do
  let _ ← grammar.commit scan
  throw .help

def step (scan : Scan Flag Options) (argument : Argument) :
    Except UsageFault (Scan Flag Options) :=
  if scan.escaped then .error .unknownArgument
  else
    match argument with
    | .escape => .ok { scan with escaped := true }
    | .long name value =>
        if name = ['h', 'e', 'l', 'p'] then
          if value.isSome then .error .unneededValue else grammar.giveHelp scan
        else
          match grammar.long? name with
          | some flag => grammar.takeFlag scan flag value
          | none => .error .unknownArgument
    | .short letter value =>
        if letter = 'h' then grammar.giveHelp scan
        else
          match grammar.short? letter with
          | some flag => grammar.takeFlag scan flag value
          | none => .error .unknownArgument
    | .plain text =>
        match scan.pending with
        | some (flag, none) => .ok { scan with pending := some (flag, some text) }
        | _ => .error .unknownArgument

def read (options : Options) (arguments : List (List Char)) : Except UsageFault Options := do
  let scan ← (arguments.map Argument.ofText).foldlM grammar.step ⟨options, none, false⟩
  grammar.commit scan

end Grammar

end MiningAgent.CommandLine
