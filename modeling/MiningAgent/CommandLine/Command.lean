import MiningAgent.CommandLine.Options

/-!
# Commands

The first argument names a command, and the others are its own.
-/

namespace MiningAgent.CommandLine

inductive Command
  | run (options : RunOptions)
  | delays (options : DelayOptions)
  | template (options : TemplateOptions)
deriving DecidableEq, Repr

namespace Command

def names : List String := ["run", "delays", "config"]

def helpName : String := "help"

/-- Help is given for everything or for one command. -/
def helpFor : List String → UsageFault
  | [] => .help
  | [topic] => if topic = helpName ∨ topic ∈ names then .help else .unknownCommand
  | _ => .unknownCommand

def withoutCommand : Argument → UsageFault
  | .escape => .noCommand
  | .long name value =>
      if name = "help".toList then if value.isSome then .unneededValue else .help
      else if name = "version".toList then if value.isSome then .unneededValue else .version
      else .unknownArgument
  | .short letter _ =>
      if letter = 'h' then .help else if letter = 'V' then .version else .unknownArgument
  | .plain _ => .unknownCommand

/-- Behind two hyphens no command is taken, not even one that exists. -/
def behindEscape : List String → UsageFault
  | [] => .noCommand
  | word :: _ =>
      if word = helpName ∨ word ∈ names then .unknownArgument else .unknownCommand

def read (arguments : List String) : Except UsageFault Command :=
  match arguments with
  | [] => .error .noCommand
  | word :: rest =>
      let own := rest.map String.toList
      if word = "run" then (RunOptions.read own).map .run
      else if word = "delays" then (DelayOptions.read own).map .delays
      else if word = "config" then (TemplateOptions.read own).map .template
      else if word = helpName then .error (helpFor rest)
      else if word = "--" then .error (behindEscape rest)
      else .error (withoutCommand (.ofText word.toList))

end Command

end MiningAgent.CommandLine
