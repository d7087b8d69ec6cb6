import MiningAgent.CommandLine.Grammar
import MiningAgent.LogLevel
import MiningAgent.Text.Number

/-!
# Options

The options of each command, their flags and their defaults.  Every flag may be
given once.
-/

namespace MiningAgent.CommandLine

/-- The value of a flag that may be given once. -/
def once {α : Type} (present : Option α) (value : Except UsageFault α) :
    Except UsageFault (Option α) :=
  if present.isSome then .error .repeatedFlag else value.map some

def long (text : List Char) : Except UsageFault UInt64 :=
  (Text.readLong text).mapError fun _ => .malformedValue

/-- A word may be written with either sign, which leaves only zero to the negative
ones. -/
def word (text : List Char) : Except UsageFault UInt32 :=
  match text with
  | '-' :: digits =>
      if digits ≠ [] ∧ digits.all (· = '0') then .ok 0 else .error .malformedValue
  | text => (Text.readWord text).mapError fun _ => .malformedValue

def level (text : List Char) : Except UsageFault LogLevel :=
  match LogLevel.ofName? (String.ofList text) with
  | some level => .ok level
  | none => .error .unacceptableValue

def path (text : List Char) : Except UsageFault String :=
  if text = [] then .error .unacceptableValue else .ok (String.ofList text)

structure RunOptions where
  /-- The document with the settings; without one, variables hold them. -/
  config : Option String
  hashrate : Option UInt64
  agentId : Option UInt32
  seed : Option UInt64
  logLevel : Option LogLevel
  /-- The difficulty at the beginning. -/
  difficulty : UInt64
  /-- How long to mine, in seconds. -/
  duration : UInt64
  /-- Milliseconds between two blocks of imagined peers, zero for none at all. -/
  peerInterval : UInt64
deriving DecidableEq, Repr

inductive RunFlag
  | config
  | hashrate
  | agentId
  | seed
  | logLevel
  | difficulty
  | duration
  | peerInterval
deriving DecidableEq, Repr

namespace RunFlag

def all : List RunFlag :=
  [config, hashrate, agentId, seed, logLevel, difficulty, duration, peerInterval]

def name : RunFlag → String
  | config => "config"
  | hashrate => "hashrate"
  | agentId => "agent-id"
  | seed => "seed"
  | logLevel => "log-level"
  | difficulty => "difficulty"
  | duration => "duration"
  | peerInterval => "peer-interval-ms"

def letter? : RunFlag → Option Char
  | config => some 'c'
  | logLevel => some 'l'
  | difficulty => some 'd'
  | duration => some 't'
  | _ => none

end RunFlag

/-- The options of a run as far as they were given. -/
structure RunDraft where
  config : Option String
  hashrate : Option UInt64
  agentId : Option UInt32
  seed : Option UInt64
  logLevel : Option LogLevel
  difficulty : Option UInt64
  duration : Option UInt64
  peerInterval : Option UInt64
deriving DecidableEq, Repr

namespace RunDraft

def empty : RunDraft := ⟨none, none, none, none, none, none, none, none⟩

def put (flag : RunFlag) (text : List Char) (draft : RunDraft) :
    Except UsageFault RunDraft :=
  match flag with
  | .config => (once draft.config (path text)).map fun given => { draft with config := given }
  | .hashrate =>
      (once draft.hashrate (long text)).map fun given => { draft with hashrate := given }
  | .agentId => (once draft.agentId (word text)).map fun given => { draft with agentId := given }
  | .seed => (once draft.seed (long text)).map fun given => { draft with seed := given }
  | .logLevel =>
      (once draft.logLevel (level text)).map fun given => { draft with logLevel := given }
  | .difficulty =>
      (once draft.difficulty (long text)).map fun given => { draft with difficulty := given }
  | .duration =>
      (once draft.duration (long text)).map fun given => { draft with duration := given }
  | .peerInterval =>
      (once draft.peerInterval (long text)).map fun given => { draft with peerInterval := given }

def grammar : Grammar RunFlag RunDraft where
  long? name := RunFlag.all.find? fun flag => flag.name.toList = name
  short? letter := RunFlag.all.find? fun flag => flag.letter? = some letter
  put := put

/-- The options, with defaults for those that were not given. -/
def complete (draft : RunDraft) : RunOptions where
  config := draft.config
  hashrate := draft.hashrate
  agentId := draft.agentId
  seed := draft.seed
  logLevel := draft.logLevel
  difficulty := draft.difficulty.getD 1
  duration := draft.duration.getD 10
  peerInterval := draft.peerInterval.getD 0

end RunDraft

def RunOptions.read (arguments : List (List Char)) : Except UsageFault RunOptions :=
  (RunDraft.grammar.read .empty arguments).map RunDraft.complete

structure DelayOptions where
  hashrate : UInt64
  difficulty : UInt64
  seed : UInt64
  agentId : UInt32
  /-- How many delays to draw. -/
  samples : UInt64
deriving DecidableEq, Repr

inductive DelayFlag
  | hashrate
  | difficulty
  | seed
  | agentId
  | samples
deriving DecidableEq, Repr

namespace DelayFlag

def all : List DelayFlag := [hashrate, difficulty, seed, agentId, samples]

def name : DelayFlag → String
  | hashrate => "hashrate"
  | difficulty => "difficulty"
  | seed => "seed"
  | agentId => "agent-id"
  | samples => "samples"

def letter? : DelayFlag → Option Char
  | hashrate => none
  | difficulty => some 'd'
  | seed => some 's'
  | agentId => some 'a'
  | samples => some 'n'

end DelayFlag

/-- The options of sampling as far as they were given. -/
structure DelayDraft where
  hashrate : Option UInt64
  difficulty : Option UInt64
  seed : Option UInt64
  agentId : Option UInt32
  samples : Option UInt64
deriving DecidableEq, Repr

namespace DelayDraft

def empty : DelayDraft := ⟨none, none, none, none, none⟩

def put (flag : DelayFlag) (text : List Char) (draft : DelayDraft) :
    Except UsageFault DelayDraft :=
  match flag with
  | .hashrate =>
      (once draft.hashrate (long text)).map fun given => { draft with hashrate := given }
  | .difficulty =>
      (once draft.difficulty (long text)).map fun given => { draft with difficulty := given }
  | .seed => (once draft.seed (long text)).map fun given => { draft with seed := given }
  | .agentId => (once draft.agentId (word text)).map fun given => { draft with agentId := given }
  | .samples => (once draft.samples (long text)).map fun given => { draft with samples := given }

def grammar : Grammar DelayFlag DelayDraft where
  long? name := DelayFlag.all.find? fun flag => flag.name.toList = name
  short? letter := DelayFlag.all.find? fun flag => flag.letter? = some letter
  put := put

/-- The options, with defaults for those that may be left out. -/
def complete (draft : DelayDraft) : Except UsageFault DelayOptions :=
  match draft.hashrate, draft.difficulty with
  | some hashrate, some difficulty =>
      .ok
        { hashrate := hashrate
          difficulty := difficulty
          seed := draft.seed.getD 0
          agentId := draft.agentId.getD 0
          samples := draft.samples.getD 10000 }
  | _, _ => .error .missingFlag

end DelayDraft

def DelayOptions.read (arguments : List (List Char)) : Except UsageFault DelayOptions := do
  (← DelayDraft.grammar.read .empty arguments).complete

structure TemplateOptions where
  output : String
deriving DecidableEq, Repr

/-- The only flag names the file. -/
def outputGrammar : Grammar Unit (Option String) where
  long? name := if name = "output".toList then some () else none
  short? letter := if letter = 'o' then some () else none
  put _ text output := once output (path text)

def TemplateOptions.read (arguments : List (List Char)) :
    Except UsageFault TemplateOptions :=
  (outputGrammar.read none arguments).map fun output => ⟨output.getD "miningshim.toml"⟩

end MiningAgent.CommandLine
