import MiningAgent.Program.Basic

/-!
# Rehearsals

A world made of values: files are kept in a list, everything shown is collected, and
the clock moves on a little whenever it is read.  A program carried out in it shows
what it would do elsewhere.
-/

namespace MiningAgent

structure Rehearsal where
  files : List (String × String)
  logPath : Option String
  log : List (UInt32 × LogEntry)
  printed : List String
  warnings : List String
  clock : Instant

namespace Rehearsal

def ofFiles (files : List (String × String)) (clock : Instant) : Rehearsal :=
  ⟨files, none, [], [], [], clock⟩

def contents? (rehearsal : Rehearsal) (path : String) : Option String :=
  (rehearsal.files.find? fun file => file.1 = path).map Prod.snd

def put (rehearsal : Rehearsal) (path text : String) : Rehearsal :=
  { rehearsal with
    files := (path, text) :: rehearsal.files.filter fun file => file.1 ≠ path }

/-- How far the clock moves from one reading to the next, in nanoseconds. -/
def tick : UInt64 := 1000000

def unlessRefused (refusal : Option String) (change : Rehearsal → Rehearsal) :
    StateM Rehearsal (Except String Unit) :=
  match refusal with
  | some reason => pure (.error reason)
  | none => do
      modify change
      pure (.ok ())

/-- The operations of a rehearsal.  `locate` tells which file a path leads to, and
`refusal` why it cannot be written. -/
def world (environment : Environment) (logarithm : Rat → Rat) (locate : String → String)
    (refusal : String → Option String) : World (StateM Rehearsal) where
  environment := environment
  logarithm := logarithm
  readFile path := do
    match (← get).contents? (locate path) with
    | some text => pure (.ok text)
    | none => pure (.error "No such file or directory (os error 2)")
  writeFile path text := unlessRefused (refusal path) fun state => state.put (locate path) text
  openLog path :=
    unlessRefused (refusal path) fun state =>
      { state.put (locate path) "" with logPath := some (locate path) }
  log agentId entry :=
    modify fun state => { state with log := state.log ++ [(agentId, entry)] }
  print text := modify fun state => { state with printed := state.printed ++ [text] }
  warn text := modify fun state => { state with warnings := state.warnings ++ [text] }
  now := do
    let state ← get
    let clock : Instant := ⟨state.clock.wall + tick, state.clock.steady + tick⟩
    set { state with clock := clock }
    pure clock
  await shift _ := pure shift

def run (world : World (StateM Rehearsal)) (arguments : List String) (rehearsal : Rehearsal) :
    Ending × Rehearsal :=
  Id.run ((Program.execute world arguments).run rehearsal)

end Rehearsal

end MiningAgent
