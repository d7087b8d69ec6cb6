import MiningAgent.CommandLine.Options

/-!
# Writing flags

A flag is written with its value attached, or as two arguments.
-/

namespace MiningAgent.CommandLine

/-- The arguments that give a flag its value. -/
def spell (attached : Bool) (name : String) (value : List Char) : List (List Char) :=
  if attached then ['-' :: '-' :: (name.toList ++ '=' :: value)]
  else ['-' :: '-' :: name.toList, value]

namespace RunDraft

/-- The value of a flag as it is written, if it was given. -/
def text? (draft : RunDraft) : RunFlag → Option (List Char)
  | .config => draft.config.map String.toList
  | .hashrate => draft.hashrate.map fun number => Text.decimal number.toNat
  | .agentId => draft.agentId.map fun number => Text.decimal number.toNat
  | .seed => draft.seed.map fun number => Text.decimal number.toNat
  | .logLevel => draft.logLevel.map fun level => level.name.toList
  | .difficulty => draft.difficulty.map fun number => Text.decimal number.toNat
  | .duration => draft.duration.map fun number => Text.decimal number.toNat
  | .peerInterval => draft.peerInterval.map fun number => Text.decimal number.toNat

def given (draft : RunDraft) : List (RunFlag × List Char) :=
  RunFlag.all.filterMap fun flag => (draft.text? flag).map fun text => (flag, text)

end RunDraft

namespace DelayDraft

def text? (draft : DelayDraft) : DelayFlag → Option (List Char)
  | .hashrate => draft.hashrate.map fun number => Text.decimal number.toNat
  | .difficulty => draft.difficulty.map fun number => Text.decimal number.toNat
  | .seed => draft.seed.map fun number => Text.decimal number.toNat
  | .agentId => draft.agentId.map fun number => Text.decimal number.toNat
  | .samples => draft.samples.map fun number => Text.decimal number.toNat

def given (draft : DelayDraft) : List (DelayFlag × List Char) :=
  DelayFlag.all.filterMap fun flag => (draft.text? flag).map fun text => (flag, text)

end DelayDraft

end MiningAgent.CommandLine
