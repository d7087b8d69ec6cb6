import MiningAgent.Toml.Value

/-!
# Building TOML tables

Statements add to a table one after the other.  What exists is never replaced: a
statement that would do so is refused.
-/

namespace MiningAgent.Toml

namespace Value

/-- The entries that a header may add to below this value, and the value with other
entries in their place. -/
def underHeader? : Value → Option (Entries × (Entries → Value))
  | .table .inline _ => none
  | .table origin entries => some (entries, .table origin)
  | .rows earlier last => some (last, .rows earlier)
  | _ => none

/-- The entries that a dotted key may go through, or end in if `isLast`.  It ends only
in a table that dotted keys have implied. -/
def underDots? (isLast : Bool) : Value → Option (Entries × (Entries → Value))
  | .table .dotted entries => some (entries, .table .dotted)
  | .table .implied entries => if isLast then none else some (entries, .table .implied)
  | .rows earlier last => if isLast then none else some (last, .rows earlier)
  | _ => none

/-- What the header of a table makes of the value that is there already. -/
def openTable? : Option Value → Option Value
  | none => some (.table .header [])
  | some (.table .implied entries) => some (.table .header entries)
  | _ => none

def openRow? : Option Value → Option Value
  | none => some (.rows [] [])
  | some (.rows earlier last) => some (.rows (earlier ++ [last]) [])
  | _ => none

end Value

namespace Entries

/-- Assigns a value to a dotted key that is still vacant. -/
def assign? (value : Value) : List Key → Entries → Option Entries
  | [], _ => none
  | [key], entries =>
      if (entries.get? key).isNone then some (entries ++ [(key, value)]) else none
  | key :: next :: later, entries =>
      match entries.get? key with
      | none =>
          (assign? value (next :: later) []).map fun below =>
            entries ++ [(key, .table .dotted below)]
      | some found =>
          (found.underDots? later.isEmpty).bind fun (below, rebuild) =>
            (assign? value (next :: later) below).map fun below =>
              entries.set key (rebuild below)

/-- Opens a table or a row by its header, and implies the tables above it. -/
def declare? (place : Option Value → Option Value) : List Key → Entries → Option Entries
  | [], _ => none
  | [key], entries => (place (entries.get? key)).map (entries.set key)
  | key :: next :: later, entries =>
      match entries.get? key with
      | none =>
          (declare? place (next :: later) []).map fun below =>
            entries ++ [(key, .table .implied below)]
      | some found =>
          found.underHeader?.bind fun (below, rebuild) =>
            (declare? place (next :: later) below).map fun below =>
              entries.set key (rebuild below)

def within? (change : Entries → Option Entries) : List Key → Entries → Option Entries
  | [], entries => change entries
  | key :: later, entries =>
      ((entries.get? key).bind Value.underHeader?).bind fun (below, rebuild) =>
        (within? change later below).map fun below => entries.set key (rebuild below)

end Entries

def entriesOf? (pairs : List (List Key × Value)) : Option Entries :=
  pairs.foldlM (fun entries (path, value) => Entries.assign? value path entries) []

inductive Statement
  | pair (path : List Key) (value : Value)
  | table (path : List Key)
  | row (path : List Key)

/-- A document in the making: the path of the last header, and all entries. -/
structure Draft where
  opened : List Key
  entries : Entries

namespace Draft

def empty : Draft := ⟨[], []⟩

def step (draft : Draft) : Statement → Option Draft
  | .pair path value =>
      (draft.entries.within? (Entries.assign? value path) draft.opened).map fun entries =>
        { draft with entries := entries }
  | .table path =>
      (draft.entries.declare? Value.openTable? path).map fun entries => ⟨path, entries⟩
  | .row path =>
      (draft.entries.declare? Value.openRow? path).map fun entries => ⟨path, entries⟩

end Draft

def ofStatements? (statements : List Statement) : Option Entries :=
  (statements.foldlM Draft.step Draft.empty).map Draft.entries

end MiningAgent.Toml
