import MiningAgent.Run.State

/-!
# Steps that callers and workers share
-/

namespace MiningAgent

/-- The counters in the order in which an export loads them. -/
def Tally.counters (tally : Tally) : List UInt64 :=
  [tally.blocksFound, tally.iterations, tally.peerBlocks, tally.errors, tally.miningTime,
   tally.lastBlockTime]

def Tally.ofCounters? : List UInt64 → Option Tally
  | [blocksFound, iterations, peerBlocks, errors, miningTime, lastBlockTime] =>
      some ⟨blocksFound, iterations, peerBlocks, errors, miningTime, lastBlockTime⟩
  | _ => none

/-- An export with one more counter loaded, from the first that is missing. -/
def Tally.loadNext (tally : Tally) (loaded : List UInt64) : List UInt64 :=
  loaded ++ (tally.counters.drop loaded.length).take 1

namespace Engine

def stepReporting (engine : Engine) (circumstances : Circumstances) :
    Reporting → Reporting × Engine × List Event
  | .counting fault => (.judging fault, { engine with tally := engine.tally.countError }, [])
  | .judging fault =>
      let next : Reporting :=
        match fault.isFatal, engine.reportPath with
        | true, some path => .loading path []
        | _, _ => .done
      (next, engine, [.logged (.miningError fault)])
  | .loading path loaded =>
      let loaded := engine.tally.loadNext loaded
      match Tally.ofCounters? loaded with
      | some tally => (.writing path tally, engine, [])
      | none => (.loading path loaded, engine, [])
  | .writing path tally =>
      match circumstances.writeFailure with
      | none =>
          (.done, engine, [.wrote path (engine.report tally), .logged (.reportWritten path)])
      | some reason => (.done, engine, [.logged (.errorReportFailed path (.io reason))])
  | .done => (.done, engine, [])

/-- One step of giving up a run.  Only the run of the named generation is taken; its
time is counted and its worker's queue loses its sender. -/
def stepRetirement (engine : Engine) (actor : Actor) (circumstances : Circumstances) :
    Retirement → Option (Retirement × Engine)
  | .locking generation =>
      if engine.slotHolder = none then
        some (.claiming generation, { engine with slotHolder := some actor })
      else none
  | .claiming generation =>
      match engine.slot.active with
      | some run =>
          if run.generation = generation then
            some (.accounting run, { engine with slot := { engine.slot with active := none } })
          else some (.unlocking, engine)
      | none => some (.unlocking, engine)
  | .accounting run =>
      let elapsed := run.started.elapsed circumstances.now
      let counted := { engine with tally := engine.tally.addMiningTime elapsed }
      some (.unlocking, counted.disconnect run.worker)
  | .unlocking => some (.done, { engine with slotHolder := none })
  | .done => none

end Engine

end MiningAgent
