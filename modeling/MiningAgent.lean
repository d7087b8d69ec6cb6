import MiningAgent.Main
import MiningAgent.Program.Rehearsal
import MiningAgent.Run.Script
import MiningAgent.Settings.Record
import MiningAgent.CommandLine.Spelling
import MiningAgent.Settings.Spelling
import MiningAgent.Proofs.Run.Advance
import MiningAgent.Proofs.Run.History
import MiningAgent.Proofs.Run.Locks
import MiningAgent.Proofs.Run.Charge
import MiningAgent.Proofs.Run.Silence
import MiningAgent.Proofs.Run.Tending
import MiningAgent.Proofs.Run.Lifecycle
import MiningAgent.Proofs.Run.Freshness
import MiningAgent.Proofs.Run.LastSteps
import MiningAgent.Proofs.Run.Stopping
import MiningAgent.Proofs.Run.Faltering
import MiningAgent.Proofs.Run.Generation
import MiningAgent.Proofs.Run.Records
import MiningAgent.Proofs.Run.Settlement
import MiningAgent.Proofs.Run.Accounting
import MiningAgent.Proofs.Run.Draws
import MiningAgent.Proofs.Run.Reproduction
import MiningAgent.Proofs.Run.Provenance
import MiningAgent.Proofs.Run.Ascent
import MiningAgent.Proofs.Run.Rejection
import MiningAgent.Proofs.Session.Unrated
import MiningAgent.Proofs.Json.Faithfulness
import MiningAgent.Proofs.Stream.Separation
import MiningAgent.Proofs.Stream.Sharing
import MiningAgent.Proofs.Settings.Sources
import MiningAgent.Proofs.Difficulty.Newest
import MiningAgent.Proofs.Run.Waiting
import MiningAgent.Proofs.Run.Alone
import MiningAgent.Proofs.Run.Solitude
import MiningAgent.Proofs.Run.Aftermath
import MiningAgent.Proofs.Run.Snapshots
import MiningAgent.Proofs.Report.Seconds
import MiningAgent.Proofs.Stream.Bytes
import MiningAgent.Proofs.Discovery.Nonces
import MiningAgent.Proofs.Discovery.Delays
import MiningAgent.Proofs.Json.Members
import MiningAgent.Proofs.Json.Presentations
import MiningAgent.Proofs.Json.Magnitudes
import MiningAgent.Proofs.Settings.Absence
import MiningAgent.Proofs.CommandLine.Flags
import MiningAgent.Proofs.Settings.Arrangements
