import MenuActions.Main
import MenuActions.Rehearsal
import MenuActions.Schedule.Workload
import MenuActions.Definition.Document
import MenuActions.Json.Reader
import MenuActions.Services
import MenuActions.Proofs.Grammar.BlockForm
import MenuActions.Proofs.Action.RawText
import MenuActions.Proofs.Grammar.BlockItems
import MenuActions.Proofs.Grammar.BlockRoundTrip
import MenuActions.Proofs.Grammar.KeywordScan
import MenuActions.Proofs.Grammar.ConditionalData
import MenuActions.Proofs.Template.TokenFree
import MenuActions.Proofs.Schedule.Drive
import MenuActions.Proofs.Schedule.Straight
import MenuActions.Proofs.Action.TypedText
import MenuActions.Proofs.Decimal.Numerals
import MenuActions.Proofs.Grammar.WeightedEntry
import MenuActions.Proofs.Registry.Builtin
import MenuActions.Proofs.ScriptTree.Basic
import MenuActions.Proofs.ScriptTree.Reading
import MenuActions.Proofs.ScriptTree.Values
import MenuActions.Proofs.ScriptTree.Meaning
import MenuActions.Proofs.Schedule.Orderly
import MenuActions.Proofs.Schedule.OrderlyMachine
import MenuActions.Proofs.Schedule.Progress
import MenuActions.Proofs.Schedule.Exhaustion
import MenuActions.Proofs.Executor.DispatchRecord
import MenuActions.Proofs.Executor.OrderlyDispatch
import MenuActions.Proofs.Engine.Nesting
import MenuActions.Proofs.Schedule.Accounts
import MenuActions.Proofs.Schedule.ClosedPools
import MenuActions.Proofs.Schedule.Permits
import MenuActions.Proofs.Schedule.RetiredPools
import MenuActions.Proofs.Schedule.ShutdownReport
import MenuActions.Proofs.Engine.Finality
import MenuActions.Proofs.Schedule.WaitsFor
import MenuActions.Proofs.Schedule.Crowd
import MenuActions.Proofs.Engine.RandomWaits
import MenuActions.Proofs.ActionResult.Aggregate
import MenuActions.Proofs.Rehearsal.PacedSequence
import MenuActions.Proofs.Template.Substitution
import MenuActions.Proofs.Executor.RandomEntries
import MenuActions.Proofs.Schedule.Alike
import MenuActions.Proofs.Executor.UnseenRecord
import MenuActions.Proofs.Engine.ZeroDelay
import MenuActions.Proofs.Backend.Ledger
import MenuActions.Proofs.Grammar.BranchText
import MenuActions.Proofs.Grammar.ConditionalRoundTrip
import MenuActions.Proofs.Schedule.Course
import MenuActions.Proofs.Executor.ValueRuns
import MenuActions.Proofs.Executor.Validity
import MenuActions.Proofs.Schedule.GoingOn
import MenuActions.Proofs.Schedule.Chronicle
import MenuActions.Proofs.Executor.DispatchTells
import MenuActions.Proofs.Engine.Chronicles
import MenuActions.Proofs.Engine.DefinitionStatus
import MenuActions.Proofs.Executor.ValueCalls
import MenuActions.Proofs.Engine.CallLedger
import MenuActions.Proofs.Grammar.ConditionTerms
import MenuActions.Proofs.Grammar.ConditionRoundTrip
import MenuActions.Proofs.Grammar.BareTerms
import MenuActions.Proofs.Engine.BracedNames
import MenuActions.Proofs.Text.LowerCase
import MenuActions.Proofs.Registry.History
import MenuActions.Proofs.Json.Table
import MenuActions.Proofs.Template.Filling
import MenuActions.Proofs.Catalog.Rendering
import MenuActions.Proofs.Schedule.Delivery
import MenuActions.Proofs.Executor.DispatchRenders
import MenuActions.Proofs.Engine.FullRendering
import MenuActions.Proofs.Action.WrittenText
import MenuActions.Proofs.Grammar.ErrorPosition
import MenuActions.Proofs.Grammar.DisplacedError
import MenuActions.Proofs.Schedule.TimedCourse
import MenuActions.Proofs.Schedule.Punctual
import MenuActions.Proofs.Schedule.Sightings
import MenuActions.Proofs.Schedule.Timeline
import MenuActions.Proofs.Schedule.FreeWorkers
import MenuActions.Proofs.Schedule.SoundBodies
import MenuActions.Proofs.Schedule.DelayedTurns
import MenuActions.Proofs.Executor.DelayedChain
import MenuActions.Proofs.Engine.DelayedChains
import MenuActions.Proofs.Grammar.ConditionMeaning
import MenuActions.Proofs.Template.Occurrences
import MenuActions.Proofs.Grammar.MixedList
import MenuActions.Proofs.Grammar.ValueShapes
import MenuActions.Proofs.Definition.NormalForm
import MenuActions.Proofs.Executor.EntryWeights
import MenuActions.Proofs.Grammar.ProportionalChoice
import MenuActions.Proofs.Delay.Notations
import MenuActions.Proofs.Value.Titles
import MenuActions.Proofs.Value.Inventories
import MenuActions.Proofs.Text.Utf8
import MenuActions.Proofs.Grammar.LineEndings
import MenuActions.Proofs.Grammar.ByteSearch
import MenuActions.Proofs.Grammar.KeywordBytes
import MenuActions.Proofs.Grammar.QuoteScans
import MenuActions.Proofs.Grammar.Cuts
import MenuActions.Proofs.Grammar.Cursor
import MenuActions.Proofs.Grammar.BlockCuts
import MenuActions.Proofs.Grammar.ListCuts
import MenuActions.Proofs.Grammar.ConditionCuts
import MenuActions.Proofs.Grammar.BranchKeywords
import MenuActions.Proofs.Grammar.ConditionalCuts
import MenuActions.Proofs.Grammar.LiteralForm
