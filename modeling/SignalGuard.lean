import SignalGuard.Cli.Arguments
import SignalGuard.Cli.Error
import SignalGuard.Cli.Log
import SignalGuard.Cli.Output
import SignalGuard.Cli.Program
import SignalGuard.Cyclic
import SignalGuard.Data.Datum
import SignalGuard.Data.Shape
import SignalGuard.Decimal.Shortest
import SignalGuard.Description
import SignalGuard.Description.Build
import SignalGuard.Description.Error
import SignalGuard.Description.Format
import SignalGuard.Description.Records
import SignalGuard.Engine
import SignalGuard.Engine.Config
import SignalGuard.Engine.Error
import SignalGuard.Fault
import SignalGuard.Fault.Monitor
import SignalGuard.File
import SignalGuard.Ingest
import SignalGuard.Json.Fault
import SignalGuard.Json.Number
import SignalGuard.Json.Reader
import SignalGuard.Json.Text
import SignalGuard.Json.Token
import SignalGuard.Json.Writer
import SignalGuard.Main
import SignalGuard.Merge
import SignalGuard.Narrowing
import SignalGuard.Pid
import SignalGuard.Proofs.Abridgement
import SignalGuard.Proofs.Acceptance
import SignalGuard.Proofs.Alarms
import SignalGuard.Proofs.Balance
import SignalGuard.Proofs.ChangeFlag
import SignalGuard.Proofs.ClampOrder
import SignalGuard.Proofs.Confinement
import SignalGuard.Proofs.CounterLaws
import SignalGuard.Proofs.CyclicLaws
import SignalGuard.Proofs.DerivativeKick
import SignalGuard.Proofs.Disabled
import SignalGuard.Proofs.EdgeWakes
import SignalGuard.Proofs.EventOrder
import SignalGuard.Proofs.FaultHistory
import SignalGuard.Proofs.FaultSignals
import SignalGuard.Proofs.Firings
import SignalGuard.Proofs.Formats
import SignalGuard.Proofs.Freshness
import SignalGuard.Proofs.FullRecords
import SignalGuard.Proofs.GlitchFree
import SignalGuard.Proofs.History
import SignalGuard.Proofs.InPlaceSort
import SignalGuard.Proofs.IngestionLaws
import SignalGuard.Proofs.IntegralLimits
import SignalGuard.Proofs.JsonGrammar
import SignalGuard.Proofs.JsonJoining
import SignalGuard.Proofs.JsonLexemes
import SignalGuard.Proofs.JsonReading
import SignalGuard.Proofs.JsonScanning
import SignalGuard.Proofs.JsonStrictness
import SignalGuard.Proofs.JsonSubstitution
import SignalGuard.Proofs.JsonWriting
import SignalGuard.Proofs.LimpCounts
import SignalGuard.Proofs.LimpHome
import SignalGuard.Proofs.Listeners
import SignalGuard.Proofs.Masking
import SignalGuard.Proofs.Meanings
import SignalGuard.Proofs.MonitorLaws
import SignalGuard.Proofs.Outages
import SignalGuard.Proofs.Partition
import SignalGuard.Proofs.Periods
import SignalGuard.Proofs.PersistentErrors
import SignalGuard.Proofs.Phases
import SignalGuard.Proofs.PidArithmetic
import SignalGuard.Proofs.PidRuns
import SignalGuard.Proofs.Printouts
import SignalGuard.Proofs.Ranks
import SignalGuard.Proofs.RecordLaws
import SignalGuard.Proofs.Renderings
import SignalGuard.Proofs.Replays
import SignalGuard.Proofs.ReportLaws
import SignalGuard.Proofs.Reset
import SignalGuard.Proofs.Restep
import SignalGuard.Proofs.RestoreDelay
import SignalGuard.Proofs.Results
import SignalGuard.Proofs.Retries
import SignalGuard.Proofs.Sampling
import SignalGuard.Proofs.Scaling
import SignalGuard.Proofs.ScriptEvents
import SignalGuard.Proofs.ScriptLines
import SignalGuard.Proofs.ScriptRenaming
import SignalGuard.Proofs.SignalNaming
import SignalGuard.Proofs.StageUpdates
import SignalGuard.Proofs.StrictOutputs
import SignalGuard.Proofs.StrictReadings
import SignalGuard.Proofs.StrictStep
import SignalGuard.Proofs.Transcripts
import SignalGuard.Proofs.Validity
import SignalGuard.Proofs.Verdicts
import SignalGuard.Proofs.VoteLaws
import SignalGuard.Proofs.VoteOrder
import SignalGuard.Proofs.VoteOutcomes
import SignalGuard.Proofs.Wiring
import SignalGuard.Proofs.WordArithmetic
import SignalGuard.Proofs.YamlCursor
import SignalGuard.Proofs.YamlLayout
import SignalGuard.Proofs.YamlLiteral
import SignalGuard.Proofs.YamlNodes
import SignalGuard.Proofs.YamlPlain
import SignalGuard.Proofs.YamlQuoted
import SignalGuard.Proofs.YamlReading
import SignalGuard.Proofs.YamlSteps
import SignalGuard.Proofs.YamlTokens
import SignalGuard.Proofs.YamlValues
import SignalGuard.Replay
import SignalGuard.Report
import SignalGuard.Script
import SignalGuard.Script.Schedule
import SignalGuard.Signal
import SignalGuard.Signal.Table
import SignalGuard.Stage
import SignalGuard.Staleness
import SignalGuard.Text.Blank
import SignalGuard.Text.Digits
import SignalGuard.Text.Quoted
import SignalGuard.Text.Unprintable
import SignalGuard.Transform
import SignalGuard.Verified
import SignalGuard.Vote
import SignalGuard.Vote.Median
import SignalGuard.Yaml.Char
import SignalGuard.Yaml.Cursor
import SignalGuard.Yaml.Document
import SignalGuard.Yaml.Fold
import SignalGuard.Yaml.Layout
import SignalGuard.Yaml.Node
import SignalGuard.Yaml.Reader
import SignalGuard.Yaml.Scalar
import SignalGuard.Yaml.Scalar.Block
import SignalGuard.Yaml.Scalar.Plain
import SignalGuard.Yaml.Scalar.Quoted
import SignalGuard.Yaml.Spelling
import SignalGuard.Yaml.Tag
import SignalGuard.Yaml.Token
import SignalGuard.Yaml.Writer
