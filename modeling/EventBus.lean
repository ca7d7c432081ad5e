import EventBus.Bus.Schedule
import EventBus.Event.Query
import EventBus.Event.Reader
import EventBus.Main
import EventBus.Pattern.Index
import EventBus.Pool.Session
import EventBus.Sql.Insert
import EventBus.Store.Any
import EventBus.Time.Clock
import EventBus.Proofs.Store.RingHistory
import EventBus.Proofs.Number.Comparison
import EventBus.Proofs.Json.Walk
import EventBus.Proofs.Pattern.IndexRows
import EventBus.Proofs.Pattern.IndexAgreement
import EventBus.Proofs.Pattern.DocumentParts
import EventBus.Proofs.Pattern.MissingObjects
import EventBus.Proofs.Bus.Persistence
import EventBus.Proofs.Bus.Soundness
import EventBus.Proofs.Bus.RegistryOrder
import EventBus.Proofs.Bus.Inputs
import EventBus.Proofs.Bus.ReplayLimit
import EventBus.Proofs.Bus.Shutdown
import EventBus.Proofs.Pool.Turns
import EventBus.Proofs.Pool.Driven
import EventBus.Proofs.Pool.Line
import EventBus.Proofs.Bus.Agenda
import EventBus.Proofs.Bus.Stalls
import EventBus.Proofs.Bus.Drained
import EventBus.Proofs.Bus.Settling
import EventBus.Proofs.Bus.Overlap
import EventBus.Proofs.Store.RingRefinement
import EventBus.Proofs.Pattern.Grammar
import EventBus.Proofs.Pattern.Offences
import EventBus.Proofs.Sql.Branches
import EventBus.Proofs.Sql.Shape
import EventBus.Proofs.Json.Equality
import EventBus.Proofs.Relational.Meaning
import EventBus.Proofs.Sql.Filling
import EventBus.Proofs.Sql.QueryMeaning
import EventBus.Proofs.Sql.Selection
import EventBus.Proofs.Sql.Failures
import EventBus.Proofs.Sql.Placeholders
import EventBus.Proofs.Text.Utf8
import EventBus.Proofs.Sql.PathCondition
import EventBus.Proofs.Pattern.CompiledParts
import EventBus.Proofs.Pattern.Image
import EventBus.Proofs.Sql.LeafMeaning
import EventBus.Proofs.Text.Lines
import EventBus.Proofs.Ingest.Publishing
import EventBus.Proofs.Json.OneLine
import EventBus.Proofs.Server.RecordReading
import EventBus.Proofs.Server.StreamCourse
import EventBus.Proofs.Bus.DrivenReplay
import EventBus.Proofs.Sql.Chronology
import EventBus.Proofs.Event.RoundTrip
import EventBus.Proofs.Server.Batches
import EventBus.Proofs.Bus.Independence
import EventBus.Proofs.Text.Words
import EventBus.Proofs.Server.StreamRequests
import EventBus.Proofs.Pattern.NamedFields
import EventBus.Proofs.Json.NumberRange
import EventBus.Proofs.Pattern.NumberLiterals
import EventBus.Proofs.Pattern.MoreData
import EventBus.Proofs.Pattern.EventFromRows
import EventBus.Proofs.Sql.StoredEvents
import EventBus.Proofs.Toml.Strings
import EventBus.Proofs.Toml.Lines
import EventBus.Proofs.Net.AddressText
import EventBus.Proofs.Time.SpanReading
import EventBus.Proofs.Config.Layers
import EventBus.Proofs.Cli.FlagValues
import EventBus.Proofs.Config.PrintedBack
