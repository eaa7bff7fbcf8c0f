import Veda.Authorization.RoundTrip
import Veda.Authorization.Counting
import Veda.Authorization.Walk
import Veda.Authorization.RecordCheck
import Veda.Authorization.ObjectWalk
import Veda.Authorization.SubjectWalk
import Veda.Authorization.Decision
import Veda.Authorization.Soundness
import Veda.Authorization.Together
import Veda.Indexer.Common
import Veda.Indexer.Entries
import Veda.Indexer.RecordUpdate
import Veda.Indexer.RightsFollow
import Veda.Indexer.Visits
import Veda.Indexer.Wraps
import Veda.Indexer.Replays
import Veda.Indexer.KeyCounts
import Veda.Indexer.Filters
import Veda.Indexer.Marks
import Veda.Lib.Msgpack
import Veda.Onto.Msgpack
import Veda.Onto.Reading
import Veda.Onto.Stored
import Veda.Onto.Damage
import Veda.Onto.Lossless
import Veda.Onto.Lazy
import Veda.Onto.Decoded
import Veda.Onto.Cbor
import Veda.Onto.CborEntries
import Veda.Onto.CborLazy
import Veda.Mstorage.Operation
import Veda.Mstorage.FailStore
import Veda.Mstorage.Numbers
import Veda.Mstorage.NewState
import Veda.Mstorage.Counters
import Veda.Mstorage.Rights
import Veda.Indexer.Filters
import Veda.Indexer.Marks
import Veda.VQueue.Record
import Veda.VQueue.Files
import Veda.VQueue.Consumer
import Veda.VQueue.Reading
import Veda.VQueue.Writing
import Veda.VQueue.Lines
import Veda.VQueue.Runs
import Veda.VQueue.Restart
import Veda.VQueue.Failures
import Veda.VQueue.Batches
import Veda.VQueue.Producing
import Veda.VModule.ListenQueue
import Veda.Ccus.Server
import Veda.Ccus.Told
import Veda.Ccus.Order
import Veda.V8.Transaction
import Veda.Lib.Collect
import Veda.Onto.Hierarchy
import Veda.Lib.LastWriter
import Veda.Xapian.IndexSchema
import Veda.Lib.Calendar
import Veda.Onto.Json
import Veda.Onto.JsonExchange
import Veda.Lib.Precedence
import Veda.Xapian.Vql
import Veda.Xapian.QueryText
import Veda.Xapian.QueryBytes
import Veda.Xapian.QueryReading
import Veda.Onto.Values
import Veda.VModule.Ticket
import Veda.Authorization.GroupTrace
import Veda.Auth.Common
import Veda.Auth.Trusted
import Veda.Auth.Authenticate
import Veda.Auth.Passwords
import Veda.Auth.Attempts
import Veda.Auth.Secrets
import Veda.Lib.Effects
import Veda.NanoBpmn.Common
import Veda.NanoBpmn.Elements
import Veda.NanoBpmn.Engine
import Veda.NanoBpmn.Commands
import Veda.NanoBpmn.UserTask
import Veda.NanoBpmn.Gateway
import Veda.NanoBpmn.Pending
import Veda.NanoBpmn.EndEvent
import Veda.Numerator.Scope
import Veda.Numerator.Documents
import Veda.GoWebserver.Values
import Veda.GoWebserver.Individual
import Veda.Lib.Numeral
import Veda.GoWebserver.Agreement
import Veda.GoWebserver.Connector
import Veda.Exim.Message
import Veda.Lib.Base64
import Veda.Onto.Contents
import Veda.Exim.RoundTrip
import Veda.VModule.Committing
import Veda.Exim.Sending
import Veda.Mstorage.Changes
import Veda.Ontologist.OntoIndex
import Veda.FanoutSql.Export
import Veda.FanoutSql.Copies
import Veda.Lib.Grouping
import Veda.SearchIndex.TypeTables
import Veda.SearchIndex.Collapsing
import Veda.SearchIndex.Restarts
import Veda.V8.EventPath
import Veda.V8.Cascade
import Veda.VModule.ModuleInfo
import Veda.GoWebserver.Ticket
import Veda.V8.Commit
import Veda.Onto.Faults
import Veda.V8.Common
import Veda.Xapian.StoredValues
import Veda.V8.LowPriority
import Veda.GoWebserver.Queue
import Veda.GoWebserver.QueueConsumer
import Veda.GoWebserver.QueueDelivery
import Veda.Onto.DamagedCalls
import Veda.Lib.LinkedList
import Veda.Util.CreateVersion
import Veda.Indexer.FormatOne
import Veda.Onto.Edits
import Veda.Indexer.Commuting
import Veda.VQueue.MissingParts
import Veda.VQueue.FailedBody
import Veda.Browser.UpdateService
import Veda.Browser.SaveDelta
import Veda.VQueue.BatchSize
import Veda.Authorization.Completeness
import Veda.Authorization.Granting
import Veda.Mstorage.PartialCommands
import Veda.Onto.Comparison
import Veda.Onto.Reuse
import Veda.V8.ScriptsOrder
import Veda.Xapian.Key2Slot
import Veda.Xapian.QueryPanics
import Veda.Xapian.ResultLoop
import Veda.Xapian.QueryTranslation
import Veda.V8.Concurrent
import Veda.Docflow.AndJoin
import Veda.Docflow.WorkOrders
import Veda.SearchIndex.PredicateTables
import Veda.SearchIndex.Rereading
import Veda.FtIndexer.PrepareIndex
import Veda.FtIndexer.Termination
import Veda.FtIndexer.LinkedFields
import Veda.FtIndexer.Indexing
import Veda.NanoBpmn.Forwarding
import Veda.VModule.TicketTimes
import Veda.Browser.Merge
import Veda.Docflow.WorkItemResult
import Veda.Browser.Reset
import Veda.Numerator.Intervals
import Veda.Lib.Padding
import Veda.SearchIndex.TableBlocks
import Veda.SearchIndex.Rectangular
import Veda.GoWebserver.DecimalText
import Veda.VQueue.Marker
import Veda.NanoBpmn.PathLookup
import Veda.FtIndexer.Following
import Veda.Mstorage.Pipeline
