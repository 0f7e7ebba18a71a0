import UiSync.Caption
import UiSync.Dict
import UiSync.SequenceNumber
import UiSync.Text.Blank
import UiSync.Text.Quoted
import UiSync.Json.Decimal
import UiSync.Json.Reason
import UiSync.Json.Reading
import UiSync.Json.Number
import UiSync.Json.Strings
import UiSync.Json.Reader
import UiSync.Json.Record
import UiSync.Message.Basic
import UiSync.Message.Encode
import UiSync.Message.Decode
import UiSync.Json.View
import UiSync.MouseEvent
import UiSync.Data.Query
import UiSync.Shape
import UiSync.FieldBag
import UiSync.FieldRules
import UiSync.Component.Basic
import UiSync.Component.Tree
import UiSync.Session.CallQueue
import UiSync.Session.DirtySet
import UiSync.Session.Invoking
import UiSync.Session.Registry
import UiSync.Session.SequenceGuard
import UiSync.Session.Basic
import UiSync.Session.Cascade
import UiSync.Session.Delivery
import UiSync.Session.Response
import UiSync.Client
import UiSync.Data.Board
import UiSync.Data.Sources
import UiSync.Transaction.Basic
import UiSync.Transaction.Context
import UiSync.Server
import UiSync.Demo.Behaviour
import UiSync.Demo.Form
import UiSync.Demo.Listeners
import UiSync.Demo.Catalogue
import UiSync.Json.Written
import UiSync.Connection
import UiSync.Demo.Stage
import UiSync.Proofs.Dict
import UiSync.Proofs.Lists
import UiSync.Proofs.FieldBag
import UiSync.Proofs.Json.Same
import UiSync.Proofs.Replica.Mirrors
import UiSync.Proofs.SequenceNumber
import UiSync.Proofs.Tree.PreOrder
import UiSync.Proofs.Session.Tracking
import UiSync.Proofs.Session.Delivering
import UiSync.Proofs.Session.Settling
import UiSync.Proofs.Session.Responding
import UiSync.Proofs.Session.History
import UiSync.Proofs.Client
import UiSync.Proofs.Sync.Reception
import UiSync.Proofs.Session.Exchange
import UiSync.Proofs.Sync.Recovery
import UiSync.Proofs.Sync.FirstContact
import UiSync.Proofs.Sync.Restart
import UiSync.Proofs.Sync.Numbering
import UiSync.Proofs.Tree.Order
import UiSync.Proofs.Tree.Runs
import UiSync.Proofs.Session.Calls
import UiSync.Proofs.Session.HookRuns
import UiSync.Proofs.Session.Marks
import UiSync.Proofs.Session.Tidy
import UiSync.Proofs.Session.Evolving
import UiSync.Proofs.Session.GivingUp
import UiSync.Proofs.Session.Chronicle
import UiSync.Proofs.Session.CallLedger
import UiSync.Proofs.Session.Sends
import UiSync.Proofs.Session.Contents
import UiSync.Proofs.Session.Tables
import UiSync.Proofs.Session.FirstSend
import UiSync.Proofs.Session.Versions
import UiSync.Proofs.Session.Reordering
import UiSync.Proofs.Transaction.Threads
import UiSync.Proofs.Transaction.Exclusion
import UiSync.Proofs.Json.RoundTrip
import UiSync.Proofs.Message.RoundTrip
import UiSync.Proofs.FieldBag.Differences
import UiSync.Proofs.Session.Chains
import UiSync.Proofs.Server.Isolation
import UiSync.Proofs.Transaction.Unwinding
import UiSync.Proofs.Message.Sealed
import UiSync.Proofs.Session.Skipping
import UiSync.Proofs.Session.Requests
import UiSync.Proofs.Tree.Blocks
import UiSync.Proofs.Sync.Arrivals
import UiSync.Proofs.Data.Paging
import UiSync.Proofs.Data.Wrapping
import UiSync.Proofs.Data.Boards
import UiSync.Proofs.Data.Replacement
import UiSync.Proofs.Data.Coherence
import UiSync.Proofs.Caption
import UiSync.Proofs.Session.Redelivery
import UiSync.Proofs.Server.Handling
import UiSync.Proofs.Session.Upkeep
import UiSync.Proofs.Demo.Regular
import UiSync.Proofs.Demo.Form
import UiSync.Proofs.Demo.Editing
import UiSync.Proofs.Sync.Lossless
import UiSync.Proofs.Demo.Summing
import UiSync.Proofs.Demo.Trips
import UiSync.Proofs.Replica.Detaching
import UiSync.Proofs.Data.Listening
import UiSync.Proofs.Data.Audience
