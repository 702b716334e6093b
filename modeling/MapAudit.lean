import MapAudit.Main
import MapAudit.Database.Load
import MapAudit.Store.Memory
import MapAudit.Proofs.Change.Encoding
import MapAudit.Proofs.Change.Record
import MapAudit.Proofs.Change.TagDiff
import MapAudit.Proofs.Changeset.Window
import MapAudit.Proofs.Database.Mirror
import MapAudit.Proofs.Database.Mirroring
import MapAudit.Proofs.Database.Row
import MapAudit.Proofs.Database.Statement
import MapAudit.Proofs.Database.Summary
import MapAudit.Proofs.Database.Tables
import MapAudit.Proofs.Decimal.Digit
import MapAudit.Proofs.Entity.Encoding
import MapAudit.Proofs.Entity.Geometry
import MapAudit.Proofs.Json.Fields
import MapAudit.Proofs.Json.Number
import MapAudit.Proofs.Json.Printer
import MapAudit.Proofs.Json.RoundTrip
import MapAudit.Proofs.Json.Token
import MapAudit.Proofs.Run.Abreast
import MapAudit.Proofs.Run.Accounts
import MapAudit.Proofs.Run.Batches
import MapAudit.Proofs.Run.Capacity
import MapAudit.Proofs.Run.Chain
import MapAudit.Proofs.Run.Committed
import MapAudit.Proofs.Run.Crew
import MapAudit.Proofs.Run.Effect
import MapAudit.Proofs.Run.Encoding
import MapAudit.Proofs.Run.Faults
import MapAudit.Proofs.Run.InMemory
import MapAudit.Proofs.Run.Interleaving
import MapAudit.Proofs.Run.Invisible
import MapAudit.Proofs.Run.Kept
import MapAudit.Proofs.Run.Known
import MapAudit.Proofs.Run.Lifecycle
import MapAudit.Proofs.Run.Naming
import MapAudit.Proofs.Run.Origin
import MapAudit.Proofs.Run.Refinement
import MapAudit.Proofs.Run.Refused
import MapAudit.Proofs.Run.Rehearsal
import MapAudit.Proofs.Run.Reordering
import MapAudit.Proofs.Run.Replay
import MapAudit.Proofs.Run.Rising
import MapAudit.Proofs.Run.Session
import MapAudit.Proofs.Run.Stages
import MapAudit.Proofs.Run.Strictness
import MapAudit.Proofs.Run.Versions
import MapAudit.Proofs.Stream.Changes
import MapAudit.Proofs.Stream.Lines
import MapAudit.Proofs.Time.Calendar
import MapAudit.Proofs.Time.Millis
import MapAudit.Proofs.Time.Rfc3339
import MapAudit.Proofs.Database.Writes
import MapAudit.Proofs.Run.Written
import MapAudit.Proofs.Database.Failures
import MapAudit.Proofs.Run.Culprit
import MapAudit.Proofs.Database.Chronicle
import MapAudit.Proofs.Database.Closing
import MapAudit.Proofs.Change.NormalForm
import MapAudit.Proofs.Change.Patch
import MapAudit.Proofs.Changeset.Fifo
import MapAudit.Proofs.Run.Consultation
import MapAudit.Proofs.Run.Retry
import MapAudit.Proofs.Database.Current
import MapAudit.Proofs.Database.Listing
import MapAudit.Proofs.Stream.Reading
import MapAudit.Proofs.Json.Grammar
import MapAudit.Proofs.Json.Language
import MapAudit.Proofs.Entity.Layout
import MapAudit.Proofs.Database.StoredTime
import MapAudit.Proofs.Change.ChangedKeys
import MapAudit.Proofs.Database.Definitions
import MapAudit.Proofs.Database.Migration
import MapAudit.Proofs.Database.Resumption
