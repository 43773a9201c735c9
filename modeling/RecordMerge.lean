import RecordMerge.Attribute
import RecordMerge.Attribute.Load
import RecordMerge.Attribute.Store
import RecordMerge.Backoff
import RecordMerge.Batch
import RecordMerge.Batch.Group
import RecordMerge.Batch.Split
import RecordMerge.Bindings
import RecordMerge.Catalog
import RecordMerge.Condition
import RecordMerge.Connection
import RecordMerge.Entries
import RecordMerge.Exchange
import RecordMerge.Failure
import RecordMerge.Failure.Kind
import RecordMerge.Guard
import RecordMerge.Json
import RecordMerge.Json.Plain
import RecordMerge.Json.Read
import RecordMerge.Json.Write
import RecordMerge.KeySchema
import RecordMerge.KeySchema.Loose
import RecordMerge.Leaf
import RecordMerge.Log
import RecordMerge.Merge
import RecordMerge.Metric
import RecordMerge.Number.Binary64
import RecordMerge.Number.Bounds
import RecordMerge.Number.Decimal
import RecordMerge.Number.Layout
import RecordMerge.Number.Numeral
import RecordMerge.Number.Quantity
import RecordMerge.Number.Shortest
import RecordMerge.Placeholder
import RecordMerge.Policy
import RecordMerge.Policy.Given
import RecordMerge.Proofs.Attribute.Native
import RecordMerge.Proofs.Batch.Writes
import RecordMerge.Proofs.Bindings
import RecordMerge.Proofs.Condition
import RecordMerge.Proofs.Condition.Exact
import RecordMerge.Proofs.Condition.Forms
import RecordMerge.Proofs.Condition.Given
import RecordMerge.Proofs.Condition.Passing
import RecordMerge.Proofs.Condition.Reading
import RecordMerge.Proofs.Condition.Scanning
import RecordMerge.Proofs.Condition.Syntax
import RecordMerge.Proofs.Entries
import RecordMerge.Proofs.Exchange
import RecordMerge.Proofs.Expression.Compiled
import RecordMerge.Proofs.Expression.Evaluation
import RecordMerge.Proofs.Expression.Grammar
import RecordMerge.Proofs.Expression.Token
import RecordMerge.Proofs.KeySchema
import RecordMerge.Proofs.Leaf.Path
import RecordMerge.Proofs.Merge.Agreement
import RecordMerge.Proofs.Merge.Keys
import RecordMerge.Proofs.Merge.Storable
import RecordMerge.Proofs.Merge.Write
import RecordMerge.Proofs.Number.Reading
import RecordMerge.Proofs.Outcome
import RecordMerge.Proofs.Placeholder
import RecordMerge.Proofs.Reconcile
import RecordMerge.Proofs.Record.Identity
import RecordMerge.Proofs.Record.Loaded
import RecordMerge.Proofs.Record.Names
import RecordMerge.Proofs.Record.Position
import RecordMerge.Proofs.Record.Reordering
import RecordMerge.Proofs.Record.Storable
import RecordMerge.Proofs.Record.Stored
import RecordMerge.Proofs.Request.Placeholders
import RecordMerge.Proofs.Request.Values
import RecordMerge.Proofs.Schedule
import RecordMerge.Proofs.Update.Assigned
import RecordMerge.Proofs.Value.Distinct
import RecordMerge.Reconcile
import RecordMerge.Release
import RecordMerge.Request
import RecordMerge.Request.Whole
import RecordMerge.Schedule
import RecordMerge.Script
import RecordMerge.Script.Match
import RecordMerge.Service
import RecordMerge.Service.Classifier
import RecordMerge.Service.Response
import RecordMerge.Table
import RecordMerge.Table.Handle
import RecordMerge.Table.Loose
import RecordMerge.Table.Opening
import RecordMerge.Text.Blank
import RecordMerge.Text.DecimalDigit
import RecordMerge.Text.Hex
import RecordMerge.Text.Printable
import RecordMerge.Text.Quoted
import RecordMerge.Text.Search
import RecordMerge.Update
import RecordMerge.Value
import RecordMerge.Value.Equality
import RecordMerge.Value.KeyForm
import RecordMerge.Value.Order
import RecordMerge.Value.Parts
import RecordMerge.Value.Text
import RecordMerge.Proofs.Attribute.Wire
import RecordMerge.Proofs.Attribute.Stored
import RecordMerge.Proofs.Attribute.Restored
import RecordMerge.Proofs.Attribute.Normal
import RecordMerge.Proofs.Batch.Loop
import RecordMerge.Proofs.Backoff
import RecordMerge.Proofs.Batch.Reads
import RecordMerge.Proofs.Batch.Endings
import RecordMerge.Proofs.Merge.Effect
import RecordMerge.Proofs.Merge.Repeated
import RecordMerge.Proofs.Merge.Independent
import RecordMerge.Proofs.Value.Comparison
import RecordMerge.Proofs.Value.Settled
import RecordMerge.Proofs.Exchange.Ending
import RecordMerge.Proofs.Reconcile.Reported
import RecordMerge.Proofs.Attribute.ReadBack
import RecordMerge.Proofs.Leaf.Exact
import RecordMerge.Proofs.Expression.Targets
import RecordMerge.Proofs.Merge.Split
import RecordMerge.Proofs.Merge.Rebuilt
import RecordMerge.Proofs.Leaf.Keys
import RecordMerge.Proofs.Update.Faults
import RecordMerge.Proofs.Condition.Sound
import RecordMerge.Proofs.Leaf.Withheld
import RecordMerge.Proofs.Value.Equivalence
import RecordMerge.Proofs.Bindings.Union
import RecordMerge.Proofs.KeySchema.Normal
import RecordMerge.Proofs.Attribute.Finite
import RecordMerge.Proofs.Batch.Validated
import RecordMerge.Proofs.Failure.Own
import RecordMerge.Proofs.Exchange.Shielded
import RecordMerge.Proofs.Batch.Shielded
import RecordMerge.Proofs.Table.Shielded
import RecordMerge.Proofs.Script.Matching
import RecordMerge.Proofs.Script.Fulfilled
