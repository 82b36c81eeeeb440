import DocTable.Client.Metered
import DocTable.Client.Pool
import DocTable.Proofs.Gate.Delivery
import DocTable.Proofs.Gate.Settling
import DocTable.Proofs.Table.Operations
import DocTable.Release
import DocTable.Schema.DocumentText
import DocTable.Schema.RecordType
import DocTable.Table.Call
import DocTable.Proofs.Condition.Translation
import DocTable.Proofs.Json.RoundTrip
import DocTable.Proofs.Token.Base64
import DocTable.Proofs.Value.Sorting
import DocTable.Proofs.Value.Tree
import DocTable.Proofs.Token.Reading
import DocTable.Proofs.Token.Equality
import DocTable.Proofs.Token.RoundTrip
import DocTable.Proofs.Token.Refusals
import DocTable.Proofs.Table.Scripts
import DocTable.Proofs.Table.Positions
import DocTable.Proofs.Number.Integers
import DocTable.Proofs.Value.Restored
import DocTable.Proofs.Json.Restored
import DocTable.Proofs.Stored.RoundTrip
import DocTable.Proofs.Field.RoundTrip
import DocTable.Proofs.Schema.Layout
import DocTable.Proofs.Schema.RoundTrip
import DocTable.Proofs.Update.Flattening
import DocTable.Proofs.Update.Translation
import DocTable.Proofs.Field.Refusals
import DocTable.Proofs.Schema.Keys
import DocTable.Proofs.Update.Guard
import DocTable.Proofs.Value.Shown
import DocTable.Proofs.Schema.Presentable
import DocTable.Proofs.Schema.Documents
import DocTable.Proofs.Token.Native
import DocTable.Proofs.Table.Answers
import DocTable.Proofs.Table.HandOver
import DocTable.Proofs.Schema.EmptySets
import DocTable.Proofs.Table.KeyRequests
import DocTable.Proofs.Field.Reading
import DocTable.Proofs.Table.Reporting
import DocTable.Proofs.Table.Streams
import DocTable.Proofs.Token.Validation
import DocTable.Proofs.Gate.Agreement
import DocTable.Proofs.Gate.Coherence
import DocTable.Proofs.Condition.Members
import DocTable.Proofs.Schema.KeyFields
import DocTable.Proofs.Table.Selection
import DocTable.Proofs.Schema.Refusals
import DocTable.Proofs.Schema.EntriesKept
import DocTable.Proofs.Field.Canonical
import DocTable.Proofs.Field.WholeFloats
import DocTable.Proofs.Client.Matching
import DocTable.Proofs.Client.Sharing
import DocTable.Proofs.Table.Creation
