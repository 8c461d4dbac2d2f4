import QueryFilter.Calendar.Date
import QueryFilter.Calendar.Instant
import QueryFilter.Calendar.Reader
import QueryFilter.Catalog.Fields
import QueryFilter.Catalog.Resource
import QueryFilter.Condition.Basic
import QueryFilter.Condition.RowId
import QueryFilter.Decimal.Double
import QueryFilter.Decimal.Literal
import QueryFilter.Decimal.Power
import QueryFilter.Decimal.Shortest
import QueryFilter.Entries
import QueryFilter.Field.Basic
import QueryFilter.Field.Source
import QueryFilter.Filter.Compile
import QueryFilter.Filter.Describe
import QueryFilter.Filter.Editor
import QueryFilter.Filter.Restore
import QueryFilter.Json.Basic
import QueryFilter.Json.Draft
import QueryFilter.Json.Literal
import QueryFilter.Json.Printer
import QueryFilter.Json.Reading
import QueryFilter.Listing.ListParams
import QueryFilter.Listing.ListQuery
import QueryFilter.Main
import QueryFilter.Operand
import QueryFilter.Operator.Basic
import QueryFilter.Operator.Compatibility
import QueryFilter.Operator.Table
import QueryFilter.Proofs.Calendar.Reader
import QueryFilter.Proofs.Catalog.Fields
import QueryFilter.Proofs.Catalog.Paths
import QueryFilter.Proofs.Catalog.Trails
import QueryFilter.Proofs.Condition.Canonical
import QueryFilter.Proofs.Condition.Compatible
import QueryFilter.Proofs.Decimal.Digits
import QueryFilter.Proofs.Decimal.Text
import QueryFilter.Proofs.Entries
import QueryFilter.Proofs.Entries.Joined
import QueryFilter.Proofs.Filter.Bounds
import QueryFilter.Proofs.Filter.Calls
import QueryFilter.Proofs.Filter.Choices
import QueryFilter.Proofs.Filter.Compile
import QueryFilter.Proofs.Filter.Drafts
import QueryFilter.Proofs.Filter.Grounded
import QueryFilter.Proofs.Filter.InScope
import QueryFilter.Proofs.Filter.Inert
import QueryFilter.Proofs.Filter.Integers
import QueryFilter.Proofs.Filter.Joined
import QueryFilter.Proofs.Filter.Lists
import QueryFilter.Proofs.Filter.Lossless
import QueryFilter.Proofs.Filter.Mode
import QueryFilter.Proofs.Filter.Nested
import QueryFilter.Proofs.Filter.Nesting
import QueryFilter.Proofs.Filter.Normal
import QueryFilter.Proofs.Filter.Offered
import QueryFilter.Proofs.Filter.Operands
import QueryFilter.Proofs.Filter.Quantified
import QueryFilter.Proofs.Filter.Recompile
import QueryFilter.Proofs.Filter.Restore
import QueryFilter.Proofs.Filter.RoundTrip
import QueryFilter.Proofs.Filter.Rows
import QueryFilter.Proofs.Filter.Scalar
import QueryFilter.Proofs.Filter.Sentences
import QueryFilter.Proofs.Filter.Settled
import QueryFilter.Proofs.Filter.Stability
import QueryFilter.Proofs.Filter.Termination
import QueryFilter.Proofs.Filter.Walk
import QueryFilter.Proofs.Filter.WellFormed
import QueryFilter.Proofs.Filter.Words
import QueryFilter.Proofs.Filter.Written
import QueryFilter.Proofs.Json.Same
import QueryFilter.Proofs.Listing.Inlined
import QueryFilter.Proofs.Listing.ListParams
import QueryFilter.Proofs.Operand
import QueryFilter.Proofs.Query.Append
import QueryFilter.Proofs.Query.Bracket
import QueryFilter.Proofs.Query.Grammar
import QueryFilter.Proofs.Query.Image
import QueryFilter.Proofs.Query.Independent
import QueryFilter.Proofs.Query.Insert
import QueryFilter.Proofs.Query.Lasting
import QueryFilter.Proofs.Query.Reread
import QueryFilter.Proofs.Query.RoundTrip
import QueryFilter.Proofs.Query.Survivor
import QueryFilter.Proofs.Resolver
import QueryFilter.Proofs.Resolver.Memory
import QueryFilter.Proofs.Service.Depth
import QueryFilter.Proofs.Service.Faults
import QueryFilter.Proofs.Service.InScope
import QueryFilter.Proofs.Service.Intake
import QueryFilter.Proofs.Service.Integers
import QueryFilter.Proofs.Service.Published
import QueryFilter.Proofs.Service.Readers
import QueryFilter.Proofs.Service.Requests
import QueryFilter.Proofs.Service.Resent
import QueryFilter.Proofs.Service.Return
import QueryFilter.Proofs.Text.Boundary
import QueryFilter.Proofs.Text.Form
import QueryFilter.Proofs.Text.Percent
import QueryFilter.Proofs.Text.Split
import QueryFilter.Proofs.Text.Utf8
import QueryFilter.Query.Bracket
import QueryFilter.Query.Leaf
import QueryFilter.Resolver
import QueryFilter.Server.Body
import QueryFilter.Server.Exchange
import QueryFilter.Server.MediaType
import QueryFilter.Server.Message
import QueryFilter.Server.Options
import QueryFilter.Server.Refusal
import QueryFilter.Server.Route
import QueryFilter.Service.Backend
import QueryFilter.Service.Fault
import QueryFilter.Service.Filters
import QueryFilter.Service.Input
import QueryFilter.Service.Rows
import QueryFilter.Service.Status
import QueryFilter.Service.View
import QueryFilter.Text.Blank
import QueryFilter.Text.Form
import QueryFilter.Text.Percent
import QueryFilter.Text.Split
import QueryFilter.Text.Utf8
import QueryFilter.Text.Visible
