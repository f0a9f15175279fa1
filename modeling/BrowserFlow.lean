import BrowserFlow.CommandLine.Assignment
import BrowserFlow.CommandLine.Configuration
import BrowserFlow.CommandLine.Program
import BrowserFlow.CommandLine.Request
import BrowserFlow.CommandLine.Suggestion
import BrowserFlow.CommandLine.Usage
import BrowserFlow.Condition.Basic
import BrowserFlow.Condition.Evaluation
import BrowserFlow.Document.Checked
import BrowserFlow.Document.Issue
import BrowserFlow.Document.Reading
import BrowserFlow.Document.Source
import BrowserFlow.Document.Written
import BrowserFlow.Expression.Basic
import BrowserFlow.Expression.Evaluation
import BrowserFlow.Expression.Reading
import BrowserFlow.Expression.Token
import BrowserFlow.Fault.Basic
import BrowserFlow.Fault.Classified
import BrowserFlow.Json.Reading
import BrowserFlow.Json.Written
import BrowserFlow.Log.Basic
import BrowserFlow.Main
import BrowserFlow.Number.Binary
import BrowserFlow.Number.Decimal
import BrowserFlow.Number.Numeral
import BrowserFlow.Page.Basic
import BrowserFlow.Page.Selector
import BrowserFlow.Page.Session
import BrowserFlow.Pattern.Basic
import BrowserFlow.Pattern.Matching
import BrowserFlow.Pattern.Reading
import BrowserFlow.Proofs.CommandLine.Sessions
import BrowserFlow.Proofs.CommandLine.Settings
import BrowserFlow.Proofs.CommandLine.Stream
import BrowserFlow.Proofs.Condition.Equality
import BrowserFlow.Proofs.Condition.Ordering
import BrowserFlow.Proofs.Condition.ShortCircuit
import BrowserFlow.Proofs.Document.Clean
import BrowserFlow.Proofs.Document.Faithful
import BrowserFlow.Proofs.Document.Located
import BrowserFlow.Proofs.Document.Parts
import BrowserFlow.Proofs.Document.Plain
import BrowserFlow.Proofs.Document.Rereading
import BrowserFlow.Proofs.Document.Revalidation
import BrowserFlow.Proofs.Document.Strict
import BrowserFlow.Proofs.Document.Written
import BrowserFlow.Proofs.Expression.Finite
import BrowserFlow.Proofs.Expression.Following
import BrowserFlow.Proofs.Expression.Grammar
import BrowserFlow.Proofs.Expression.Printing
import BrowserFlow.Proofs.Expression.Recognition
import BrowserFlow.Proofs.Expression.Scanning
import BrowserFlow.Proofs.Expression.Spans
import BrowserFlow.Proofs.Expression.Words
import BrowserFlow.Proofs.Fault.Thrown
import BrowserFlow.Proofs.Json.Lines
import BrowserFlow.Proofs.Json.RoundTrip
import BrowserFlow.Proofs.Json.Scalars
import BrowserFlow.Proofs.Number.Differences
import BrowserFlow.Proofs.Number.Finite
import BrowserFlow.Proofs.Number.Integers
import BrowserFlow.Proofs.Number.Layout
import BrowserFlow.Proofs.Number.Midpoints
import BrowserFlow.Proofs.Number.Numeral
import BrowserFlow.Proofs.Number.Products
import BrowserFlow.Proofs.Number.Range
import BrowserFlow.Proofs.Number.Shortest
import BrowserFlow.Proofs.Number.Sums
import BrowserFlow.Proofs.Number.Written
import BrowserFlow.Proofs.Page.Fields
import BrowserFlow.Proofs.Page.Targets
import BrowserFlow.Proofs.Report.Files
import BrowserFlow.Proofs.Report.Records
import BrowserFlow.Proofs.Report.Sections
import BrowserFlow.Proofs.Run.Agreement
import BrowserFlow.Proofs.Run.Asking
import BrowserFlow.Proofs.Run.Atomicity
import BrowserFlow.Proofs.Run.Attempts
import BrowserFlow.Proofs.Run.Bindings
import BrowserFlow.Proofs.Run.Cancellation
import BrowserFlow.Proofs.Run.Containment
import BrowserFlow.Proofs.Run.Counting
import BrowserFlow.Proofs.Run.Courses
import BrowserFlow.Proofs.Run.Deeds
import BrowserFlow.Proofs.Run.Ending
import BrowserFlow.Proofs.Run.Failure
import BrowserFlow.Proofs.Run.Frame
import BrowserFlow.Proofs.Run.History
import BrowserFlow.Proofs.Run.Interruption
import BrowserFlow.Proofs.Run.Logging
import BrowserFlow.Proofs.Run.Names
import BrowserFlow.Proofs.Run.Normalised
import BrowserFlow.Proofs.Run.Outcomes
import BrowserFlow.Proofs.Run.Recursion
import BrowserFlow.Proofs.Run.Reporting
import BrowserFlow.Proofs.Run.Snapshots
import BrowserFlow.Proofs.Run.Stack
import BrowserFlow.Proofs.Run.Stopping
import BrowserFlow.Proofs.Run.Templates
import BrowserFlow.Proofs.Run.Termination
import BrowserFlow.Proofs.Run.Tolerance
import BrowserFlow.Proofs.Run.Trace
import BrowserFlow.Proofs.Run.Turns
import BrowserFlow.Proofs.Storage.Agreement
import BrowserFlow.Proofs.Storage.Confinement
import BrowserFlow.Proofs.Storage.Disks
import BrowserFlow.Proofs.Storage.Paths
import BrowserFlow.Proofs.Storage.Ways
import BrowserFlow.Proofs.Template.Braces
import BrowserFlow.Proofs.Template.Caching
import BrowserFlow.Proofs.Template.Dependence
import BrowserFlow.Proofs.Template.Interpolation
import BrowserFlow.Proofs.Template.Members
import BrowserFlow.Proofs.Template.Names
import BrowserFlow.Proofs.Template.Placeholders
import BrowserFlow.Proofs.Template.Sources
import BrowserFlow.Proofs.Template.Values
import BrowserFlow.Proofs.Text.Mended
import BrowserFlow.Proofs.Text.Numerals
import BrowserFlow.Proofs.Value.NormalForms
import BrowserFlow.Proofs.Value.Normalised
import BrowserFlow.Proofs.Value.Order
import BrowserFlow.Proofs.Value.Ordered
import BrowserFlow.Proofs.Value.Sameness
import BrowserFlow.Proofs.Workflow.DocumentOrder
import BrowserFlow.Proofs.Workflow.KeyForms
import BrowserFlow.Proofs.Workflow.Literals
import BrowserFlow.Proofs.Workflow.Paths
import BrowserFlow.Proofs.Workflow.Places
import BrowserFlow.Proofs.Workflow.ResultKeys
import BrowserFlow.Proofs.Workflow.Violations
import BrowserFlow.Proofs.Workflow.Warnings
import BrowserFlow.Report.Directory
import BrowserFlow.Report.Summary
import BrowserFlow.Run.Basic
import BrowserFlow.Run.Call
import BrowserFlow.Run.Cursor
import BrowserFlow.Run.Environment
import BrowserFlow.Run.Live
import BrowserFlow.Run.Outcome
import BrowserFlow.Run.Policy
import BrowserFlow.Run.Script
import BrowserFlow.Run.Walk
import BrowserFlow.Storage.Disk
import BrowserFlow.Storage.JsonFiles
import BrowserFlow.Storage.Memory
import BrowserFlow.Storage.Path
import BrowserFlow.Template.Basic
import BrowserFlow.Template.Cache
import BrowserFlow.Text.Base64
import BrowserFlow.Text.Basic
import BrowserFlow.Text.Blank
import BrowserFlow.Text.Fold
import BrowserFlow.Value.Basic
import BrowserFlow.Value.Equality
import BrowserFlow.Value.Moment
import BrowserFlow.Value.Normal
import BrowserFlow.Workflow.Basic
import BrowserFlow.Workflow.Checking
import BrowserFlow.Workflow.Place
import BrowserFlow.Workflow.ResultKey
import BrowserFlow.Yaml.Cursor
import BrowserFlow.Yaml.Flaw
import BrowserFlow.Yaml.Mapping
import BrowserFlow.Yaml.Node
import BrowserFlow.Yaml.Reading
import BrowserFlow.Yaml.Scalar
import BrowserFlow.Yaml.Tag
