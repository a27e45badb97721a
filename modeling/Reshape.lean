import Reshape.Binary64.Arithmetic
import Reshape.Binary64.Basic
import Reshape.Binary64.Decimal
import Reshape.Binary64.Numeral
import Reshape.Broker
import Reshape.Consumption
import Reshape.Consumption.Delivery
import Reshape.Consumption.Script
import Reshape.DeadLetter
import Reshape.Definition
import Reshape.Document
import Reshape.Expression.Arity
import Reshape.Expression.Builtin
import Reshape.Expression.Compiled
import Reshape.Expression.Evaluation
import Reshape.Expression.Lexer
import Reshape.Expression.Library
import Reshape.Expression.Parser
import Reshape.Expression.Program
import Reshape.Expression.Token
import Reshape.Expression.Tree
import Reshape.Expression.Value
import Reshape.Json.Basic
import Reshape.Json.Fields
import Reshape.Json.Reader
import Reshape.Json.Writer
import Reshape.Keyed
import Reshape.LogFilter
import Reshape.Message
import Reshape.Outbox
import Reshape.Processing
import Reshape.Proofs.Abreast
import Reshape.Proofs.Access
import Reshape.Proofs.Application
import Reshape.Proofs.Arguments
import Reshape.Proofs.Arities
import Reshape.Proofs.Backoff
import Reshape.Proofs.Balance
import Reshape.Proofs.Calls
import Reshape.Proofs.ChainedCalls
import Reshape.Proofs.Chaining
import Reshape.Proofs.Choice
import Reshape.Proofs.Confinement
import Reshape.Proofs.Congruence
import Reshape.Proofs.Conservation
import Reshape.Proofs.Courses
import Reshape.Proofs.Coverage
import Reshape.Proofs.Credentials
import Reshape.Proofs.Decimals
import Reshape.Proofs.Decoding
import Reshape.Proofs.Digits
import Reshape.Proofs.Distinct
import Reshape.Proofs.Documents
import Reshape.Proofs.Endings
import Reshape.Proofs.Envelopes
import Reshape.Proofs.Erasure
import Reshape.Proofs.Escapes
import Reshape.Proofs.Exactness
import Reshape.Proofs.Flat
import Reshape.Proofs.Folding
import Reshape.Proofs.Handover
import Reshape.Proofs.Hops
import Reshape.Proofs.InStep
import Reshape.Proofs.Integers
import Reshape.Proofs.Laps
import Reshape.Proofs.Ledger
import Reshape.Proofs.Lexing
import Reshape.Proofs.Lifetime
import Reshape.Proofs.Likeness
import Reshape.Proofs.LiteralTokens
import Reshape.Proofs.Literals
import Reshape.Proofs.Lookahead
import Reshape.Proofs.Markers
import Reshape.Proofs.Members
import Reshape.Proofs.Merging
import Reshape.Proofs.Metering
import Reshape.Proofs.Names
import Reshape.Proofs.Nearness
import Reshape.Proofs.Nesting
import Reshape.Proofs.Normalizing
import Reshape.Proofs.NumberTokens
import Reshape.Proofs.Numerals
import Reshape.Proofs.Operations
import Reshape.Proofs.Overriding
import Reshape.Proofs.Pacing
import Reshape.Proofs.Parsing
import Reshape.Proofs.Pieces
import Reshape.Proofs.Placement
import Reshape.Proofs.Places
import Reshape.Proofs.Precedence
import Reshape.Proofs.Preludes
import Reshape.Proofs.Publishing
import Reshape.Proofs.Quoting
import Reshape.Proofs.Reading
import Reshape.Proofs.Records
import Reshape.Proofs.Regrouping
import Reshape.Proofs.Rereading
import Reshape.Proofs.RoundTrips
import Reshape.Proofs.Rounding
import Reshape.Proofs.Runs
import Reshape.Proofs.Scalars
import Reshape.Proofs.Scaling
import Reshape.Proofs.Scanning
import Reshape.Proofs.Selecting
import Reshape.Proofs.Sequencing
import Reshape.Proofs.Settling
import Reshape.Proofs.Shortest
import Reshape.Proofs.Spellings
import Reshape.Proofs.Splitting
import Reshape.Proofs.Streams
import Reshape.Proofs.Strings
import Reshape.Proofs.Sublanguage
import Reshape.Proofs.Substrings
import Reshape.Proofs.Subtrees
import Reshape.Proofs.Taking
import Reshape.Proofs.Tens
import Reshape.Proofs.Trimming
import Reshape.Proofs.Turns
import Reshape.Proofs.Utf8
import Reshape.Proofs.Views
import Reshape.Proofs.Written
import Reshape.Retry
import Reshape.Settings
import Reshape.Settings.Loading
import Reshape.Settings.Path
import Reshape.Settings.Reading
import Reshape.Settings.Redaction
import Reshape.Settings.Value
import Reshape.Snapshot
import Reshape.Store
import Reshape.Subscription
import Reshape.Text.Blank
import Reshape.Text.Case
import Reshape.Text.Letter
import Reshape.Text.Numeral
import Reshape.Text.Quoted
import Reshape.Text.Ranges
import Reshape.Text.Search
import Reshape.Text.Table.CaseMap
import Reshape.Text.Table.Cased
import Reshape.Text.Table.Hidden
import Reshape.Text.Table.Letter
import Reshape.Text.Utf8
import Reshape.Transform
import Reshape.Word
import Reshape.Worker
import Reshape.Yaml
import Reshape.Yaml.Cursor
import Reshape.Yaml.Reader
import Reshape.Yaml.Scalar
import Reshape.Yaml.Tag
import Reshape.Yaml.Token
