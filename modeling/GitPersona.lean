import GitPersona.Text.Blank
import GitPersona.Text.Case.Table
import GitPersona.Text.Case
import GitPersona.Text.Quoted
import GitPersona.Text.Base64
import GitPersona.Glob.Pattern
import GitPersona.Glob.Match
import GitPersona.Path
import GitPersona.Bindings
import GitPersona.Choice
import GitPersona.Calendar
import GitPersona.Decimal.Binary
import GitPersona.Decimal.Fixed
import GitPersona.Decimal.Shortest
import GitPersona.Decimal.Reader
import GitPersona.Digest.Sha256
import GitPersona.Document
import GitPersona.Reading
import GitPersona.Json.Quote
import GitPersona.Json.Reader
import GitPersona.Yaml.Cursor
import GitPersona.Yaml.Token
import GitPersona.Yaml.Lexeme
import GitPersona.Yaml.Scanner
import GitPersona.Yaml.Node
import GitPersona.Yaml.Scalar
import GitPersona.Yaml.Compose
import GitPersona.Yaml.Value
import GitPersona.Yaml.Writer
import GitPersona.Toml.Lexeme
import GitPersona.Toml.Tables
import GitPersona.Toml.Value
import GitPersona.Profile
import GitPersona.Report
import GitPersona.Settings.Issue
import GitPersona.Settings.Basic
import GitPersona.Settings.Checked
import GitPersona.Settings.Scalar
import GitPersona.Settings.Decode
import GitPersona.Settings.Environment
import GitPersona.Settings.Load
import GitPersona.Settings.Template
import GitPersona.Fault
import GitPersona.FileTree
import GitPersona.Context
import GitPersona.Git
import GitPersona.Store
import GitPersona.Cache
import GitPersona.Detection.Signal
import GitPersona.Detection.Ranking
import GitPersona.Detection.Detector
import GitPersona.Detection.Session
import GitPersona.Lookup.EditDistance
import GitPersona.Lookup.Similarity
import GitPersona.Lookup.Matcher
import GitPersona.CommandLine.Arguments
import GitPersona.CommandLine.Command
import GitPersona.CommandLine.Run
import GitPersona.CommandLine.Usage
import GitPersona.Main
import GitPersona.Proofs.Number.Order
import GitPersona.Proofs.Number.Nearest
import GitPersona.Proofs.Number.Rounding
import GitPersona.Proofs.Number.Arithmetic
import GitPersona.Proofs.Number.Quotient
import GitPersona.Proofs.Attempt
import GitPersona.Proofs.Sorting
import GitPersona.Proofs.Bindings
import GitPersona.Proofs.Cache
import GitPersona.Proofs.Glob.Reading
import GitPersona.Proofs.Glob.Cuts
import GitPersona.Proofs.Json.Literal
import GitPersona.Proofs.Json.Members
import GitPersona.Proofs.Path.Text
import GitPersona.Proofs.Path.Canonical
import GitPersona.Proofs.Path.Nesting
import GitPersona.Proofs.Decimal.Binary
import GitPersona.Proofs.Decimal.Interval
import GitPersona.Proofs.Decimal.Text
import GitPersona.Proofs.Profile.Compact
import GitPersona.Proofs.Settings.Compact
import GitPersona.Proofs.Settings.Decode
import GitPersona.Proofs.Context.Payload
import GitPersona.Proofs.Detection.Scanning
import GitPersona.Proofs.Detection.Ranking
import GitPersona.Proofs.Detection.Independence
import GitPersona.Proofs.Detection.Switches
import GitPersona.Proofs.Detection.Patterns
import GitPersona.Proofs.Detection.Observation
import GitPersona.Proofs.Detection.Memory
import GitPersona.Proofs.Detection.Lifetime
import GitPersona.Proofs.Detection.Namespace
import GitPersona.Proofs.Detection.Remotes
import GitPersona.Proofs.Detection.Directories
import GitPersona.Proofs.Detection.Subtrees
import GitPersona.Proofs.Detection.Hosts
import GitPersona.Proofs.Lookup.Matches
import GitPersona.Proofs.Lookup.EditDistance
import GitPersona.Proofs.Lookup.Abbreviations
import GitPersona.Proofs.Lookup.Edits
import GitPersona.Proofs.Lookup.Scores
import GitPersona.Proofs.Lookup.Fields
import GitPersona.Proofs.Lookup.Beginnings
import GitPersona.Proofs.Lookup.Best
import GitPersona.Proofs.Cache.Recency
import GitPersona.Proofs.Document
import GitPersona.Proofs.Text.Case
import GitPersona.Proofs.Text.Fold
import GitPersona.Proofs.Json.Object
import GitPersona.Proofs.Settings.Variables
import GitPersona.Proofs.Settings.Precedence
import GitPersona.Proofs.Settings.Failure
import GitPersona.Proofs.Git.Listing
import GitPersona.Proofs.Git.Remotes
import GitPersona.Proofs.Detection.Extraction
import GitPersona.Proofs.Settings.TopLevel
import GitPersona.Proofs.FileTree
import GitPersona.Proofs.Settings.Overwriting
import GitPersona.Proofs.Lookup.Aggregation
import GitPersona.Proofs.Lookup.Algorithms
import GitPersona.Proofs.Lookup.Exactness
import GitPersona.Proofs.Detection.Explanation
