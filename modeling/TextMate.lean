import TextMate.Calendar
import TextMate.Catalog.Basic
import TextMate.Catalog.Failure
import TextMate.Catalog.Packaged
import TextMate.Decimal.Binary64
import TextMate.Decimal.Numeral
import TextMate.Decimal.Shortest
import TextMate.Draft.Basic
import TextMate.Draft.Check
import TextMate.Draft.Document
import TextMate.Draft.Fault
import TextMate.Draft.Members
import TextMate.Draft.Render
import TextMate.Draft.Report
import TextMate.Draft.Repository
import TextMate.Draft.Walk
import TextMate.Files.Path
import TextMate.Files.Store
import TextMate.Grammar.Basic
import TextMate.Grammar.Document
import TextMate.Grammar.Format
import TextMate.Grammar.Include
import TextMate.Grammar.Render
import TextMate.Grammar.Report
import TextMate.Grammar.Source
import TextMate.Grammar.Walk
import TextMate.Json.Printer
import TextMate.Json.Reader
import TextMate.Json.Tree
import TextMate.Main
import TextMate.Proofs.Catalog.Addition
import TextMate.Proofs.Catalog.Agreement
import TextMate.Proofs.Catalog.Coherence
import TextMate.Proofs.Catalog.Copying
import TextMate.Proofs.Catalog.Find
import TextMate.Proofs.Catalog.Listing
import TextMate.Proofs.Catalog.Precedence
import TextMate.Proofs.Catalog.Saving
import TextMate.Proofs.Catalog.Work
import TextMate.Proofs.Decimal.Canonical
import TextMate.Proofs.Decimal.ReadText
import TextMate.Proofs.Decimal.Rounding
import TextMate.Proofs.Decimal.Shortest
import TextMate.Proofs.Draft.Checked
import TextMate.Proofs.Draft.CheckedDocument
import TextMate.Proofs.Draft.Partial
import TextMate.Proofs.Draft.Pruning
import TextMate.Proofs.Draft.Shown
import TextMate.Proofs.Draft.Slots
import TextMate.Proofs.Draft.Stopping
import TextMate.Proofs.Draft.Traversal
import TextMate.Proofs.Draft.Unmark
import TextMate.Proofs.Draft.Walking
import TextMate.Proofs.Each
import TextMate.Proofs.Files.Addition
import TextMate.Proofs.Files.Follow
import TextMate.Proofs.Files.Growth
import TextMate.Proofs.Files.PathText
import TextMate.Proofs.Files.Saving
import TextMate.Proofs.Grammar.CaptureKeys
import TextMate.Proofs.Grammar.CheckDocument
import TextMate.Proofs.Grammar.Checked
import TextMate.Proofs.Grammar.Codes
import TextMate.Proofs.Grammar.Dangling
import TextMate.Proofs.Grammar.DocumentFields
import TextMate.Proofs.Grammar.DocumentKeys
import TextMate.Proofs.Grammar.DocumentPlaces
import TextMate.Proofs.Grammar.DocumentTargets
import TextMate.Proofs.Grammar.DoubleMarks
import TextMate.Proofs.Grammar.EmptyTargets
import TextMate.Proofs.Grammar.Extension
import TextMate.Proofs.Grammar.Failing
import TextMate.Proofs.Grammar.Findings
import TextMate.Proofs.Grammar.GroupNumbers
import TextMate.Proofs.Grammar.JsonRoundTrip
import TextMate.Proofs.Grammar.Locations
import TextMate.Proofs.Grammar.Place
import TextMate.Proofs.Grammar.Recognition
import TextMate.Proofs.Grammar.Reordering
import TextMate.Proofs.Grammar.Rerendering
import TextMate.Proofs.Grammar.Same
import TextMate.Proofs.Grammar.ScopeName
import TextMate.Proofs.Grammar.Transformation
import TextMate.Proofs.Grammar.Unmark
import TextMate.Proofs.Grammar.Usage
import TextMate.Proofs.Grammar.YamlRoundTrip
import TextMate.Proofs.Json.Literal
import TextMate.Proofs.Json.ReadPrint
import TextMate.Proofs.Schema.Accepts
import TextMate.Proofs.Schema.DocumentGrammar
import TextMate.Proofs.Schema.GroupKeys
import TextMate.Proofs.Schema.Members
import TextMate.Proofs.Schema.Named
import TextMate.Proofs.Schema.Recognition
import TextMate.Proofs.Server.Export
import TextMate.Proofs.Server.Rendering
import TextMate.Proofs.Text.Utf8
import TextMate.Proofs.Text.WholeNumber
import TextMate.Proofs.Tree.Text
import TextMate.Proofs.Yaml.Charset
import TextMate.Proofs.Yaml.Cursor
import TextMate.Proofs.Yaml.Double
import TextMate.Proofs.Yaml.Faults
import TextMate.Proofs.Yaml.Keys
import TextMate.Proofs.Yaml.Layout
import TextMate.Proofs.Yaml.Lexer
import TextMate.Proofs.Yaml.Making
import TextMate.Proofs.Yaml.Misfit
import TextMate.Proofs.Yaml.Nodes
import TextMate.Proofs.Yaml.Objects
import TextMate.Proofs.Yaml.Pen
import TextMate.Proofs.Yaml.Plain
import TextMate.Proofs.Yaml.Quoted
import TextMate.Proofs.Yaml.ReadPrint
import TextMate.Proofs.Yaml.Reading
import TextMate.Proofs.Yaml.Run
import TextMate.Proofs.Yaml.Scalar
import TextMate.Proofs.Yaml.Scanning
import TextMate.Proofs.Yaml.Single
import TextMate.Proofs.Yaml.Tokenizing
import TextMate.Proofs.Yaml.Values
import TextMate.Proofs.Yaml.WellKeyed
import TextMate.Schema.Check
import TextMate.Schema.Problem
import TextMate.Schema.Site
import TextMate.Server.CommandLine
import TextMate.Server.Tool
import TextMate.Text.Base64
import TextMate.Text.Cased
import TextMate.Text.Codes
import TextMate.Text.Digits
import TextMate.Text.Lowercase
import TextMate.Text.Printable
import TextMate.Text.Quoted
import TextMate.Text.Utf8
import TextMate.Value.Basic
import TextMate.Value.Fields
import TextMate.Value.Same
import TextMate.Value.Text
import TextMate.Yaml.Cursor
import TextMate.Yaml.Error
import TextMate.Yaml.Mark
import TextMate.Yaml.Node
import TextMate.Yaml.Node.Merge
import TextMate.Yaml.Node.OfTokens
import TextMate.Yaml.Node.Scalar
import TextMate.Yaml.Node.Value
import TextMate.Yaml.Object
import TextMate.Yaml.Pen
import TextMate.Yaml.Printer
import TextMate.Yaml.Style
import TextMate.Yaml.Tag
import TextMate.Yaml.Timestamp
import TextMate.Yaml.Token
import TextMate.Yaml.Token.Lexer
import TextMate.Yaml.Token.Property
import TextMate.Yaml.Token.Scalar
