import ConceptAtlas.Assoc
import ConceptAtlas.Build.Basic
import ConceptAtlas.Build.Extractor
import ConceptAtlas.Build.Update
import ConceptAtlas.Calendar
import ConceptAtlas.Command.Arguments
import ConceptAtlas.Command.Basic
import ConceptAtlas.Command.Config
import ConceptAtlas.Command.Display
import ConceptAtlas.Command.Graph
import ConceptAtlas.Command.Query
import ConceptAtlas.Command.Session
import ConceptAtlas.Config.Basic
import ConceptAtlas.Config.Check
import ConceptAtlas.Config.Environment
import ConceptAtlas.Config.Log
import ConceptAtlas.Config.Store
import ConceptAtlas.Content.Card
import ConceptAtlas.Content.Concept
import ConceptAtlas.Decimal.Binary64
import ConceptAtlas.Decimal.Layout
import ConceptAtlas.Decimal.Numeral
import ConceptAtlas.Decimal.Shortest
import ConceptAtlas.Digest.Content
import ConceptAtlas.Digest.Sha256
import ConceptAtlas.Fault
import ConceptAtlas.Files.Discovery
import ConceptAtlas.Files.Disk
import ConceptAtlas.Files.Glob
import ConceptAtlas.Files.Path
import ConceptAtlas.Files.Pattern
import ConceptAtlas.Graph.Arena
import ConceptAtlas.Graph.Basic
import ConceptAtlas.Graph.Breadth
import ConceptAtlas.Graph.Bridge
import ConceptAtlas.Graph.Cycle
import ConceptAtlas.Graph.Neighborhood
import ConceptAtlas.Graph.Prerequisite
import ConceptAtlas.Graph.Ranking
import ConceptAtlas.Graph.Record
import ConceptAtlas.Graph.Related
import ConceptAtlas.Graph.Relationship
import ConceptAtlas.Graph.Route
import ConceptAtlas.Graph.Stats
import ConceptAtlas.Graph.Validation
import ConceptAtlas.Graph.View
import ConceptAtlas.Heap
import ConceptAtlas.Json.Basic
import ConceptAtlas.Json.Parser
import ConceptAtlas.Json.Printer
import ConceptAtlas.Main
import ConceptAtlas.Proofs.Build.Accounting
import ConceptAtlas.Proofs.Build.Freshness
import ConceptAtlas.Proofs.Decimal.Special
import ConceptAtlas.Proofs.Digest.Fingerprint
import ConceptAtlas.Proofs.Digest.Framing
import ConceptAtlas.Proofs.Files.Discovery
import ConceptAtlas.Proofs.Graph.Adjacency
import ConceptAtlas.Proofs.Graph.Arena
import ConceptAtlas.Proofs.Graph.Building
import ConceptAtlas.Proofs.Graph.History
import ConceptAtlas.Proofs.Graph.Observers
import ConceptAtlas.Proofs.Json.Quoted
import ConceptAtlas.Proofs.Json.RoundTrip
import ConceptAtlas.Proofs.Json.Word
import ConceptAtlas.Proofs.Snapshot.Reloading
import ConceptAtlas.Snapshot.Basic
import ConceptAtlas.Snapshot.Store
import ConceptAtlas.Text.Base64
import ConceptAtlas.Text.Class
import ConceptAtlas.Text.Hex
import ConceptAtlas.Text.Lines
import ConceptAtlas.Text.Parts
import ConceptAtlas.Text.Printable
import ConceptAtlas.Text.Quoted
import ConceptAtlas.Text.Terminal
import ConceptAtlas.Text.Utf8
import ConceptAtlas.Value.Basic
import ConceptAtlas.Value.Literal
import ConceptAtlas.Yaml.Atom
import ConceptAtlas.Yaml.Basic
import ConceptAtlas.Yaml.Block
import ConceptAtlas.Yaml.Document
import ConceptAtlas.Yaml.Gap
import ConceptAtlas.Yaml.Lexer
import ConceptAtlas.Yaml.Node
import ConceptAtlas.Yaml.Place
import ConceptAtlas.Yaml.Plain
import ConceptAtlas.Yaml.Printer
import ConceptAtlas.Yaml.Property
import ConceptAtlas.Yaml.Quoted
import ConceptAtlas.Yaml.Reading
import ConceptAtlas.Yaml.Resolution
import ConceptAtlas.Yaml.Style
import ConceptAtlas.Yaml.Token
import ConceptAtlas.Proofs.Graph.Cycle
import ConceptAtlas.Proofs.Graph.Validation
import ConceptAtlas.Proofs.Graph.Prerequisite
import ConceptAtlas.Proofs.Decimal.Integer
import ConceptAtlas.Proofs.Json.Limit
import ConceptAtlas.Proofs.Snapshot.Record
import ConceptAtlas.Proofs.Snapshot.Schema
import ConceptAtlas.Proofs.Snapshot.Loading
import ConceptAtlas.Proofs.Json.Written
import ConceptAtlas.Proofs.Snapshot.Freshness
import ConceptAtlas.Proofs.Build.References
import ConceptAtlas.Proofs.Config.Checking
import ConceptAtlas.Proofs.Config.Loading
import ConceptAtlas.Proofs.Build.Saving
import ConceptAtlas.Proofs.Command.History
import ConceptAtlas.Proofs.Files.Tree
import ConceptAtlas.Proofs.Files.Walk
import ConceptAtlas.Proofs.Heap
import ConceptAtlas.Proofs.Graph.Route
import ConceptAtlas.Proofs.Graph.Bridge
import ConceptAtlas.Proofs.Graph.Ring
import ConceptAtlas.Proofs.Graph.NegativeWeight
import ConceptAtlas.Proofs.Graph.Breadth
import ConceptAtlas.Proofs.Graph.WayBack
import ConceptAtlas.Proofs.Graph.Neighborhood
import ConceptAtlas.Proofs.Graph.FirstRoute
import ConceptAtlas.Proofs.Decimal.Comparison
import ConceptAtlas.Proofs.Value.Key
import ConceptAtlas.Proofs.Value.Mapping
import ConceptAtlas.Proofs.Text.Parts
import ConceptAtlas.Proofs.Config.Merging
import ConceptAtlas.Proofs.Graph.Depth
import ConceptAtlas.Proofs.Graph.Duplicate
import ConceptAtlas.Proofs.Graph.AddedLoop
import ConceptAtlas.Proofs.Text.Lines
import ConceptAtlas.Proofs.Content.Card
import ConceptAtlas.Proofs.Text.Replacing
import ConceptAtlas.Proofs.Config.Substitution
import ConceptAtlas.Proofs.Graph.Related
import ConceptAtlas.Proofs.Graph.Stats
import ConceptAtlas.Proofs.Graph.Ranking
import ConceptAtlas.Proofs.Files.Pattern
import ConceptAtlas.Proofs.Files.Exclusion
import ConceptAtlas.Proofs.Files.Lookup
import ConceptAtlas.Proofs.Command.Launch
