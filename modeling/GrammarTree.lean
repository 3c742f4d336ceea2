import GrammarTree.Command
import GrammarTree.Command.Arguments
import GrammarTree.Content
import GrammarTree.Decimal
import GrammarTree.Decimal.Shortest
import GrammarTree.Dictionary
import GrammarTree.Difference
import GrammarTree.Directory
import GrammarTree.Expectation
import GrammarTree.Forest
import GrammarTree.Json
import GrammarTree.Json.Number
import GrammarTree.Json.Reader
import GrammarTree.Lexeme
import GrammarTree.Lexeme.Segment
import GrammarTree.Main
import GrammarTree.Parse
import GrammarTree.Parse.Expression
import GrammarTree.Parse.Grow
import GrammarTree.Parse.State
import GrammarTree.Rendering.Drawing
import GrammarTree.Rendering.Outline
import GrammarTree.Rendering.Registry
import GrammarTree.Rendering.Xml
import GrammarTree.Sample
import GrammarTree.Settings
import GrammarTree.Settings.Json
import GrammarTree.Settings.KeyPath
import GrammarTree.Settings.Value
import GrammarTree.Snapshot
import GrammarTree.Snapshot.Json
import GrammarTree.Snapshot.Yaml
import GrammarTree.Symbol
import GrammarTree.Text.Blank
import GrammarTree.Text.LineStarts
import GrammarTree.Text.Position
import GrammarTree.Text.Quoted
import GrammarTree.Text.Unprintable
import GrammarTree.Token
import GrammarTree.Token.Json
import GrammarTree.Token.Stream
import GrammarTree.Toml
import GrammarTree.Toml.Reader
import GrammarTree.Toml.Section
import GrammarTree.Tree
import GrammarTree.Tree.Visitor
import GrammarTree.Yaml.Scalar
import GrammarTree.Proofs.Reading
import GrammarTree.Proofs.Derivation
import GrammarTree.Proofs.Parse.Outcome
import GrammarTree.Proofs.Phrase
import GrammarTree.Proofs.Parse.Input
import GrammarTree.Proofs.Parse.Soundness
import GrammarTree.Proofs.Parse.Completeness
import GrammarTree.Proofs.Parse.Course
import GrammarTree.Proofs.Parse.Locality
import GrammarTree.Proofs.Parse.Viability
import GrammarTree.Proofs.Acceptance
import GrammarTree.Proofs.Position
import GrammarTree.Proofs.CorrectPrefix
import GrammarTree.Proofs.ReadBack
import GrammarTree.Proofs.WellShaped
import GrammarTree.Proofs.RoundTrip
import GrammarTree.Proofs.Walk
import GrammarTree.Proofs.Leaves
import GrammarTree.Proofs.Forest.Operations
import GrammarTree.Proofs.Forest.Invariant
import GrammarTree.Proofs.Forest.Hanging
import GrammarTree.Proofs.Forest.Reachable
import GrammarTree.Proofs.Forest.Growth
import GrammarTree.Proofs.Parse.Growing
import GrammarTree.Proofs.Shape
import GrammarTree.Proofs.Equivalence
import GrammarTree.Proofs.Segmentation
import GrammarTree.Proofs.Pulling
import GrammarTree.Proofs.Blanking
import GrammarTree.Proofs.CommentErasure
import GrammarTree.Proofs.Variants
import GrammarTree.Proofs.Concatenation
import GrammarTree.Proofs.Xml
import GrammarTree.Proofs.Json.Written
import GrammarTree.Proofs.Snapshot.Json
import GrammarTree.Proofs.Nesting
import GrammarTree.Proofs.Depth
import GrammarTree.Proofs.Way
import GrammarTree.Proofs.Place
import GrammarTree.Proofs.Divergence
import GrammarTree.Proofs.Forest.Attachment
import GrammarTree.Proofs.Forest.Descendants
import GrammarTree.Proofs.Forest.Copy
import GrammarTree.Proofs.Lookup
import GrammarTree.Proofs.Forest.Walking
import GrammarTree.Proofs.Visiting
import GrammarTree.Proofs.Outline
import GrammarTree.Proofs.Lines
import GrammarTree.Proofs.Drawing
import GrammarTree.Proofs.Captions
import GrammarTree.Proofs.Report
import GrammarTree.Proofs.XmlValue
import GrammarTree.Proofs.Parse.Machine
import GrammarTree.Proofs.Balance
import GrammarTree.Proofs.ByteOrder
import GrammarTree.Proofs.Registry
