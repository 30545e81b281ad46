import Relief.Color
import Relief.CommandLine.Command
import Relief.CommandLine.Host
import Relief.CommandLine.Path
import Relief.CommandLine.Run
import Relief.CommandLine.Switch
import Relief.Diagnosis
import Relief.Document
import Relief.Domain
import Relief.Equation
import Relief.Evaluator
import Relief.Expr.Basic
import Relief.Expr.Eval
import Relief.Expr.Grid
import Relief.Expr.Print
import Relief.Field
import Relief.Format.Container
import Relief.Format.Coordinate
import Relief.Format.Glb
import Relief.Format.Json
import Relief.Format.Plain
import Relief.Format.Surface
import Relief.Journal
import Relief.Main
import Relief.Mesh.Basic
import Relief.Mesh.Coloring
import Relief.Mesh.Contour
import Relief.Mesh.Measure
import Relief.Mesh.Normal
import Relief.Mesh.Sample
import Relief.Number.Binary32
import Relief.Number.Binary64
import Relief.Number.Decimal
import Relief.Number.Layout
import Relief.Number.Nearest
import Relief.Number.Numeral
import Relief.Number.Ratio
import Relief.Parser
import Relief.Parser.Descent
import Relief.Parser.Safety
import Relief.PointValue
import Relief.Proofs.Color
import Relief.Proofs.Document
import Relief.Proofs.Evaluator.Compile
import Relief.Proofs.Evaluator.Point
import Relief.Proofs.Evaluator.Safety
import Relief.Proofs.Expr.Dependence
import Relief.Proofs.Expr.Grid
import Relief.Proofs.Expr.Value
import Relief.Proofs.Expr.WellFormed
import Relief.Proofs.Field.Broadcast
import Relief.Proofs.Format.Axes
import Relief.Proofs.Format.Coordinate
import Relief.Proofs.Format.Drawn
import Relief.Proofs.Format.Factor
import Relief.Proofs.Format.Parts
import Relief.Proofs.Format.Places
import Relief.Proofs.Format.Resaved
import Relief.Proofs.Format.Saved
import Relief.Proofs.Format.Scene
import Relief.Proofs.Format.SceneFactor
import Relief.Proofs.Format.SceneLayout
import Relief.Proofs.Format.Solid
import Relief.Proofs.Format.Spelled
import Relief.Proofs.Format.Table
import Relief.Proofs.Format.Tiling
import Relief.Proofs.Grammar.Adjacency
import Relief.Proofs.Grammar.Depth
import Relief.Proofs.Grammar.Derivation
import Relief.Proofs.Grammar.Descent
import Relief.Proofs.Grammar.Recognition
import Relief.Proofs.Grammar.Tree
import Relief.Proofs.Json.Numeral
import Relief.Proofs.Json.Reader
import Relief.Proofs.Juxtaposition.Factor
import Relief.Proofs.Juxtaposition.Inner
import Relief.Proofs.Juxtaposition.Product
import Relief.Proofs.Juxtaposition.Superscript
import Relief.Proofs.Mesh.Area
import Relief.Proofs.Mesh.Arrows
import Relief.Proofs.Mesh.Coloring
import Relief.Proofs.Mesh.Contour
import Relief.Proofs.Mesh.Crossing
import Relief.Proofs.Mesh.Extrema
import Relief.Proofs.Mesh.Facing
import Relief.Proofs.Mesh.Level
import Relief.Proofs.Mesh.Lines
import Relief.Proofs.Mesh.Pointwise
import Relief.Proofs.Mesh.Sampling
import Relief.Proofs.Mesh.Triangulation
import Relief.Proofs.Mesh.UnitLength
import Relief.Proofs.Number.Binary32
import Relief.Proofs.Number.Double
import Relief.Proofs.Number.Exact
import Relief.Proofs.Number.Fewest
import Relief.Proofs.Number.Fields
import Relief.Proofs.Number.Integer
import Relief.Proofs.Number.Layout
import Relief.Proofs.Number.Numeral
import Relief.Proofs.Number.Operation
import Relief.Proofs.Number.Order
import Relief.Proofs.Number.Product
import Relief.Proofs.Number.Quotient
import Relief.Proofs.Number.Reading
import Relief.Proofs.Number.Rounded
import Relief.Proofs.Number.Shortest
import Relief.Proofs.Number.Sign
import Relief.Proofs.Number.Whole
import Relief.Proofs.Outcome
import Relief.Proofs.Print.Grouping
import Relief.Proofs.Print.Names
import Relief.Proofs.Print.Piece
import Relief.Proofs.Print.Rewrite
import Relief.Proofs.Print.RoundTrip
import Relief.Proofs.Print.Scan
import Relief.Proofs.Print.Tree
import Relief.Proofs.SameDomain
import Relief.Proofs.Scan.Join
import Relief.Proofs.Scan.Munch
import Relief.Proofs.Scan.Number
import Relief.Proofs.Scan.Spelling
import Relief.Proofs.Shorthand.Explicit
import Relief.Proofs.Shorthand.Foreign
import Relief.Proofs.Shorthand.Gap
import Relief.Proofs.Shorthand.Glyph
import Relief.Proofs.Shorthand.Idempotence
import Relief.Proofs.Shorthand.Pieces
import Relief.Proofs.Shorthand.Product
import Relief.Proofs.Shorthand.Qualify
import Relief.Proofs.Shorthand.Renaming
import Relief.Proofs.Shorthand.Silence
import Relief.Proofs.Shorthand.Simultaneous
import Relief.Proofs.Shorthand.Wall
import Relief.Proofs.Shorthand.Word
import Relief.Proofs.Version
import Relief.Proofs.Workspace.Answer
import Relief.Proofs.Workspace.Change
import Relief.Proofs.Workspace.Completion
import Relief.Proofs.Workspace.Consistency
import Relief.Proofs.Workspace.Crash
import Relief.Proofs.Workspace.Diagnoses
import Relief.Proofs.Workspace.Export
import Relief.Proofs.Workspace.Freshness
import Relief.Proofs.Workspace.Locality
import Relief.Proofs.Workspace.Provenance
import Relief.Proofs.Workspace.Rebuild
import Relief.Proofs.Workspace.Reload
import Relief.Proofs.Yaml.Cursor
import Relief.Proofs.Yaml.Document
import Relief.Proofs.Yaml.Flaw
import Relief.Proofs.Yaml.Flow
import Relief.Proofs.Yaml.Json
import Relief.Proofs.Yaml.Number
import Relief.Proofs.Yaml.Parts
import Relief.Proofs.Yaml.Plain
import Relief.Proofs.Yaml.Quoted
import Relief.Proofs.Yaml.Reach
import Relief.Proofs.Yaml.Steps
import Relief.Proofs.Yaml.Stream
import Relief.Proofs.Yaml.Supply
import Relief.Proofs.Yaml.Tree
import Relief.Scalar
import Relief.Schema.Issue
import Relief.Schema.Model
import Relief.Schema.Plain
import Relief.Shorthand
import Relief.Shorthand.Names
import Relief.Shorthand.Product
import Relief.Shorthand.Qualify
import Relief.Sum
import Relief.Text.Base64
import Relief.Text.Digit
import Relief.Text.Printable
import Relief.Text.Quoted
import Relief.Text.Ranges
import Relief.Text.Uppercase
import Relief.Text.WordChar
import Relief.Token
import Relief.Value
import Relief.Value.Code
import Relief.Vec3
import Relief.Workspace
import Relief.Workspace.Diagnoses
import Relief.Workspace.Notes
import Relief.Workspace.Spec
import Relief.Yaml.Cause
import Relief.Yaml.Cursor
import Relief.Yaml.Data
import Relief.Yaml.Kind
import Relief.Yaml.Name
import Relief.Yaml.Node
import Relief.Yaml.Parser
import Relief.Yaml.Quoted
import Relief.Yaml.Scalar
import Relief.Yaml.Stamp
import Relief.Yaml.Stream
import Relief.Yaml.Token
import Relief.Yaml.Wording
