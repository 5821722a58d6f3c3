import Offside.Number.Binary
import Offside.Number.Decimal
import Offside.Number.Shortest
import Offside.Number.Int128
import Offside.Number.Ratio
import Offside.Number.RealText
import Offside.Text.CodeSet
import Offside.Text.Blank
import Offside.Text.Alphabetic
import Offside.Text.Hidden
import Offside.Text.Quoted
import Offside.Text.Literal
import Offside.Doc.Basic
import Offside.Doc.Combinators
import Offside.Doc.Outline
import Offside.Page.Style
import Offside.Page.Chunk
import Offside.Page.Machine
import Offside.Page.Renderer
import Offside.Json.Basic
import Offside.Json.Equality
import Offside.Json.Writer
import Offside.Json.Reader
import Offside.Syntax.Name
import Offside.Syntax.Location
import Offside.Syntax.Literal
import Offside.Syntax.Type
import Offside.Syntax.Pattern
import Offside.Syntax.Data
import Offside.Syntax.Expr
import Offside.Syntax.Module
import Offside.Tree.Writer
import Offside.Tree.Reader
import Offside.Tree.Node
import Offside.Settings.Mode
import Offside.Settings.Basic
import Offside.Settings.Entry
import Offside.Settings.Toml
import Offside.Settings.Load
import Offside.Pretty.Fault
import Offside.Pretty.Block
import Offside.Pretty.Name
import Offside.Pretty.Type
import Offside.Pretty.Pattern
import Offside.Pretty.Expr
import Offside.Pretty.Module
import Offside.Pretty.Node
import Offside.Proofs.Compositional
import Offside.Proofs.OneLine
import Offside.Proofs.TextOrder
import Offside.Proofs.Built
import Offside.Proofs.Extent
import Offside.Proofs.MachineWords
import Offside.Proofs.LineLimits
import Offside.Proofs.Onside
import Offside.Proofs.Strips
import Offside.Proofs.Occurrence
import Offside.Proofs.Hanging
import Offside.Proofs.Leaves
import Offside.Proofs.Subtrees
import Offside.Proofs.Faults
import Offside.Proofs.Sketch
import Offside.Proofs.Atoms
import Offside.Proofs.Openings
import Offside.Proofs.Composed
import Offside.Proofs.Items
import Offside.Proofs.PrintedDecls
import Offside.Proofs.BlockPlaces
import Offside.Proofs.LayoutRule
import Offside.Proofs.SameTokens
import Offside.Proofs.LiteralReading
import Offside.Proofs.Spelling
import Offside.Proofs.TokenTree
import Offside.Proofs.Wording
import Offside.Proofs.NameWords
import Offside.Proofs.TypeReading
import Offside.Proofs.Grammar
import Offside.Proofs.ExprReading
import Offside.Proofs.PatternReading
import Offside.Proofs.SingleLine
import Offside.Proofs.WrittenNumbers
import Offside.Proofs.ReadBack
import Offside.Proofs.OpenForms
import Offside.Proofs.Equivalence
import Offside.Proofs.Sessions
import Offside.Proofs.StackedLines
import Offside.Proofs.ModuleText
import Offside.Proofs.LineEnds
import Offside.Proofs.TrailingBlanks
import Offside.Proofs.InlineLayout
import Offside.Proofs.Nesting
import Offside.Proofs.Relocation
import Offside.Proofs.Joints
import Offside.Proofs.NumberSigns
import Offside.Proofs.FirstSigns
import Offside.Proofs.Collisions
import Offside.Proofs.RowOrColumn
import Offside.Proofs.Overlap
import Offside.Proofs.GreedyFill
import Offside.Proofs.LiteralForm
import Offside.Proofs.ChunkStream
import Offside.Proofs.LowestTerms
import Offside.Proofs.WiderPages
import Offside.Proofs.Numerals
import Offside.Proofs.CheckedSettings
import Offside.Proofs.LineStarts
import Offside.Proofs.LeadingMinus
import Offside.Proofs.TreeForms
import Offside.Proofs.AbsentParts
import Offside.Proofs.RoundTrip
import Offside.Proofs.Measures
import Offside.Proofs.PieceByPiece
