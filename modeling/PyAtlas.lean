import PyAtlas.Main
import PyAtlas.Token.StringLiteral
import PyAtlas.Proofs.Syntax.Shift
import PyAtlas.Proofs.Token.Layout
import PyAtlas.Proofs.Token.Concatenation
import PyAtlas.Proofs.Syntax.Window
import PyAtlas.Proofs.Syntax.Seam
import PyAtlas.Proofs.Syntax.Simulation
import PyAtlas.Proofs.Syntax.ExprSimulation
import PyAtlas.Proofs.Syntax.StmtSimulation
import PyAtlas.Proofs.Syntax.Compositional
import PyAtlas.Proofs.Library.Agreement
import PyAtlas.Proofs.Syntax.Nesting
import PyAtlas.Proofs.Syntax.SketchParsing
import PyAtlas.Proofs.Atlas.Correspondence
import PyAtlas.Proofs.Atlas.Bounds
import PyAtlas.Proofs.Atlas.Meaning
import PyAtlas.Proofs.Atlas.Dependency
import PyAtlas.Proofs.Atlas.Refinement
import PyAtlas.Proofs.Atlas.Views
import PyAtlas.Proofs.Syntax.ExprSilence
import PyAtlas.Proofs.Syntax.LexicalErrors
import PyAtlas.Proofs.Token.Coverage
import PyAtlas.Proofs.Syntax.ExprProgress
import PyAtlas.Proofs.Syntax.StmtProgress
import PyAtlas.Proofs.Atlas.Presence
import PyAtlas.Proofs.Atlas.Provenance
import PyAtlas.Proofs.Atlas.Identity
import PyAtlas.Proofs.Atlas.Grammars
import PyAtlas.Proofs.Report.Accounting
import PyAtlas.Proofs.Token.Steps
import PyAtlas.Proofs.Token.Stream
import PyAtlas.Proofs.Token.Literals
import PyAtlas.Proofs.Module.Bindings
import PyAtlas.Proofs.Syntax.StringRows
import PyAtlas.Proofs.Syntax.LineEnd
import PyAtlas.Proofs.Atlas.Ancestry
import PyAtlas.Proofs.Token.Arrangement
import PyAtlas.Proofs.Syntax.SpanTree
import PyAtlas.Proofs.Syntax.Placing
import PyAtlas.Proofs.Syntax.TreeRows
import PyAtlas.Proofs.Syntax.ExprPlacing
import PyAtlas.Proofs.Syntax.StmtPlacing
import PyAtlas.Proofs.Declaration.Mentions
import PyAtlas.Proofs.Declaration.Markers
import PyAtlas.Proofs.Declaration.Signatures
import PyAtlas.Proofs.Syntax.Phrases
import PyAtlas.Proofs.Syntax.MatchStatements
import PyAtlas.Proofs.Syntax.StmtSoftRuns
import PyAtlas.Proofs.Declaration.Assignments
import PyAtlas.Proofs.Declaration.ControlFlow
import PyAtlas.Proofs.Token.BlankLines
import PyAtlas.Proofs.Token.Interruption
import PyAtlas.Proofs.Token.Continuations
import PyAtlas.Proofs.Module.RelativeImports
import PyAtlas.Proofs.Source.Decoding
import PyAtlas.Proofs.Token.Docstrings
import PyAtlas.Proofs.Token.Returns
import PyAtlas.Proofs.Token.LineEndings
import PyAtlas.Proofs.Syntax.CursorRange
import PyAtlas.Proofs.Token.Identifiers
import PyAtlas.Proofs.Syntax.DrawnNames
import PyAtlas.Proofs.Syntax.ExprNames
import PyAtlas.Proofs.Syntax.StmtNames
import PyAtlas.Proofs.Library.Spelling
