import Polyglot.Cursor.Session
import Polyglot.Dialect.Session
import Polyglot.Proofs.Expr.Acceptance
import Polyglot.Proofs.Token.Spelling
import Polyglot.Target
import Polyglot.Proofs.Token.Lines
import Polyglot.Proofs.Expr.Surface
import Polyglot.Proofs.Expr.Survey
import Polyglot.Proofs.Ty.Derivation
import Polyglot.Proofs.Ty.Surface
import Polyglot.Proofs.Decl.Normal
import Polyglot.Proofs.Decl.Derivation
import Polyglot.Proofs.Decl.Proper
import Polyglot.Proofs.Decl.Surface
import Polyglot.Proofs.Block.Layout
import Polyglot.Proofs.Program.Paragraphs
import Polyglot.Proofs.Program.RoundTrip
import Polyglot.Proofs.Script.Grammar
import Polyglot.Proofs.Script.Grouping
import Polyglot.Proofs.Block.Partition
import Polyglot.Proofs.Program.Errors
import Polyglot.Proofs.Decl.Placement
import Polyglot.Proofs.Block.Moved
import Polyglot.Proofs.Decl.WellFormed
import Polyglot.Proofs.Dialect.Totality
import Polyglot.Proofs.Program.Stacked
import Polyglot.Proofs.Block.Blame
import Polyglot.Proofs.Program.Totality
import Polyglot.Proofs.Block.Places
import Polyglot.Proofs.Block.Agreement
import Polyglot.Proofs.Script.Erasure
import Polyglot.Proofs.Block.Whole
import Polyglot.Proofs.Program.Order
import Polyglot.Proofs.Token.Stream
import Polyglot.Proofs.Decl.Relaid
import Polyglot.Proofs.Block.UnionLayout
import Polyglot.Proofs.Token.Parts
import Polyglot.Proofs.Block.EquationLayout
import Polyglot.Proofs.Text.Literals
import Polyglot.Proofs.Dialect.Literals
import Polyglot.Proofs.Program.Literals
import Polyglot.Proofs.Dialect.Counter
import Polyglot.Proofs.Decl.Acceptance
import Polyglot.Proofs.Expr.RoundTrip
import Polyglot.Proofs.Ty.RoundTrip
import Polyglot.Proofs.Token.Tiling
import Polyglot.Proofs.Token.Below
import Polyglot.Proofs.Scope.FirstIssue
import Polyglot.Proofs.Script.TypeText
import Polyglot.Proofs.Dialect.Chains
import Polyglot.Proofs.Scope.Parameters
import Polyglot.Proofs.Script.Headings
import Polyglot.Proofs.Script.TypeParameters
import Polyglot.Proofs.Dialect.Indentation
import Polyglot.Proofs.Block.Areas
import Polyglot.Proofs.Dialect.Unknown
import Polyglot.Proofs.Block.Respaced
import Polyglot.Proofs.Decl.Progress
import Polyglot.Proofs.Cursor.Session
