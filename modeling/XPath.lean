import XPath.Main
import XPath.Proofs.Expr.Grammar
import XPath.Proofs.Expr.Rendering
import XPath.Proofs.Outcome
import XPath.Proofs.Token.Words
import XPath.Proofs.Token.Lexed
import XPath.Proofs.Token.Rendering
import XPath.Token.Render
import XPath.Tree.Table
import XPath.Proofs.Expr.Expansion
import XPath.Proofs.Tree.Linked
import XPath.Proofs.Tree.Partition
import XPath.Proofs.Tree.Closed
import XPath.Proofs.Calls
import XPath.Proofs.Xml.Location
import XPath.Proofs.Eval.Contained
import XPath.Proofs.Xml.Evaluation
import XPath.Proofs.Tree.Order
import XPath.Proofs.Xml.Order
import XPath.Proofs.Eval.Agreement
import XPath.Proofs.Eval.Strictness
import XPath.Proofs.Eval.Sets
import XPath.Proofs.Eval.Composition
import XPath.Proofs.Tree.Direction
import XPath.Proofs.Token.Grammar
import XPath.Proofs.Expr.Balanced
import XPath.Proofs.Expr.Chain
import XPath.Proofs.Expr.Accepted
import XPath.Proofs.Expr.Precedence
import XPath.Proofs.Expr.Levels
import XPath.Proofs.Tree.Inverse
import XPath.Proofs.Expr.Names
import XPath.Proofs.Xml.Read
import XPath.Proofs.Xml.Names
import XPath.Proofs.Nested.Bodies
import XPath.Proofs.Nested.Depth
import XPath.Proofs.Token.Tiling
import XPath.Proofs.Value.Compare
import XPath.Proofs.Eval.Ascending
import XPath.Proofs.Xml.Text
import XPath.Proofs.Token.Errors
import XPath.Proofs.Token.Spacing
import XPath.Proofs.Eval.Predicates
import XPath.Proofs.Tree.Merging
import XPath.Proofs.Eval.Position
import XPath.Proofs.Eval.Descent
import XPath.Proofs.Eval.Deciding
import XPath.Proofs.Eval.Language
import XPath.Proofs.LanguageTag
import XPath.Proofs.Number.Binary64
import XPath.Proofs.Number.Rounding
import XPath.Proofs.Number.Shortest
import XPath.Proofs.Number.Text
import XPath.Proofs.Number.Whole
import XPath.Proofs.Expr.Numbers
import XPath.Proofs.Registry
import XPath.Proofs.Token.Budget
import XPath.Proofs.Tree.Inconsistent
import XPath.Proofs.Lines
import XPath.Proofs.Tree.Filtering
