import NamedLambda.Main
import NamedLambda.Nameless.Basic
import NamedLambda.Parse.Grammar
import NamedLambda.Term.Lemmas
import NamedLambda.Term.Normal
import NamedLambda.Token.Language
import NamedLambda.Token.Pool
import NamedLambda.Workbench
import NamedLambda.Proofs.Name.Tiers
import NamedLambda.Proofs.Nameless.Development
import NamedLambda.Proofs.Nameless.FreeNames
import NamedLambda.Proofs.Nameless.Leftmost
import NamedLambda.Proofs.Nameless.Outermost
import NamedLambda.Proofs.Nameless.Scope
import NamedLambda.Proofs.Nameless.Standard
import NamedLambda.Proofs.Parse.Consumed
import NamedLambda.Proofs.Parse.Depth
import NamedLambda.Proofs.Parse.Exactness
import NamedLambda.Proofs.Parse.Leaves
import NamedLambda.Proofs.Parse.Limit
import NamedLambda.Proofs.Parse.Refusal
import NamedLambda.Proofs.Parse.RoundTrip
import NamedLambda.Proofs.Parse.Viable
import NamedLambda.Proofs.Report.Expression
import NamedLambda.Proofs.Report.File
import NamedLambda.Proofs.Report.Lines
import NamedLambda.Proofs.Report.Resumption
import NamedLambda.Proofs.Report.Steps
import NamedLambda.Proofs.Term.Alike
import NamedLambda.Proofs.Term.Binders
import NamedLambda.Proofs.Term.Bound
import NamedLambda.Proofs.Term.Collisions
import NamedLambda.Proofs.Term.Exactness
import NamedLambda.Proofs.Term.Freshening
import NamedLambda.Proofs.Term.Interchange
import NamedLambda.Proofs.Term.Limit
import NamedLambda.Proofs.Term.Names
import NamedLambda.Proofs.Term.Normalization
import NamedLambda.Proofs.Term.Pass
import NamedLambda.Proofs.Term.Positions
import NamedLambda.Proofs.Term.Renaming
import NamedLambda.Proofs.Term.Replacement
import NamedLambda.Proofs.Term.Reserved
import NamedLambda.Proofs.Term.Splitting
import NamedLambda.Proofs.Term.Substitution
import NamedLambda.Proofs.Term.Traversal
import NamedLambda.Proofs.Text.Bytes
import NamedLambda.Proofs.Text.Lines
import NamedLambda.Proofs.Token.Partition
import NamedLambda.Proofs.Token.Replay
import NamedLambda.Proofs.Term.Positions
import NamedLambda.Proofs.Term.Reserved
