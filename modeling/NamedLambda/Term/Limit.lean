import NamedLambda.Term.Basic

/-!
The bound on how deeply terms may be nested, and the two ways in which changing a term fails.
-/
namespace NamedLambda

/-- The bound where none is asked for. -/
def defaultLimit : Nat := 256

def tooDeepMessage (limit : Nat) : String :=
  s!"expression is nested deeper than the limit of {limit}"

inductive TermError where
  /-- A replacement would cross a binder of the variable that it stands for. -/
  | binderClash (x : Variable)
  /-- A term is deeper than the limit, or would become so. -/
  | tooDeep (limit : Nat)
  deriving DecidableEq, Repr

namespace TermError

def message : TermError → String
  | .binderClash x => s!"cannot substitute for `{x.name}` across a binder of the same name"
  | .tooDeep limit => tooDeepMessage limit

end TermError

end NamedLambda
