import NamedLambda.Name.Basic

/-!
Untyped lambda terms with named variables. The depth of a term and the names in it are found by
passes over a list of the subterms still to be visited, so that no term is too deep for them;
`height` is the same depth by recursion on the term.
-/
namespace NamedLambda

inductive Term where
  | var (x : Variable)
  | const (c : Constant)
  | lam (x : Variable) (body : Term)
  | app (function argument : Term)
  deriving DecidableEq, Repr

namespace Term

/-- The number of nodes. -/
def size : Term → Nat
  | .var _ | .const _ => 1
  | .lam _ body => body.size + 1
  | .app f a => f.size + a.size + 1

@[simp] theorem size_var (x : Variable) : (var x).size = 1 := rfl

@[simp] theorem size_const (c : Constant) : (const c).size = 1 := rfl

@[simp] theorem size_lam (x : Variable) (t : Term) : (lam x t).size = t.size + 1 := rfl

@[simp] theorem size_app (f a : Term) : (app f a).size = f.size + a.size + 1 := rfl

theorem size_pos (t : Term) : 0 < t.size := by
  cases t <;> simp

/-- The nodes on the longest way from the root to a leaf. -/
def height : Term → Nat
  | .var _ | .const _ => 1
  | .lam _ body => body.height + 1
  | .app f a => max f.height a.height + 1

@[simp] theorem height_var (x : Variable) : (var x).height = 1 := rfl

@[simp] theorem height_const (c : Constant) : (const c).height = 1 := rfl

@[simp] theorem height_lam (x : Variable) (t : Term) : (lam x t).height = t.height + 1 := rfl

@[simp] theorem height_app (f a : Term) : (app f a).height = max f.height a.height + 1 := rfl

/-- The nodes of all the terms of a list. -/
def sizes (ts : List Term) : Nat :=
  ts.foldr (fun t n => t.size + n) 0

@[simp] theorem sizes_nil : sizes [] = 0 := rfl

@[simp] theorem sizes_cons (t : Term) (ts : List Term) : sizes (t :: ts) = t.size + sizes ts := rfl

/-- The greatest depth of a node, given the greatest one found so far and the subterms still to be
visited, each with the depth of its root. -/
def deepest (found : Nat) : List (Term × Nat) → Nat
  | [] => found
  | (.var _, d) :: pending | (.const _, d) :: pending => deepest (max found d) pending
  | (.lam _ body, d) :: pending => deepest (max found d) ((body, d + 1) :: pending)
  | (.app f a, d) :: pending => deepest (max found d) ((a, d + 1) :: (f, d + 1) :: pending)
termination_by pending => sizes (pending.map Prod.fst)
decreasing_by all_goals simp <;> omega

/-- The depth of the tree; a leaf has depth one. -/
def depth (t : Term) : Nat :=
  deepest 0 [(t, 1)]

/-- The names of variables, each once, given those found so far and the subterms to be visited. -/
def gather (found : List Variable) : List Term → List Variable
  | [] => found
  | .var x :: pending => gather (found.insert x) pending
  | .const _ :: pending => gather found pending
  | .lam x body :: pending => gather (found.insert x) (body :: pending)
  | .app f a :: pending => gather found (a :: f :: pending)
termination_by pending => sizes pending
decreasing_by all_goals simp <;> omega

/-- All the variables that occur, as a leaf or at a binder, each once. -/
def mentioned (t : Term) : List Variable :=
  gather [] [t]

/-- The variables with an occurrence that no binder of theirs stands above, each once. -/
def free : Term → List Variable
  | .var x => [x]
  | .const _ => []
  | .lam x body => body.free.filter (· ≠ x)
  | .app f a => a.free.foldr List.insert f.free

/-- Binds several variables, the first outermost. -/
def lams (xs : List Variable) (body : Term) : Term :=
  xs.foldr lam body

@[simp] theorem lams_nil (t : Term) : lams [] t = t := rfl

@[simp] theorem lams_cons (x : Variable) (xs : List Variable) (t : Term) :
    lams (x :: xs) t = lam x (lams xs t) := rfl

end Term

end NamedLambda
