import NamedLambda.Term.Subst

/-!
Passes of beta reduction. A pass contracts every outermost redex once and looks neither inside a
redex nor at what the contraction makes.
-/
namespace NamedLambda.Term

/-- One pass over a term whose root stands at depth `d` of the tree being made, and whether a redex
was met. -/
def passAt (limit : Nat) : Term → Nat → Except TermError (Term × Bool)
  | .app (.lam x body) a, d => (body.substAt limit x a d).map (·, true)
  | .app f a, d => do
    let (f', inFunction) ← passAt limit f (d + 1)
    let (a', inArgument) ← passAt limit a (d + 1)
    return (.app f' a', inFunction || inArgument)
  | .lam x body, d => do
    let (body', inBody) ← passAt limit body (d + 1)
    return (.lam x body', inBody)
  | t, _ => .ok (t, false)

/-- One pass over a whole term. -/
def pass (limit : Nat) (t : Term) : Except TermError (Term × Bool) :=
  if t.depth ≤ limit then passAt limit t 1 else .error (.tooDeep limit)

/-- The term after one pass. -/
def contract (limit : Nat) (t : Term) : Except TermError Term :=
  (pass limit t).map Prod.fst

/-- The term after one pass that met a redex; nothing if there is none. -/
def step (limit : Nat) (t : Term) : Except TermError (Option Term) :=
  (pass limit t).map fun (u, met) => if met then some u else none

end NamedLambda.Term
