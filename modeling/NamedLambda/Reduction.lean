import NamedLambda.Term.Beta

/-! Reduction by repeated passes, until no redex is left or a bound on their number is reached. -/
namespace NamedLambda

/-- Where a reduction ended. -/
structure Reduction where
  term : Term
  /-- The passes that met a redex. -/
  steps : Nat
  /-- The term has no redex. -/
  isNormal : Bool
  deriving DecidableEq, Repr

/-- A reduction on its way: the terms after each pass, and its end. -/
structure Run where
  trace : List Term
  outcome : Except TermError Reduction

namespace Reduction

/-- The same end, one pass further from the start. -/
def later (r : Reduction) : Reduction :=
  { r with steps := r.steps + 1 }

end Reduction

namespace Run

/-- A run that begins with a pass to `t`. -/
def prepend (t : Term) (r : Run) : Run :=
  ⟨t :: r.trace, r.outcome.map Reduction.later⟩

/-- The traced terms, each with the number of its pass, from one. -/
def numbered (r : Run) : List (Nat × Term) :=
  r.trace.zipIdx.map fun (t, i) => (i + 1, t)

end Run

namespace Term

/-- Reduces by at most `bound` passes. At the bound one more pass is tried, and only tells whether
the term reached has a redex. -/
def reduce (limit : Nat) (t : Term) : (bound : Nat) → Run
  | 0 => ⟨[], (t.step limit).map fun next => ⟨t, 0, next.isNone⟩⟩
  | bound + 1 =>
    match t.step limit with
    | .error e => ⟨[], .error e⟩
    | .ok none => ⟨[], .ok ⟨t, 0, true⟩⟩
    | .ok (some u) => (u.reduce limit bound).prepend u

section
variable {limit : Nat} {t u : Term} (bound : Nat)

theorem reduce_succ_of_step (h : t.step limit = .ok (some u)) :
    t.reduce limit (bound + 1) = (u.reduce limit bound).prepend u := by
  rw [reduce, h]

theorem reduce_succ_of_normal (h : t.step limit = .ok none) :
    t.reduce limit (bound + 1) = ⟨[], .ok ⟨t, 0, true⟩⟩ := by
  rw [reduce, h]

theorem reduce_succ_of_error {e : TermError} (h : t.step limit = .error e) :
    t.reduce limit (bound + 1) = ⟨[], .error e⟩ := by
  rw [reduce, h]

end

end Term

end NamedLambda
