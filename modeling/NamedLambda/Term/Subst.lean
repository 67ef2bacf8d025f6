import NamedLambda.Term.Rename

/-!
Substitution. `replace` puts a term for a variable as it is, and is refused where a binder of the
variable would be crossed. `subst` first renames every binder that could capture.
-/
namespace NamedLambda.Term

/-- Renames every binder whose name is in `avoid`, the outermost first. -/
def freshenBinders (avoid : List Variable) (t : Term) : Term :=
  match t with
  | .var x => .var x
  | .const c => .const c
  | .app f a => .app (freshenBinders avoid f) (freshenBinders avoid a)
  | .lam x body =>
    if x ∈ avoid then
      let y := x.fresh (avoid ++ (Term.lam x body).mentioned)
      .lam y (freshenBinders avoid (body.relabel x y))
    else .lam x (freshenBinders avoid body)
termination_by t.size
decreasing_by all_goals (simp only [size_app, size_lam, size_relabel]; omega)

section
variable (avoid : List Variable)

@[simp] theorem freshenBinders_var (x : Variable) :
    (var x).freshenBinders avoid = var x := by rw [freshenBinders]

@[simp] theorem freshenBinders_const (c : Constant) :
    (const c).freshenBinders avoid = const c := by rw [freshenBinders]

@[simp] theorem freshenBinders_app (f a : Term) :
    (app f a).freshenBinders avoid = app (f.freshenBinders avoid) (a.freshenBinders avoid) := by
  rw [freshenBinders]

theorem freshenBinders_lam {x : Variable} (h : x ∉ avoid) (body : Term) :
    (lam x body).freshenBinders avoid = lam x (body.freshenBinders avoid) := by
  rw [freshenBinders, if_neg h]

theorem freshenBinders_lam_of_mem {x : Variable} (h : x ∈ avoid) (body : Term) :
    (lam x body).freshenBinders avoid =
      let y := x.fresh (avoid ++ (lam x body).mentioned)
      lam y ((body.relabel x y).freshenBinders avoid) := by
  rw [freshenBinders, if_pos h]

end

/-- Puts `r` for every leaf `x` of a term whose root stands at depth `d` of the tree being made. No
leaf of `r` may come to stand below the limit, and no binder of `x` may be crossed. -/
def replaceAt (limit : Nat) (x : Variable) (r : Term) : Term → Nat → Except TermError Term
  | .var y, d =>
    if y = x then
      if d - 1 + r.depth ≤ limit then .ok r else .error (.tooDeep limit)
    else .ok (.var y)
  | .const c, _ => .ok (.const c)
  | .app f a, d => do
    let f' ← replaceAt limit x r f (d + 1)
    let a' ← replaceAt limit x r a (d + 1)
    return .app f' a'
  | .lam y body, d =>
    if y = x then .error (.binderClash y)
    else (replaceAt limit x r body (d + 1)).map (.lam y)

/-- Puts `r` for the variable `x`, as it is. -/
def replace (limit : Nat) (t : Term) (x : Variable) (r : Term) : Except TermError Term :=
  if t.depth ≤ limit ∧ r.depth ≤ limit then replaceAt limit x r t 1 else .error (.tooDeep limit)

/-- Substitutes `r` for `x` without capture in a term whose root stands at depth `d`. -/
def substAt (limit : Nat) (t : Term) (x : Variable) (r : Term) (d : Nat) :
    Except TermError Term :=
  if r.depth ≤ limit then replaceAt limit x r (t.freshenBinders (x :: r.free)) d
  else .error (.tooDeep limit)

/-- Substitutes `r` for the free occurrences of `x` without capture. -/
def subst (limit : Nat) (t : Term) (x : Variable) (r : Term) : Except TermError Term :=
  if t.depth ≤ limit then t.substAt limit x r 1 else .error (.tooDeep limit)

end NamedLambda.Term
