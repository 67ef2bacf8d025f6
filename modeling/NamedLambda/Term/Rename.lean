import NamedLambda.Name.Fresh
import NamedLambda.Term.Limit

/-!
Renaming. `relabel` changes a name wherever it stands. `rename` changes the free occurrences of a
name without capture: a binder that has the old or the new name is given a fresh one first.
-/
namespace NamedLambda.Term

/-- Changes the variable `x` to `y` everywhere, at binders as well. -/
def relabel (x y : Variable) : Term → Term
  | .var z => .var (if z = x then y else z)
  | .const c => .const c
  | .lam z body => .lam (if z = x then y else z) (body.relabel x y)
  | .app f a => .app (f.relabel x y) (a.relabel x y)

@[simp] theorem size_relabel (x y : Variable) (t : Term) : (t.relabel x y).size = t.size := by
  induction t <;> simp_all [relabel]

/-- Renames `x` to `y` without capture, and keeps the size. `reserved` holds the names of the
renamings at work further out; no binder is given one of them, so those renamings leave it alone. -/
def renameSized (x y : Variable) (reserved : List Variable) (t : Term) :
    { u : Term // u.size = t.size } :=
  match t with
  | .var z => ⟨.var (if z = x then y else z), rfl⟩
  | .const c => ⟨.const c, rfl⟩
  | .app f a =>
    let f' := renameSized x y reserved f
    let a' := renameSized x y reserved a
    ⟨.app f'.1 a'.1, by simp [f'.2, a'.2]⟩
  | .lam z body =>
    if z = x ∨ z = y then
      let z' := z.fresh (x :: y :: reserved ++ (Term.lam z body).mentioned)
      let ⟨inner, hinner⟩ := renameSized z z' (x :: y :: reserved) body
      let ⟨outer, houter⟩ := renameSized x y reserved inner
      ⟨.lam z' outer, by simp [houter, hinner]⟩
    else
      let body' := renameSized x y reserved body
      ⟨.lam z body'.1, by simp [body'.2]⟩
termination_by t.size
decreasing_by all_goals (simp only [size_app, size_lam]; omega)

/-- Renames `x` to `y` without capture; binders get no name that is reserved. -/
def renameWith (x y : Variable) (reserved : List Variable) (t : Term) : Term :=
  (renameSized x y reserved t).1

section
variable (x y : Variable) (reserved : List Variable)

@[simp] theorem size_renameWith (t : Term) : (t.renameWith x y reserved).size = t.size :=
  (renameSized x y reserved t).2

theorem renameWith_var (z : Variable) :
    (var z).renameWith x y reserved = var (if z = x then y else z) := by
  rw [renameWith, renameSized]

theorem renameWith_const (c : Constant) : (const c).renameWith x y reserved = const c := by
  rw [renameWith, renameSized]

theorem renameWith_app (f a : Term) :
    (app f a).renameWith x y reserved =
      app (f.renameWith x y reserved) (a.renameWith x y reserved) := by
  rw [renameWith, renameSized]
  rfl

/-- A binder with neither of the two names stays. -/
theorem renameWith_lam {z : Variable} (hx : z ≠ x) (hy : z ≠ y) (body : Term) :
    (lam z body).renameWith x y reserved = lam z (body.renameWith x y reserved) := by
  rw [renameWith, renameSized, if_neg (by simp [hx, hy])]
  rfl

/-- A binder with one of the two names is renamed first, to a name that is used nowhere. -/
theorem renameWith_lam_of_clash {z : Variable} (h : z = x ∨ z = y) (body : Term) :
    (lam z body).renameWith x y reserved =
      let z' := z.fresh (x :: y :: reserved ++ (lam z body).mentioned)
      lam z' ((body.renameWith z z' (x :: y :: reserved)).renameWith x y reserved) := by
  rw [renameWith, renameSized, if_pos h]
  rfl

end

/-- Renames the free occurrences of `x` to `y` in a term within the limit. -/
def rename (limit : Nat) (x y : Variable) (t : Term) : Except TermError Term :=
  if t.depth ≤ limit then .ok (t.renameWith x y []) else .error (.tooDeep limit)

end NamedLambda.Term
