import NamedLambda.Term.Basic

/-! Redexes, and terms without any. -/
namespace NamedLambda.Term

/-- Some subterm applies an abstraction. -/
def HasRedex : Term → Prop
  | .var _ | .const _ => False
  | .lam _ body => body.HasRedex
  | .app (.lam _ _) _ => True
  | .app f a => f.HasRedex ∨ a.HasRedex

/-- No subterm applies an abstraction. -/
def IsNormal (t : Term) : Prop :=
  ¬ t.HasRedex

theorem isNormal_var (x : Variable) : (var x).IsNormal := id

theorem isNormal_const (c : Constant) : (const c).IsNormal := id

@[simp] theorem isNormal_lam {x : Variable} {t : Term} : (lam x t).IsNormal ↔ t.IsNormal := Iff.rfl

theorem not_isNormal_redex (x : Variable) (t a : Term) : ¬ (app (lam x t) a).IsNormal :=
  fun h => h trivial

theorem isNormal_app {f a : Term} (hf : ∀ x t, f ≠ lam x t) :
    (app f a).IsNormal ↔ f.IsNormal ∧ a.IsNormal := by
  cases f with
  | lam x t => exact absurd rfl (hf x t)
  | var x => simp [IsNormal, HasRedex]
  | const c => simp [IsNormal, HasRedex]
  | app f' a' => simp [IsNormal, HasRedex]

end NamedLambda.Term
