import NamedLambda.Proofs.Nameless.Scope
import NamedLambda.Term.Subst

/-!
Freshening binders. None of the names to be avoided is left at a binder, the tree keeps its height,
and the nameless form stays the same under every scope.
-/
namespace NamedLambda.Term

/-- The variable is at a binder. -/
def Binds (x : Variable) : Term → Prop
  | .var _ | .const _ => False
  | .lam y body => x = y ∨ body.Binds x
  | .app f a => f.Binds x ∨ a.Binds x

@[simp] theorem height_relabel (x y : Variable) (t : Term) : (t.relabel x y).height = t.height := by
  induction t <;> simp_all [relabel]

@[simp] theorem height_freshenBinders (avoid : List Variable) (t : Term) :
    (t.freshenBinders avoid).height = t.height := by
  fun_induction freshenBinders avoid t with
  | case1 | case2 => rfl
  | case3 f a ihf iha => simp [ihf, iha]
  | case4 x body hx y ih => simp [ih]
  | case5 x body hx ih => simp [ih]

/-- The new name of a binder is not to be avoided, so it is not changed again. -/
theorem not_binds_freshenBinders {avoid : List Variable} {x : Variable} (h : x ∈ avoid) (t : Term) :
    ¬ (t.freshenBinders avoid).Binds x := by
  fun_induction freshenBinders avoid t with
  | case1 | case2 => exact id
  | case3 f a ihf iha => exact not_or.mpr ⟨ihf, iha⟩
  | case4 z body hz y ih =>
    have hy : y ∉ avoid := fun hmem =>
      Variable.fresh_not_mem z _ (List.mem_append_left _ hmem)
    exact not_or.mpr ⟨fun hxy => hy (hxy ▸ h), ih⟩
  | case5 z body hz ih => exact not_or.mpr ⟨fun hxz => hz (hxz ▸ h), ih⟩

@[simp] theorem namelessUnder_freshenBinders (avoid : List Variable) (t : Term)
    (scope : List Variable) :
    (t.freshenBinders avoid).namelessUnder scope = t.namelessUnder scope := by
  fun_induction freshenBinders avoid t generalizing scope with
  | case1 | case2 => rfl
  | case3 f a ihf iha => rw [namelessUnder_app, ihf, iha, namelessUnder_app]
  | case4 x body hx y ih =>
    have hy : ¬ body.Mentions y := fun hmem =>
      have hmem' : y ∈ (lam x body).mentioned := mem_mentioned.mpr (Or.inr hmem)
      Variable.fresh_not_mem x _ (List.mem_append_right _ hmem')
    rw [namelessUnder_lam, ih, namelessUnder_relabel_binder hy, namelessUnder_lam]
  | case5 x body hx ih => rw [namelessUnder_lam, ih, namelessUnder_lam]

end NamedLambda.Term
