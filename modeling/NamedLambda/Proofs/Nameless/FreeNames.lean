import Mathlib.Tactic.Tauto
import NamedLambda.Proofs.Nameless.Scope

/-!
Free names, read off the nameless form. They are those of the named term, and what is put for a
name brings its own.
-/
namespace NamedLambda

namespace Nameless

/-- The name is at some leaf. -/
def HasFree (x : Variable) : Nameless → Prop
  | .bound _ | .const _ => False
  | .free y => x = y
  | .lam t => t.HasFree x
  | .app f a => f.HasFree x ∨ a.HasFree x

@[simp] theorem hasFree_lift {x : Variable} (d : Nat) (t : Nameless) :
    (t.lift d).HasFree x ↔ t.HasFree x := by
  induction t generalizing d with
  | bound _ | free _ | const _ => rfl
  | lam t ih => exact ih (d + 1)
  | app f a ihf iha => exact or_congr (ihf d) (iha d)

/-- Nothing is put for a name that a term does not have. -/
theorem substFree_of_not_hasFree {x : Variable} (r : Nameless) {t : Nameless}
    (h : ¬ t.HasFree x) : substFree x r t = t := by
  induction t generalizing r with
  | bound _ | const _ => rfl
  | free y => exact if_neg fun hyx => h hyx.symm
  | lam t ih => rw [substFree, ih _ h]
  | app f a ihf iha => rw [substFree, ihf r (h ∘ .inl), iha r (h ∘ .inr)]

theorem hasFree_substFree {x y : Variable} (r t : Nameless) :
    (substFree x r t).HasFree y ↔ t.HasFree y ∧ y ≠ x ∨ t.HasFree x ∧ r.HasFree y := by
  induction t generalizing r with
  | bound _ | const _ => simp [substFree, HasFree]
  | free z =>
    by_cases hzx : z = x
    · subst hzx
      simp [substFree, HasFree]
    · have hxz : x ≠ z := Ne.symm hzx
      simp only [substFree, hzx, if_false, HasFree, hxz, false_and, or_false]
      exact ⟨fun hyz => ⟨hyz, hyz ▸ hzx⟩, And.left⟩
  | lam t ih => simpa [substFree, HasFree] using ih (r.lift 0)
  | app f a ihf iha =>
    simp only [substFree, HasFree, ihf r, iha r]
    tauto

end Nameless

namespace Term

theorem hasFree_resolve {x y : Variable} (scope : List Variable) :
    (resolve scope y).HasFree x ↔ x = y ∧ x ∉ scope := by
  by_cases hy : y ∈ scope
  · obtain ⟨i, hi⟩ := exists_resolve_eq_bound hy
    rw [hi]
    exact ⟨False.elim, fun h => h.2 (h.1 ▸ hy)⟩
  · rw [resolve_of_notMem hy]
    exact ⟨fun hxy => ⟨hxy, hxy ▸ hy⟩, And.left⟩

/-- The free names of a term are those of its form, but for the names of the scope. -/
theorem hasFree_namelessUnder {x : Variable} (t : Term) (scope : List Variable) :
    (t.namelessUnder scope).HasFree x ↔ x ∈ t.free ∧ x ∉ scope := by
  induction t generalizing scope with
  | var y => simpa [free, namelessUnder_var] using hasFree_resolve scope
  | const c => simp [Nameless.HasFree, free]
  | lam y t ih =>
    rw [namelessUnder_lam, Nameless.HasFree, ih, mem_free_lam, List.mem_cons]
    tauto
  | app f a ihf iha =>
    rw [namelessUnder_app, Nameless.HasFree, ihf, iha, mem_free_app]
    tauto

theorem hasFree_nameless {x : Variable} {t : Term} : t.nameless.HasFree x ↔ x ∈ t.free := by
  simpa [nameless] using hasFree_namelessUnder t []

end Term

end NamedLambda
