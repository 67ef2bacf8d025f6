import NamedLambda.Proofs.Term.Freshening
import Mathlib.Logic.Relation

/-!
Trees compared binder by binder. Two terms of one shape have their binders in the same places, so a
change of names is described by how the two binders of each place are related.
-/
namespace NamedLambda.Term

/-- The same nodes in the same places, with the same constants, and at each place binders that are
so related. -/
inductive BindersRelated (R : Variable → Variable → Prop) : Term → Term → Prop where
  | var (x y : Variable) : BindersRelated R (.var x) (.var y)
  | const (c : Constant) : BindersRelated R (.const c) (.const c)
  | lam {x y : Variable} {t u : Term} (hbinder : R x y) (hbody : BindersRelated R t u) :
      BindersRelated R (.lam x t) (.lam y u)
  | app {f g a b : Term} (hfunction : BindersRelated R f g) (hargument : BindersRelated R a b) :
      BindersRelated R (.app f a) (.app g b)

/-- A name in a term is that of a binder or has a free occurrence. -/
theorem binds_or_mem_free_of_mentions {x : Variable} {t : Term} (h : t.Mentions x) :
    t.Binds x ∨ x ∈ t.free := by
  induction t with
  | var y => exact .inr (List.mem_singleton.mpr h)
  | const c => exact h.elim
  | lam y t ih =>
    by_cases hxy : x = y
    · exact .inl (.inl hxy)
    · exact (ih (h.resolve_left hxy)).imp .inr fun hx => mem_free_lam.mpr ⟨hx, hxy⟩
  | app f a ihf iha =>
    rcases h with h | h
    · exact (ihf h).imp .inl fun hx => mem_free_app.mpr (.inl hx)
    · exact (iha h).imp .inr fun hx => mem_free_app.mpr (.inr hx)

theorem mentions_of_binds {x : Variable} {t : Term} (h : t.Binds x) : t.Mentions x := by
  induction t with
  | var _ | const _ => exact h.elim
  | lam y t ih => exact h.imp_right ih
  | app f a ihf iha => exact h.imp ihf iha

namespace BindersRelated
variable {R S : Variable → Variable → Prop} {t u v : Term}

/-- Of the relation only what it says of the binders that there are counts. -/
theorem mono (h : BindersRelated R t u) (hRS : ∀ x y, t.Binds x → R x y → S x y) :
    BindersRelated S t u := by
  induction h with
  | var x y => exact .var x y
  | const c => exact .const c
  | @lam x y t u hbinder hbody ih =>
    exact .lam (hRS x y (.inl rfl) hbinder) (ih fun z w hz => hRS z w (.inr hz))
  | app hfunction hargument ihf iha =>
    exact .app (ihf fun z w hz => hRS z w (.inl hz)) (iha fun z w hz => hRS z w (.inr hz))

theorem comp (h : BindersRelated R t u) (h' : BindersRelated S u v) :
    BindersRelated (Relation.Comp R S) t v := by
  induction h generalizing v with
  | var x y =>
    cases h' with
    | var _ z => exact .var x z
  | const c =>
    cases h' with
    | const => exact .const c
  | lam hbinder hbody ih =>
    cases h' with
    | lam hbinder' hbody' => exact .lam ⟨_, hbinder, hbinder'⟩ (ih hbody')
  | app hfunction hargument ihf iha =>
    cases h' with
    | app hfunction' hargument' => exact .app (ihf hfunction') (iha hargument')

theorem height_eq (h : BindersRelated R t u) : u.height = t.height := by
  induction h with
  | var _ _ | const _ => rfl
  | lam hbinder hbody ih => rw [height_lam, height_lam, ih]
  | app hfunction hargument ihf iha => rw [height_app, height_app, ihf, iha]

theorem exists_of_binds (h : BindersRelated R t u) {y : Variable} (hy : u.Binds y) :
    ∃ x, t.Binds x ∧ R x y := by
  induction h with
  | var _ _ | const _ => exact hy.elim
  | @lam x z t u hbinder hbody ih =>
    rcases hy with rfl | hy
    · exact ⟨x, .inl rfl, hbinder⟩
    · obtain ⟨w, hw, hR⟩ := ih hy
      exact ⟨w, .inr hw, hR⟩
  | app hfunction hargument ihf iha =>
    rcases hy with hy | hy
    · obtain ⟨w, hw, hR⟩ := ihf hy
      exact ⟨w, .inl hw, hR⟩
    · obtain ⟨w, hw, hR⟩ := iha hy
      exact ⟨w, .inr hw, hR⟩

end BindersRelated

end NamedLambda.Term
