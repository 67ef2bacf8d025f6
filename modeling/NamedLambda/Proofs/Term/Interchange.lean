import Mathlib.Data.List.Basic
import NamedLambda.Proofs.Term.Renaming
import NamedLambda.Proofs.Term.Substitution

/-!
The substitution lemma. Terms are put for two variables in either order, if the one that is put
first in the one order receives the other beforehand in the other. Binders are renamed at different
times and get different names, so the outcomes agree in their nameless form only.
-/
namespace NamedLambda

namespace Nameless

/-- What is put for `x` receives `s` for `y` itself, and `s` has no `x` to be replaced again. -/
theorem substFree_substFree {x y : Variable} (hxy : x ≠ y) {s : Nameless} (hx : ¬ s.HasFree x)
    (t r : Nameless) :
    substFree y s (substFree x r t) = substFree x (substFree y s r) (substFree y s t) := by
  induction t generalizing r s with
  | bound _ | const _ => rfl
  | free z =>
    by_cases hzx : z = x
    · have hzy : z ≠ y := fun hzy => hxy (hzx ▸ hzy)
      simp only [substFree, if_pos hzx, if_neg hzy]
    · by_cases hzy : z = y
      · simp only [substFree, if_neg hzx, if_pos hzy]
        exact (substFree_of_not_hasFree _ hx).symm
      · simp only [substFree, if_neg hzx, if_neg hzy]
  | lam t ih =>
    have hlift : ¬ (s.lift 0).HasFree x := mt (hasFree_lift 0 s).mp hx
    simp only [substFree, ih hlift, lift_substFree]
  | app f a ihf iha =>
    simp only [substFree, ihf hx, iha hx]

end Nameless

namespace Term

/-- To put `r` for `x` in `t` comes to `u` under every limit that the three terms fit, and fails
under every other by the limit alone. -/
def SubstitutesTo (t : Term) (x : Variable) (r u : Term) : Prop :=
  ∀ limit, t.subst limit x r =
    if t.depth ≤ limit ∧ r.depth ≤ limit ∧ u.depth ≤ limit then .ok u else .error (.tooDeep limit)

theorem substitutesTo_substituted (t : Term) (x : Variable) (r : Term) :
    t.SubstitutesTo x r (t.substituted x r) := by
  intro limit
  rw [subst_eq_allow]
  simp only [allow, Nat.max_le, and_assoc]

/-- A limit that allows the substitution tells what it comes to. -/
theorem SubstitutesTo.eq_of_subst {t r u v : Term} {x : Variable} (h : t.SubstitutesTo x r u)
    {limit : Nat} (hv : t.subst limit x r = .ok v) : u = v := by
  rw [h limit] at hv
  split at hv
  · exact Except.ok.inj hv
  · cases hv

/-- The substitution lemma. To put `r` for `x` and then `s` for `y` comes to the same as to put `s`
for `y`, in `r` as well, and then that for `x`. None of the five substitutions fails but by the
limit. -/
theorem subst_interchanges {x y : Variable} (hxy : x ≠ y) {s : Term} (hx : x ∉ s.free)
    (t r : Term) :
    ∃ u v u' r' v', t.SubstitutesTo x r u ∧ u.SubstitutesTo y s v ∧
      t.SubstitutesTo y s u' ∧ r.SubstitutesTo y s r' ∧ u'.SubstitutesTo x r' v' ∧
      v.AlphaEquiv v' := by
  refine ⟨_, _, _, _, _, substitutesTo_substituted t x r, substitutesTo_substituted _ y s,
    substitutesTo_substituted t y s, substitutesTo_substituted r y s,
    substitutesTo_substituted _ x _, ?_⟩
  have hfree : ¬ s.nameless.HasFree x := mt hasFree_nameless.mp hx
  unfold AlphaEquiv
  simp only [nameless_substituted]
  exact Nameless.substFree_substFree hxy hfree t.nameless r.nameless

/-- The binder `m` is renamed with `n` in its way in the one order, and without it in the other. -/
theorem subst_interchanges_binder :
    let x : Variable := ⟨"x"⟩
    let m : Variable := ⟨"m"⟩
    let n : Variable := ⟨"n"⟩
    let o : Variable := ⟨"o"⟩
    let t : Term := .lam m (.app (.var x) (.var m))
    let r : Term := .app (.var n) (.var m)
    let s : Term := .var ⟨"w"⟩
    let v : Term := .lam o (.app (.app s (.var m)) (.var o))
    let v' : Term := .lam n (.app (.app s (.var m)) (.var n))
    x ≠ n ∧ x ∉ s.free ∧
      (do (← t.subst 4 x r).subst 4 n s) = .ok v ∧
      (do (← t.subst 4 n s).subst 4 x (← r.subst 4 n s)) = .ok v' ∧
      v ≠ v' ∧ v.AlphaEquiv v' := by
  intro x m n o t r s v v'
  have hxn : x ≠ n := by decide
  have hx : x ∉ s.free := by decide
  have hfirst : t.subst 4 x r = .ok (.lam o (.app r (.var o))) := by cbv
  have hsecond : (Term.lam o (.app r (.var o))).subst 4 n s = .ok v := by cbv
  have houter : t.subst 4 n s = .ok t := by cbv
  have hinner : r.subst 4 n s = .ok (.app s (.var m)) := by cbv
  have hlast : t.subst 4 x (.app s (.var m)) = .ok v' := by cbv
  obtain ⟨u₁, v₁, u₂, r₂, v₂, hu₁, hv₁, hu₂, hr₂, hv₂, halpha⟩ := subst_interchanges hxn hx t r
  obtain rfl := hu₁.eq_of_subst hfirst
  obtain rfl := hu₂.eq_of_subst houter
  obtain rfl := hr₂.eq_of_subst hinner
  rw [hv₁.eq_of_subst hsecond, hv₂.eq_of_subst hlast] at halpha
  refine ⟨hxn, hx, ?_, ?_, by decide, halpha⟩
  · rw [hfirst]
    exact hsecond
  · rw [houter, hinner]
    exact hlast

end Term

end NamedLambda
