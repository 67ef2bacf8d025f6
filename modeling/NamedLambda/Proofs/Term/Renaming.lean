import NamedLambda.Proofs.Nameless.FreeNames
import NamedLambda.Proofs.Term.Binders
import NamedLambda.Term.Rename

/-!
Renaming of a free name. A binder with one of the two names is renamed first, and its scope is gone
through twice, so what is proved of the outcome is proved along the renamings that it is made of.
-/
namespace NamedLambda

namespace Nameless

theorem lift_substFree (x : Variable) (r t : Nameless) (d : Nat) :
    (substFree x r t).lift d = substFree x (r.lift d) (t.lift d) := by
  induction t generalizing r d with
  | bound i =>
    simp only [substFree, lift]
  | free y =>
    rw [lift_free, substFree, substFree]
    split <;> rfl
  | const c => rfl
  | lam t ih =>
    rw [substFree, lift_lam, ih, lift_lam, substFree, lift_lift r (Nat.zero_le d)]
  | app f a ihf iha => rw [substFree, lift_app, ihf, iha, lift_app, substFree]

@[simp] theorem substFree_self (x : Variable) (t : Nameless) : substFree x (.free x) t = t := by
  induction t with
  | bound _ | const _ => rfl
  | free y =>
    by_cases hyx : y = x
    · rw [substFree, if_pos hyx, hyx]
    · rw [substFree, if_neg hyx]
  | lam t ih => rw [substFree, lift_free, ih]
  | app f a ihf iha => rw [substFree, ihf, iha]

end Nameless

namespace Term

open Nameless (substFree)

/-- How the outcome of renaming `x` to `y` comes about. -/
inductive Renames : Variable → Variable → List Variable → Term → Term → Prop where
  | var {x y : Variable} {reserved : List Variable} (z : Variable) :
      Renames x y reserved (.var z) (.var (if z = x then y else z))
  | const {x y : Variable} {reserved : List Variable} (c : Constant) :
      Renames x y reserved (.const c) (.const c)
  | app {x y : Variable} {reserved : List Variable} {f g a b : Term}
      (hfunction : Renames x y reserved f g) (hargument : Renames x y reserved a b) :
      Renames x y reserved (.app f a) (.app g b)
  | lam {x y z : Variable} {reserved : List Variable} {t u : Term} (hx : z ≠ x) (hy : z ≠ y)
      (hbody : Renames x y reserved t u) : Renames x y reserved (.lam z t) (.lam z u)
  | clash {x y z w : Variable} {reserved : List Variable} {t inner outer : Term}
      (hclash : z = x ∨ z = y)
      (hfresh : w = z.fresh (x :: y :: reserved ++ (Term.lam z t).mentioned))
      (hinner : Renames z w (x :: y :: reserved) t inner)
      (houter : Renames x y reserved inner outer) :
      Renames x y reserved (.lam z t) (.lam w outer)

theorem renames_renameWith (x y : Variable) (reserved : List Variable) (t : Term) :
    Renames x y reserved t (t.renameWith x y reserved) := by
  match t with
  | .var z =>
    rw [renameWith_var]
    exact .var z
  | .const c =>
    rw [renameWith_const]
    exact .const c
  | .app f a =>
    rw [renameWith_app]
    exact .app (renames_renameWith x y reserved f) (renames_renameWith x y reserved a)
  | .lam z t =>
    by_cases hclash : z = x ∨ z = y
    · rw [renameWith_lam_of_clash x y reserved hclash]
      exact .clash hclash rfl (renames_renameWith _ _ _ t) (renames_renameWith x y reserved _)
    · obtain ⟨hx, hy⟩ := not_or.mp hclash
      rw [renameWith_lam x y reserved hx hy]
      exact .lam hx hy (renames_renameWith x y reserved t)
termination_by t.size
decreasing_by
  -- the scope keeps its size when its binder is renamed in it
  all_goals
    simp only [size_app, size_lam, size_renameWith]
    omega

/-- The new name of a binder is none of the two, is not reserved, and is nowhere in its scope. -/
theorem fresh_spec {x y z w : Variable} {reserved : List Variable} {t : Term}
    (h : w = z.fresh (x :: y :: reserved ++ (Term.lam z t).mentioned)) :
    w ≠ x ∧ w ≠ y ∧ w ∉ reserved ∧ ¬ t.Mentions w := by
  have hw : w ∉ x :: y :: reserved ++ (Term.lam z t).mentioned := h ▸ Variable.fresh_not_mem z _
  simp only [List.cons_append, List.mem_cons, List.mem_append, mem_mentioned, Mentions] at hw
  tauto

/-- An occurrence that is not the new binder's in either scope stays renamed below the binder. -/
theorem resolve_cons_of_renamed {old new z z' b b' : Variable} {s s' : List Variable}
    (h : resolve s' z' = substFree old (.free new) (resolve s z)) (hz : z ≠ b) (hz' : z' ≠ b') :
    resolve (b' :: s') z' = substFree old (.free new) (resolve (b :: s) z) := by
  rw [resolve_cons_of_ne hz', resolve_cons_of_ne hz, h, Nameless.lift_substFree,
    Nameless.lift_free]

/-- If each free name of a term is renamed by the scopes as it is by the renaming, so is the whole
term. -/
theorem Renames.namelessUnder_eq {x y : Variable} {reserved : List Variable} {t u : Term}
    (h : Renames x y reserved t u) {old new : Variable} {s s' : List Variable}
    (hs : ∀ z ∈ t.free, resolve s' (if z = x then y else z) =
      substFree old (.free new) (resolve s z)) :
    u.namelessUnder s' = substFree old (.free new) (t.namelessUnder s) := by
  induction h generalizing old new s s' with
  | var z => exact hs z (List.mem_singleton.mpr rfl)
  | const c => rfl
  | app hfunction hargument ihf iha =>
    rw [namelessUnder_app, ihf fun z hz => hs z (mem_free_app.mpr (.inl hz)),
      iha fun z hz => hs z (mem_free_app.mpr (.inr hz))]
    rfl
  | @lam x y b reserved t u hx hy hbody ih =>
    rw [namelessUnder_lam, namelessUnder_lam, substFree, Nameless.lift_free, ih]
    intro z hz
    by_cases hzb : z = b
    · rw [hzb, if_neg hx, resolve_cons_self, resolve_cons_self]
      rfl
    · refine resolve_cons_of_renamed (hs z (mem_free_lam.mpr ⟨hz, hzb⟩)) hzb ?_
      split_ifs
      · exact hy.symm
      · exact hzb
  | @clash x y b w reserved t inner outer hclash hfresh hinner houter ihinner ihouter =>
    obtain ⟨hwx, hwy, -, hwt⟩ := fresh_spec hfresh
    -- the binder takes its new name along, so its scope keeps its form
    have hscope (s : List Variable) : inner.namelessUnder (w :: s) = t.namelessUnder (b :: s) := by
      rw [@ihinner w w (b :: s), Nameless.substFree_self]
      intro z hz
      rw [Nameless.substFree_self]
      by_cases hzb : z = b
      · rw [if_pos hzb, hzb, resolve_cons_self, resolve_cons_self]
      · have hzw : z ≠ w := fun hzw => hwt (hzw ▸ mentions_of_mem_free hz)
        rw [if_neg hzb, resolve_cons_of_ne hzw, resolve_cons_of_ne hzb]
    have hfree {z : Variable} (hz : z ∈ inner.free) (hzw : z ≠ w) : z ∈ (Term.lam b t).free := by
      have hform := hasFree_namelessUnder (x := z) inner [w]
      rw [hscope, hasFree_namelessUnder] at hform
      obtain ⟨hzt, hzb⟩ := hform.mpr ⟨hz, by simpa using hzw⟩
      exact mem_free_lam.mpr ⟨hzt, by simpa using hzb⟩
    rw [namelessUnder_lam, namelessUnder_lam, substFree, Nameless.lift_free, ← hscope, ihouter]
    intro z hz
    by_cases hzw : z = w
    · rw [hzw, if_neg hwx, resolve_cons_self, resolve_cons_self]
      rfl
    · refine resolve_cons_of_renamed (hs z (hfree hz hzw)) hzw ?_
      split_ifs
      · exact hwy.symm
      · exact hzw

theorem nameless_renameWith (x y : Variable) (reserved : List Variable) (t : Term) :
    (t.renameWith x y reserved).nameless = substFree x (.free y) t.nameless := by
  apply (renames_renameWith x y reserved t).namelessUnder_eq
  intro z hz
  rw [resolve_of_notMem List.not_mem_nil, resolve_of_notMem List.not_mem_nil, substFree]
  split <;> rfl

/-- What renaming `x` to `y` makes of a binder: it keeps its name, which is neither, or it has one
of the two and gets a name that is neither and is not reserved. -/
def Rebinds (x y : Variable) (reserved : List Variable) (z z' : Variable) : Prop :=
  z' = z ∧ z ≠ x ∧ z ≠ y ∨ (z = x ∨ z = y) ∧ z' ∉ reserved ∧ z' ≠ x ∧ z' ≠ y

/-- The scope of a binder that is renamed is gone through twice. Names given at the first time are
neither of the two that the second one is about, so it leaves them. -/
theorem Renames.rebinds {x y : Variable} {reserved : List Variable} {t u : Term}
    (h : Renames x y reserved t u) : BindersRelated (Rebinds x y reserved) t u := by
  induction h with
  | var z => exact .var _ _
  | const c => exact .const c
  | app hfunction hargument ihf iha => exact .app ihf iha
  | lam hx hy hbody ih => exact .lam (.inl ⟨rfl, hx, hy⟩) ih
  | @clash x y b w reserved t inner outer hclash hfresh hinner houter ihinner ihouter =>
    obtain ⟨hwx, hwy, hwreserved, hwt⟩ := fresh_spec hfresh
    refine .lam (.inr ⟨hclash, hwreserved, hwx, hwy⟩) ((ihinner.comp ihouter).mono ?_)
    rintro z z' hz ⟨m, hfirst, hsecond⟩
    rcases hfirst with ⟨rfl, -, -⟩ | ⟨hzbw, hm, -, -⟩
    · exact hsecond
    · have hzw : z ≠ w := fun h => hwt (h ▸ mentions_of_binds hz)
      obtain rfl : z = b := hzbw.resolve_right hzw
      simp only [List.mem_cons, not_or] at hm
      obtain ⟨hmx, hmy, hmreserved⟩ := hm
      rcases hsecond with ⟨rfl, -, -⟩ | ⟨hmxy, -⟩
      · exact .inr ⟨hclash, hmreserved, hmx, hmy⟩
      · exact absurd hmxy (not_or.mpr ⟨hmx, hmy⟩)

/-- Binders with neither name are kept, and the others get another one. -/
theorem Renames.bindersRelated {x y : Variable} {reserved : List Variable} {t u : Term}
    (h : Renames x y reserved t u) :
    BindersRelated (fun z z' => (z ≠ x → z ≠ y → z' = z) ∧ z' ≠ x ∧ z' ≠ y) t u := by
  apply h.rebinds.mono
  rintro z z' - (⟨rfl, hx, hy⟩ | ⟨hclash, -, hx', hy'⟩)
  · exact ⟨fun _ _ => rfl, hx, hy⟩
  · exact ⟨fun hx hy => absurd hclash (not_or.mpr ⟨hx, hy⟩), hx', hy'⟩

theorem not_binds_renameWith {x y z : Variable} (hz : z = x ∨ z = y) (reserved : List Variable)
    (t : Term) : ¬ (t.renameWith x y reserved).Binds z := by
  intro hbinds
  have hrelated := (renames_renameWith x y reserved t).bindersRelated
  obtain ⟨-, -, -, hx, hy⟩ := hrelated.exists_of_binds hbinds
  exact hz.elim hx hy

/-- Renaming keeps the tree and all binders but those with one of the two names, which get others;
the free occurrences of `x` become free ones of `y`, and `x` is left nowhere. -/
theorem rename_avoids_capture (x y : Variable) (t : Term) :
    ∃ u, u.nameless = substFree x (.free y) t.nameless ∧
      BindersRelated (fun z z' => (z ≠ x → z ≠ y → z' = z) ∧ z' ≠ x ∧ z' ≠ y) t u ∧
      u.depth = t.depth ∧ ¬ u.Binds x ∧ ¬ u.Binds y ∧ (x ≠ y → ¬ u.Mentions x) ∧
      ∀ limit, t.rename limit x y = if t.depth ≤ limit then .ok u else .error (.tooDeep limit) := by
  have hrelated := (renames_renameWith x y [] t).bindersRelated
  have hx : ¬ (t.renameWith x y []).Binds x := not_binds_renameWith (.inl rfl) [] t
  refine ⟨t.renameWith x y [], nameless_renameWith x y [] t, hrelated, ?_, hx,
    not_binds_renameWith (.inr rfl) [] t, ?_, fun limit => rfl⟩
  · rw [depth_eq_height, depth_eq_height, hrelated.height_eq]
  · intro hxy hmentions
    rcases binds_or_mem_free_of_mentions hmentions with hbinds | hfree
    · exact hx hbinds
    · rw [← hasFree_nameless, nameless_renameWith, Nameless.hasFree_substFree] at hfree
      rcases hfree with ⟨-, hne⟩ | ⟨-, heq⟩
      · exact hne rfl
      · exact hxy heq

end Term

end NamedLambda
