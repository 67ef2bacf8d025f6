import NamedLambda.Proofs.Nameless.Algebra

/-!
Developments: some of the redexes of a term, wherever they stand, are contracted at once. They go
through lifting and instantiation, and a pass is one of them.
-/
namespace NamedLambda.Nameless

/-- Some subterm applies an abstraction. -/
def HasRedex : Nameless → Prop
  | .lam t => t.HasRedex
  | .app (.lam _) _ => True
  | .app f a => f.HasRedex ∨ a.HasRedex
  | _ => False

def IsNormal (t : Nameless) : Prop :=
  ¬ t.HasRedex

theorem hasRedex_app {f : Nameless} (hf : ∀ b, f ≠ lam b) (a : Nameless) :
    (app f a).HasRedex ↔ f.HasRedex ∨ a.HasRedex := by
  cases f with
  | lam b => exact absurd rfl (hf b)
  | bound _ | free _ | const _ | app _ _ => rfl

theorem isNormal_app {f a : Nameless} (h : (app f a).IsNormal) :
    (∀ b, f ≠ lam b) ∧ f.IsNormal ∧ a.IsNormal := by
  cases f with
  | lam b => exact absurd trivial h
  | bound _ | free _ | const _ | app _ _ => exact ⟨nofun, not_or.mp h⟩

inductive Develops : Nameless → Nameless → Prop where
  | bound (i : Nat) : Develops (.bound i) (.bound i)
  | free (x : Variable) : Develops (.free x) (.free x)
  | const (c : Constant) : Develops (.const c) (.const c)
  | lam {t t' : Nameless} (h : Develops t t') : Develops (.lam t) (.lam t')
  | app {f f' a a' : Nameless} (hf : Develops f f') (ha : Develops a a') :
      Develops (.app f a) (.app f' a')
  | redex {b b' a a' : Nameless} (hb : Develops b b') (ha : Develops a a') :
      Develops (.app (.lam b) a) (beta b' a')

theorem Develops.refl (t : Nameless) : Develops t t := by
  induction t with
  | bound i => exact .bound i
  | free x => exact .free x
  | const c => exact .const c
  | lam t ih => exact .lam ih
  | app f a ihf iha => exact .app ihf iha

theorem Develops.lift {t t' : Nameless} (h : Develops t t') (d : Nat) :
    Develops (t.lift d) (t'.lift d) := by
  induction h generalizing d with
  | bound _ | free _ | const _ => exact .refl _
  | lam _ ih => exact .lam (ih (d + 1))
  | app _ _ ihf iha => exact .app (ihf d) (iha d)
  | redex _ _ ihb iha =>
    rw [lift_beta]
    exact .redex (ihb (d + 1)) (iha d)

theorem Develops.instantiate {t t' r r' : Nameless} (h : Develops t t') (hr : Develops r r')
    (d : Nat) : Develops (instantiate d r t) (instantiate d r' t') := by
  induction h generalizing r r' d with
  | bound i =>
    rcases Nat.lt_trichotomy i d with hi | rfl | hi
    · rw [instantiate_bound_of_lt d r hi, instantiate_bound_of_lt d r' hi]
      exact .bound i
    · rw [instantiate_bound_self, instantiate_bound_self]
      exact hr
    · rw [instantiate_bound_of_gt d r hi, instantiate_bound_of_gt d r' hi]
      exact .bound (i - 1)
  | free x => exact .free x
  | const c => exact .const c
  | lam _ ih => exact .lam (ih (hr.lift 0) (d + 1))
  | app _ _ ihf iha => exact .app (ihf hr d) (iha hr d)
  | redex _ _ ihb iha =>
    rw [instantiate_beta]
    exact .redex (ihb (hr.lift 0) (d + 1)) (iha hr d)

theorem Develops.beta {b b' a a' : Nameless} (hb : Develops b b') (ha : Develops a a') :
    Develops (beta b a) (beta b' a') :=
  hb.instantiate ha 0

theorem Develops.eq_of_isNormal {t t' : Nameless} (h : Develops t t') (hn : t.IsNormal) :
    t' = t := by
  induction h with
  | bound _ | free _ | const _ => rfl
  | lam _ ih => rw [ih hn]
  | app _ _ ihf iha =>
    obtain ⟨-, hf, ha⟩ := isNormal_app hn
    rw [ihf hf, iha ha]
  | redex _ _ _ _ => exact absurd trivial hn

theorem pass_app {f : Nameless} (hf : ∀ b, f ≠ lam b) (a : Nameless) :
    (app f a).pass = app f.pass a.pass :=
  pass.eq_2 f a hf

theorem develops_pass (t : Nameless) : Develops t t.pass := by
  fun_induction pass t with
  | case1 b a => exact .redex (.refl b) (.refl a)
  | case2 f a hf ihf iha => exact .app ihf iha
  | case3 t ih => exact .lam ih
  | case4 t => exact .refl t

end NamedLambda.Nameless
