import Mathlib.Logic.Relation
import NamedLambda.Proofs.Nameless.Leftmost

/-!
Standard reductions. Every reduction can be done from the root downwards: first the steps at the
head, up to a term with the same root as the last one, then the same below that root. A standard
reduction to a normal form is a leftmost one, so leftmost steps find every normal form there is.
-/
namespace NamedLambda.Nameless

/-- The redex at the head, below no abstraction and in no operand, is contracted. -/
inductive HeadStep : Nameless → Nameless → Prop where
  | redex (b a : Nameless) : HeadStep (.app (.lam b) a) (beta b a)
  | function {f g : Nameless} (a : Nameless) (h : HeadStep f g) : HeadStep (.app f a) (.app g a)

abbrev HeadSteps : Nameless → Nameless → Prop :=
  Relation.ReflTransGen HeadStep

/-- The first term goes to the second by head steps down to its root, and below the root again in
this way. -/
inductive Standard : Nameless → Nameless → Prop where
  | bound {t : Nameless} {i : Nat} (h : HeadSteps t (.bound i)) : Standard t (.bound i)
  | free {t : Nameless} {x : Variable} (h : HeadSteps t (.free x)) : Standard t (.free x)
  | const {t : Nameless} {c : Constant} (h : HeadSteps t (.const c)) : Standard t (.const c)
  | lam {t b b' : Nameless} (h : HeadSteps t (.lam b)) (hb : Standard b b') : Standard t (.lam b')
  | app {t f f' a a' : Nameless} (h : HeadSteps t (.app f a)) (hf : Standard f f')
      (ha : Standard a a') : Standard t (.app f' a')

theorem HeadStep.lift {t u : Nameless} (h : HeadStep t u) (d : Nat) :
    HeadStep (t.lift d) (u.lift d) := by
  induction h with
  | redex b a =>
    rw [lift_beta]
    exact .redex _ _
  | function a _ ih => exact .function _ ih

theorem HeadStep.instantiate {t u : Nameless} (h : HeadStep t u) (d : Nat) (r : Nameless) :
    HeadStep (instantiate d r t) (instantiate d r u) := by
  induction h with
  | redex b a =>
    rw [instantiate_beta]
    exact .redex _ _
  | function a _ ih => exact .function _ ih

/-- What takes every head step to a head step takes many to many. -/
theorem HeadSteps.map {g : Nameless → Nameless} (hg : ∀ t u, HeadStep t u → HeadStep (g t) (g u))
    {t u : Nameless} (h : HeadSteps t u) : HeadSteps (g t) (g u) := by
  induction h with
  | refl => exact .refl
  | tail _ hs ih => exact ih.tail (hg _ _ hs)

theorem HeadSteps.function {f g : Nameless} (h : HeadSteps f g) (a : Nameless) :
    HeadSteps (.app f a) (.app g a) :=
  h.map fun _ _ => HeadStep.function a

theorem HeadSteps.lift {t u : Nameless} (h : HeadSteps t u) (d : Nat) :
    HeadSteps (t.lift d) (u.lift d) :=
  h.map fun _ _ hs => hs.lift d

theorem HeadSteps.instantiate {t u : Nameless} (h : HeadSteps t u) (d : Nat) (r : Nameless) :
    HeadSteps (instantiate d r t) (instantiate d r u) :=
  h.map fun _ _ hs => hs.instantiate d r

theorem Standard.refl (t : Nameless) : Standard t t := by
  induction t with
  | bound i => exact .bound .refl
  | free x => exact .free .refl
  | const c => exact .const .refl
  | lam t ih => exact .lam .refl ih
  | app f a ihf iha => exact .app .refl ihf iha

/-- Head steps may come first. -/
theorem Standard.head {t u n : Nameless} (h : HeadSteps t u) (hs : Standard u n) :
    Standard t n := by
  cases hs with
  | bound hu => exact .bound (h.trans hu)
  | free hu => exact .free (h.trans hu)
  | const hu => exact .const (h.trans hu)
  | lam hu hb => exact .lam (h.trans hu) hb
  | app hu hf ha => exact .app (h.trans hu) hf ha

theorem Standard.lift {t u : Nameless} (h : Standard t u) (d : Nat) :
    Standard (t.lift d) (u.lift d) := by
  induction h generalizing d with
  | bound h => exact .head (h.lift d) (.refl _)
  | free h => exact .free (h.lift d)
  | const h => exact .const (h.lift d)
  | lam h _ ih => exact .lam (h.lift d) (ih (d + 1))
  | app h _ _ ihf iha => exact .app (h.lift d) (ihf d) (iha d)

theorem Standard.instantiate {t u r s : Nameless} (h : Standard t u) (hr : Standard r s)
    (d : Nat) : Standard (instantiate d r t) (instantiate d s u) := by
  induction h generalizing r s d with
  | @bound t i h =>
    refine .head (h.instantiate d r) ?_
    rcases Nat.lt_trichotomy i d with hi | rfl | hi
    · rw [instantiate_bound_of_lt d r hi, instantiate_bound_of_lt d s hi]
      exact .refl _
    · rw [instantiate_bound_self, instantiate_bound_self]
      exact hr
    · rw [instantiate_bound_of_gt d r hi, instantiate_bound_of_gt d s hi]
      exact .refl _
  | free h => exact .free (h.instantiate d r)
  | const h => exact .const (h.instantiate d r)
  | lam h _ ih => exact .lam (h.instantiate d r) (ih (hr.lift 0) (d + 1))
  | app h _ _ ihf iha => exact .app (h.instantiate d r) (ihf hr d) (iha hr d)

/-- A redex at the end of a standard reduction is contracted by one more head step, which comes
before all that was done in its body and its argument. -/
theorem Standard.beta {t b a : Nameless} (h : Standard t (.app (.lam b) a)) :
    Standard t (beta b a) := by
  cases h with
  | @app _ f _ a₀ _ ht hf ha =>
    cases hf with
    | @lam _ b₀ _ hf hb =>
      have hhead : HeadSteps t (Nameless.beta b₀ a₀) :=
        (ht.trans (hf.function a₀)).tail (.redex b₀ a₀)
      exact .head hhead (hb.instantiate ha 0)

theorem Standard.tail {t u v : Nameless} (h : Standard t u) (hc : Contracts u v) :
    Standard t v := by
  induction hc generalizing t with
  | redex b a => exact h.beta
  | lam _ ih =>
    cases h with
    | lam ht hb => exact .lam ht (ih hb)
  | function a _ ih =>
    cases h with
    | app ht hf ha => exact .app ht (ih hf) ha
  | argument f _ ih =>
    cases h with
    | app ht hf ha => exact .app ht hf (ih ha)

theorem standard_of_contracts {t u : Nameless} (h : Relation.ReflTransGen Contracts t u) :
    Standard t u := by
  induction h with
  | refl => exact .refl t
  | tail _ hc ih => exact ih.tail hc

theorem HeadStep.leftmost {t u : Nameless} (h : HeadStep t u) : Leftmost t u := by
  induction h with
  | redex b a => exact .redex b a
  | @function f g a hs ih =>
    refine .function a ?_ ih
    rintro b rfl
    cases hs

theorem HeadSteps.trans_leftmostIn {k : Nat} {t u n : Nameless} (h : HeadSteps t u)
    (hs : LeftmostIn k u n) : ∃ j, LeftmostIn j t n := by
  induction h using Relation.ReflTransGen.head_induction_on with
  | refl => exact ⟨k, hs⟩
  | head hstep _ ih =>
    obtain ⟨j, hj⟩ := ih
    exact ⟨j + 1, .succ hstep.leftmost hj⟩

theorem LeftmostIn.lam {k : Nat} {t n : Nameless} (h : LeftmostIn k t n) :
    LeftmostIn k (.lam t) (.lam n) := by
  induction h with
  | zero t => exact .zero _
  | succ hl _ ih => exact .succ (.lam hl) ih

theorem LeftmostIn.exists_lam {k : Nat} {b n : Nameless} (h : LeftmostIn k (.lam b) n) :
    ∃ b', n = .lam b' := by
  generalize ht : Nameless.lam b = t at h
  induction h generalizing b with
  | zero t => exact ⟨b, ht.symm⟩
  | succ hl _ ih =>
    subst ht
    cases hl with
    | lam _ => exact ih rfl

/-- On its way to a normal form that is no abstraction, a function is no abstraction either, so its
steps are leftmost in the application; the operand's turn comes after them. -/
theorem LeftmostIn.app {k j : Nat} {f f' a a' : Nameless} (hf : LeftmostIn k f f')
    (hn : f'.IsNormal) (hlam : ∀ b, f' ≠ .lam b) (ha : LeftmostIn j a a') :
    LeftmostIn (k + j) (.app f a) (.app f' a') := by
  induction hf with
  | zero f =>
    rw [Nat.zero_add]
    induction ha with
    | zero a => exact .zero _
    | succ hl _ ih => exact .succ (.argument hlam hn hl) ih
  | @succ k f g n hl hs ih =>
    have hne : ∀ b, f ≠ .lam b := by
      rintro b rfl
      obtain ⟨b', rfl⟩ := (LeftmostIn.succ hl hs).exists_lam
      exact hlam b' rfl
    rw [Nat.add_right_comm]
    exact .succ (.function a hne hl) (ih hn hlam)

/-- A standard reduction to a normal form is a leftmost one. -/
theorem Standard.leftmostIn {t n : Nameless} (h : Standard t n) (hn : n.IsNormal) :
    ∃ k, LeftmostIn k t n := by
  induction h with
  | bound h => exact h.trans_leftmostIn (.zero _)
  | free h => exact h.trans_leftmostIn (.zero _)
  | const h => exact h.trans_leftmostIn (.zero _)
  | lam h _ ih =>
    obtain ⟨k, hk⟩ := ih hn
    exact h.trans_leftmostIn hk.lam
  | app h _ _ ihf iha =>
    obtain ⟨hlam, hf, ha⟩ := isNormal_app hn
    obtain ⟨k, hk⟩ := ihf hf
    obtain ⟨j, hj⟩ := iha ha
    exact h.trans_leftmostIn (hk.app hf hlam hj)

/-- Passes reach every normal form that single contractions reach, in whatever order. -/
theorem exists_iterate_pass_eq {t n : Nameless} (h : Relation.ReflTransGen Contracts t n)
    (hn : n.IsNormal) : ∃ k, pass^[k] t = n := by
  obtain ⟨k, hk⟩ := (standard_of_contracts h).leftmostIn hn
  exact hk.exists_iterate_pass hn

end NamedLambda.Nameless
