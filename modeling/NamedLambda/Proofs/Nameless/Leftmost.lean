import Mathlib.Logic.Function.Iterate
import NamedLambda.Proofs.Nameless.Development

/-!
Leftmost reduction. A development of other redexes leaves the leftmost one where it is, so it makes
the leftmost way to a normal form no longer; and a pass takes at least the first step of that way.
-/
namespace NamedLambda.Nameless

/-- The redex that begins furthest to the left is contracted. -/
inductive Leftmost : Nameless → Nameless → Prop where
  | redex (b a : Nameless) : Leftmost (.app (.lam b) a) (beta b a)
  | lam {t u : Nameless} (h : Leftmost t u) : Leftmost (.lam t) (.lam u)
  | function {f g : Nameless} (a : Nameless) (hf : ∀ b, f ≠ .lam b) (h : Leftmost f g) :
      Leftmost (.app f a) (.app g a)
  | argument {f a b : Nameless} (hf : ∀ b, f ≠ .lam b) (hn : f.IsNormal) (h : Leftmost a b) :
      Leftmost (.app f a) (.app f b)

/-- So many leftmost steps lead from the first term to the second. -/
inductive LeftmostIn : Nat → Nameless → Nameless → Prop where
  | zero (t : Nameless) : LeftmostIn 0 t t
  | succ {k : Nat} {t u n : Nameless} (h : Leftmost t u) (hs : LeftmostIn k u n) :
      LeftmostIn (k + 1) t n

/-- A term becomes an abstraction at once only if its root is a redex that is contracted. -/
theorem Develops.of_leftmost {f g b : Nameless} (h : Develops f (.lam b)) (hl : Leftmost f g)
    (hf : ∀ c, f ≠ .lam c) : Develops g (.lam b) := by
  generalize hu : Nameless.lam b = u at h
  cases h with
  | lam _ => exact absurd rfl (hf _)
  | bound _ | free _ | const _ | app _ _ => cases hu
  | redex hc ha =>
    cases hl with
    | redex c a => exact hc.beta ha
    | function _ hc' _ | argument hc' _ _ => exact absurd rfl (hc' _)

/-- Either the development has contracted the leftmost redex, or it is the leftmost one still. -/
theorem Leftmost.develops {t u t' : Nameless} (h : Leftmost t u) (hd : Develops t t') :
    Develops u t' ∨ ∃ u', Leftmost t' u' ∧ Develops u u' := by
  induction h generalizing t' with
  | redex b a =>
    cases hd with
    | app hf ha =>
      cases hf with
      | lam hb => exact .inr ⟨_, .redex _ _, hb.beta ha⟩
    | redex hb ha => exact .inl (hb.beta ha)
  | lam _ ih =>
    cases hd with
    | lam hd =>
      rcases ih hd with h | ⟨u', hl, hu⟩
      · exact .inl (.lam h)
      · exact .inr ⟨_, .lam hl, .lam hu⟩
  | @function f g a hf hl ih =>
    cases hd with
    | redex _ _ => exact absurd rfl (hf _)
    | @app _ f' _ a' hdf hda =>
      by_cases hlam : ∃ b, f' = .lam b
      · obtain ⟨b, rfl⟩ := hlam
        exact .inl (.app (hdf.of_leftmost hl hf) hda)
      · have hf' : ∀ b, f' ≠ .lam b := not_exists.mp hlam
        rcases ih hdf with h | ⟨g', hg, hu⟩
        · exact .inl (.app h hda)
        · exact .inr ⟨_, .function a' hf' hg, .app hu hda⟩
  | @argument f a b hf hn hl ih =>
    cases hd with
    | redex _ _ => exact absurd rfl (hf _)
    | app hdf hda =>
      obtain rfl := hdf.eq_of_isNormal hn
      rcases ih hda with h | ⟨b', hb, hu⟩
      · exact .inl (.app (.refl _) h)
      · exact .inr ⟨_, .argument hf hn hb, .app (.refl _) hu⟩

/-- A pass contracts the leftmost redex, and other redexes beside it. -/
theorem Leftmost.develops_pass {t u : Nameless} (h : Leftmost t u) : Develops u t.pass := by
  induction h with
  | redex b a => exact .refl _
  | lam _ ih => exact .lam ih
  | @function f g a hf _ ih =>
    rw [pass_app hf]
    exact .app ih (Nameless.develops_pass a)
  | @argument f a b hf _ _ ih =>
    rw [pass_app hf]
    exact .app (Nameless.develops_pass f) ih

/-- A development makes the leftmost way to a normal form no longer. -/
theorem LeftmostIn.develops {k : Nat} {t n t' : Nameless} (h : LeftmostIn k t n)
    (hn : n.IsNormal) (hd : Develops t t') : ∃ j ≤ k, LeftmostIn j t' n := by
  induction h generalizing t' with
  | zero t =>
    obtain rfl := hd.eq_of_isNormal hn
    exact ⟨0, Nat.le_refl 0, .zero _⟩
  | succ hl _ ih =>
    rcases hl.develops hd with h | ⟨u', hl', hu⟩
    · obtain ⟨j, hj, hs⟩ := ih hn h
      exact ⟨j, Nat.le_succ_of_le hj, hs⟩
    · obtain ⟨j, hj, hs⟩ := ih hn hu
      exact ⟨j + 1, Nat.succ_le_succ hj, .succ hl' hs⟩

/-- Passes reach the normal form at the end of the leftmost way: each of them makes it shorter. -/
theorem LeftmostIn.exists_iterate_pass {k : Nat} {t n : Nameless} (h : LeftmostIn k t n)
    (hn : n.IsNormal) : ∃ j, pass^[j] t = n := by
  induction k using Nat.strongRecOn generalizing t with
  | ind k ih =>
    cases h with
    | zero => exact ⟨0, rfl⟩
    | @succ k _ u _ hl hs =>
      obtain ⟨j, hj, hpass⟩ := hs.develops hn hl.develops_pass
      obtain ⟨i, hi⟩ := ih j (Nat.lt_succ_of_le hj) hpass
      exact ⟨i + 1, hi⟩

end NamedLambda.Nameless
