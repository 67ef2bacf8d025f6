import Mathlib.Data.List.Forall2
import NamedLambda.Proofs.Term.Normalization
import NamedLambda.Proofs.Term.Splitting

/-!
Runs of terms that differ only in the names of their binders. A pass may give other names to the
binders of the one than to those of the other, but the terms that it makes have one nameless form
again, and with it the same depth and the same redexes. So the two runs go side by side to one end.
-/
namespace NamedLambda

/-- The nodes on the longest way from the root to a leaf. -/
def Nameless.height : Nameless → Nat
  | .bound _ | .free _ | .const _ => 1
  | .lam body => body.height + 1
  | .app f a => max f.height a.height + 1

namespace Term

theorem height_resolve (scope : List Variable) (x : Variable) : (resolve scope x).height = 1 := by
  rcases resolve_eq scope x with ⟨i, h⟩ | h <;> rw [h] <;> rfl

@[simp] theorem height_namelessUnder (t : Term) (scope : List Variable) :
    (t.namelessUnder scope).height = t.height := by
  induction t generalizing scope with
  | var x => exact height_resolve scope x
  | const c => rfl
  | lam x t ih => rw [namelessUnder_lam, Nameless.height, ih, height_lam]
  | app f a ihf iha => rw [namelessUnder_app, Nameless.height, ihf, iha, height_app]

namespace AlphaEquiv
variable {t u : Term}

theorem depth_eq (h : t.AlphaEquiv u) : t.depth = u.depth := by
  have hheight := congrArg Nameless.height h
  rwa [nameless, nameless, height_namelessUnder, height_namelessUnder, ← depth_eq_height,
    ← depth_eq_height] at hheight

theorem hasRedex_iff (h : t.AlphaEquiv u) : t.HasRedex ↔ u.HasRedex := by
  rw [← hasRedex_namelessUnder t [], ← hasRedex_namelessUnder u []]
  exact iff_of_eq (congrArg Nameless.HasRedex h)

theorem contracted (h : t.AlphaEquiv u) : t.contracted.AlphaEquiv u.contracted := by
  rw [AlphaEquiv, nameless, nameless, namelessUnder_contracted, namelessUnder_contracted]
  exact congrArg Nameless.pass h

/-- The two terms are let through, or found to be normal, or refused together. -/
theorem step_eq (h : t.AlphaEquiv u) (limit : Nat) :
    u.step limit = (t.step limit).map (Option.map fun _ => u.contracted) := by
  rw [step_eq_allow, step_eq_allow, allow_map, h.depth_eq, h.contracted.depth_eq]
  congr 1
  by_cases hredex : t.HasRedex
  · rw [if_pos hredex, if_pos (h.hasRedex_iff.mp hredex)]
    rfl
  · rw [if_neg hredex, if_neg (mt h.hasRedex_iff.mpr hredex)]
    rfl

end AlphaEquiv

end Term

/-- The same error, or ends after equally many steps at terms that differ only in the names of their
binders, both found to be normal or both not. -/
inductive EndsAlike : Except TermError Reduction → Except TermError Reduction → Prop where
  | failed (e : TermError) : EndsAlike (.error e) (.error e)
  | ended {t u : Term} (h : t.AlphaEquiv u) (steps : Nat) (isNormal : Bool) :
      EndsAlike (.ok ⟨t, steps, isNormal⟩) (.ok ⟨u, steps, isNormal⟩)

theorem EndsAlike.later {o o' : Except TermError Reduction} (h : EndsAlike o o') :
    EndsAlike (o.map Reduction.later) (o'.map Reduction.later) := by
  cases h with
  | failed e => exact .failed e
  | ended h steps isNormal => exact .ended h (steps + 1) isNormal

namespace Run

/-- Runs with equally many passes, to terms that differ only in the names of their binders after
each of them, and with ends that are alike. -/
structure Alike (r s : Run) : Prop where
  trace : List.Forall₂ Term.AlphaEquiv r.trace s.trace
  outcome : EndsAlike r.outcome s.outcome

theorem Alike.prepend {r s : Run} {t u : Term} (h : r.Alike s) (htu : t.AlphaEquiv u) :
    (r.prepend t).Alike (s.prepend u) where
  trace := .cons htu h.trace
  outcome := h.outcome.later

/-- The passes of the two runs also have the same numbers. -/
theorem Alike.numbered {r s : Run} (h : r.Alike s) :
    List.Forall₂ (fun p q => p.1 = q.1 ∧ p.2.AlphaEquiv q.2) r.numbered s.numbered := by
  rw [Run.numbered, Run.numbered, List.forall₂_map_left_iff, List.forall₂_map_right_iff]
  have htrace := h.trace
  generalize r.trace = ts at htrace ⊢
  generalize s.trace = us at htrace ⊢
  generalize 0 = n
  induction htrace generalizing n with
  | nil => exact .nil
  | cons htu _ ih => exact .cons ⟨rfl, htu⟩ (ih (n + 1))

end Run

namespace Term
variable {limit bound : Nat} {t u : Term} {run : Run}

theorem Reduces.alike (h : Reduces limit bound t run) (htu : t.AlphaEquiv u) :
    run.Alike (u.reduce limit bound) := by
  induction h generalizing u with
  | refused h =>
    have hstep := htu.step_eq limit
    rw [h] at hstep
    rw [reduce_of_step_error hstep]
    exact ⟨.nil, .failed _⟩
  | normal h =>
    have hstep := htu.step_eq limit
    rw [h] at hstep
    rw [reduce_of_step_none hstep]
    exact ⟨.nil, .ended htu 0 true⟩
  | stopped h =>
    have hstep := htu.step_eq limit
    rw [h] at hstep
    rw [reduce_zero_of_step hstep]
    exact ⟨.nil, .ended htu 0 false⟩
  | pass h hrun ih =>
    have hstep := htu.step_eq limit
    rw [h] at hstep
    have hnext := contracted_of_step h ▸ htu.contracted
    rw [reduce_succ_of_step _ hstep]
    exact (ih hnext).prepend hnext

/-- The names of binders have no part in a reduction. From two terms that differ in nothing else, it
fails alike, or ends after equally many passes at terms that differ in nothing else, and so do the
terms after each pass on the way, also where it fails later. -/
theorem reduce_ignores_binder_names (htu : t.AlphaEquiv u) (limit bound : Nat) :
    EndsAlike (t.reduce limit bound).outcome (u.reduce limit bound).outcome ∧
      List.Forall₂ (fun p q => p.1 = q.1 ∧ p.2.AlphaEquiv q.2)
        (t.reduce limit bound).numbered (u.reduce limit bound).numbered := by
  have h := (reduces_reduce limit bound t).alike htu
  exact ⟨h.outcome, h.numbered⟩

/-- Of two spellings of one term only the first has a binder that is given another name. -/
theorem reduce_ignores_binder_names_clash :
    let x : Variable := ⟨"x"⟩
    let y : Variable := ⟨"y"⟩
    let z : Variable := ⟨"z"⟩
    let a : Variable := ⟨"a"⟩
    let t : Term := .app (.lam x (.lam y (.app (.var x) (.var y)))) (.var y)
    let u : Term := .app (.lam y (.lam a (.app (.var y) (.var a)))) (.var y)
    t.AlphaEquiv u ∧
      t.step 5 = .ok (some (.lam z (.app (.var y) (.var z)))) ∧
      u.step 5 = .ok (some (.lam a (.app (.var y) (.var a)))) ∧
      EndsAlike (t.reduce 5 9).outcome (u.reduce 5 9).outcome ∧
        List.Forall₂ (fun p q => p.1 = q.1 ∧ p.2.AlphaEquiv q.2)
          (t.reduce 5 9).numbered (u.reduce 5 9).numbered := by
  intro x y z a t u
  have htu : t.AlphaEquiv u := by decide
  have ht : t.step 5 = .ok (some (.lam z (.app (.var y) (.var z)))) := by cbv
  have hu : u.step 5 = .ok (some (.lam a (.app (.var y) (.var a)))) := by cbv
  exact ⟨htu, ht, hu, reduce_ignores_binder_names htu 5 9⟩

end Term
end NamedLambda
