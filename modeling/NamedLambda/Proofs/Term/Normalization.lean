import NamedLambda.Proofs.Nameless.Standard
import NamedLambda.Proofs.Term.Pass
import NamedLambda.Reduction

/-!
Reduction by passes finds every normal form. Whatever single contractions lead a term to one, enough
passes within a great enough limit end at the same one, up to the names of binders.
-/
namespace NamedLambda.Term

open Relation (ReflTransGen)

theorem hasRedex_namelessUnder (t : Term) (scope : List Variable) :
    (t.namelessUnder scope).HasRedex ↔ t.HasRedex := by
  fun_induction HasRedex t generalizing scope with
  | case1 x =>
    rw [namelessUnder_var]
    rcases resolve_eq scope x with ⟨i, h⟩ | h <;> rw [h] <;> rfl
  | case2 => rfl
  | case3 x t ih => exact ih (x :: scope)
  | case4 => exact iff_of_true trivial trivial
  | case5 f a hf ihf iha =>
    rw [namelessUnder_app, Nameless.hasRedex_app (namelessUnder_ne_lam hf scope), ihf, iha]

theorem isNormal_nameless {t : Term} : t.nameless.IsNormal ↔ t.IsNormal :=
  not_congr (hasRedex_namelessUnder t [])

theorem nameless_iterate_contracted (k : Nat) (t : Term) :
    (contracted^[k] t).nameless = Nameless.pass^[k] t.nameless := by
  have h : Function.Semiconj nameless contracted Nameless.pass :=
    fun u => namelessUnder_contracted u []
  exact h.iterate_right k t

theorem reduce_of_isNormal {limit : Nat} {t : Term} (hn : t.IsNormal) (hfit : t.depth ≤ limit)
    (bound : Nat) : t.reduce limit bound = ⟨[], .ok ⟨t, 0, true⟩⟩ := by
  have hstep : t.step limit = .ok none := by
    rw [step_eq_allow, contracted_of_isNormal hn, Nat.max_self, allow_of_le hfit, if_neg hn]
  cases bound with
  | zero =>
    rw [reduce, hstep]
    rfl
  | succ bound => exact reduce_succ_of_normal bound hstep

/-- The limit has only to leave room for the terms on the way to the normal form. -/
theorem exists_limit_reduce {k : Nat} {t : Term} (h : (contracted^[k] t).IsNormal) :
    ∃ room, ∀ limit, room ≤ limit → ∀ bound, k ≤ bound →
      ∃ steps, (t.reduce limit bound).outcome = .ok ⟨contracted^[k] t, steps, true⟩ := by
  induction k generalizing t with
  | zero =>
    have hn : t.IsNormal := h
    refine ⟨t.depth, fun limit hlimit bound _ => ⟨0, ?_⟩⟩
    rw [reduce_of_isNormal hn hlimit]
    rfl
  | succ k ih =>
    by_cases hn : t.IsNormal
    · refine ⟨t.depth, fun limit hlimit bound _ => ⟨0, ?_⟩⟩
      rw [reduce_of_isNormal hn hlimit, Function.iterate_fixed (contracted_of_isNormal hn)]
    · obtain ⟨room, hroom⟩ := ih h
      refine ⟨max (max t.depth t.contracted.depth) room, fun limit hlimit bound hbound => ?_⟩
      obtain ⟨hfit, hlater⟩ := Nat.max_le.mp hlimit
      obtain ⟨b, rfl⟩ := Nat.exists_eq_add_of_le' hbound
      obtain ⟨steps, hsteps⟩ := hroom limit hlater (b + k) (Nat.le_add_left k b)
      have hstep : t.step limit = .ok (some t.contracted) := by
        rw [step_eq_allow, allow_of_le hfit, if_pos (not_not.mp hn)]
      refine ⟨steps + 1, ?_⟩
      rw [← Nat.add_assoc, reduce_succ_of_step _ hstep, Run.prepend, hsteps]
      rfl

/-- Where any contractions whatever lead to a term without redex, reduction ends at that term, but
for the names of its binders; only a bound or a limit that is too low can keep it from there. -/
theorem reduce_reaches_normal_form {t n : Term} (hn : n.IsNormal)
    (h : ReflTransGen Nameless.Contracts t.nameless n.nameless) :
    ∃ passes room, ∀ bound, passes ≤ bound → ∀ limit, room ≤ limit →
      ∃ r, (t.reduce limit bound).outcome = .ok r ∧ r.isNormal = true ∧ r.term.AlphaEquiv n := by
  obtain ⟨k, hk⟩ := Nameless.exists_iterate_pass_eq h (isNormal_nameless.mpr hn)
  rw [← nameless_iterate_contracted] at hk
  have hnormal : (contracted^[k] t).IsNormal := by
    rw [← isNormal_nameless, hk, isNormal_nameless]
    exact hn
  obtain ⟨room, hroom⟩ := exists_limit_reduce hnormal
  refine ⟨k, room, fun bound hbound limit hlimit => ?_⟩
  obtain ⟨steps, hsteps⟩ := hroom limit hlimit bound hbound
  exact ⟨_, hsteps, rfl, hk⟩

/-- An operand without normal form is contracted once and then discarded. -/
theorem reduce_discards_divergence :
    let x : Variable := ⟨"x"⟩
    let loop : Term := .lam x (.app (.var x) (.var x))
    let t : Term := .app (.lam x (.var ⟨"y"⟩)) (.app loop loop)
    let n : Term := .var ⟨"y"⟩
    n.IsNormal ∧ ReflTransGen Nameless.Contracts t.nameless n.nameless ∧
      ∃ passes room, ∀ bound, passes ≤ bound → ∀ limit, room ≤ limit →
        ∃ r, (t.reduce limit bound).outcome = .ok r ∧ r.isNormal = true ∧ r.term.AlphaEquiv n := by
  intro x loop t n
  have hn : n.IsNormal := isNormal_var _
  have h : ReflTransGen Nameless.Contracts t.nameless n.nameless :=
    .tail (.single (.argument _ (.redex _ _))) (.redex _ _)
  exact ⟨hn, h, reduce_reaches_normal_form hn h⟩

end NamedLambda.Term
