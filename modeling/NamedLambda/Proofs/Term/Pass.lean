import NamedLambda.Proofs.Nameless.Outermost
import NamedLambda.Proofs.Term.Substitution
import NamedLambda.Term.Beta
import NamedLambda.Term.Normal

/-!
A pass within a limit is a pass without one, held against the limit at the end. On nameless forms it
contracts the outermost redexes, and it changes nothing only where there is no redex at all.
-/
namespace NamedLambda.Term

/-- The term itself, or one that stands inside it. -/
inductive HasSubterm : Term → Term → Prop where
  | self (t : Term) : HasSubterm t t
  | body {x : Variable} {t s : Term} (h : t.HasSubterm s) : HasSubterm (.lam x t) s
  | function {f a s : Term} (h : f.HasSubterm s) : HasSubterm (.app f a) s
  | argument {f a s : Term} (h : a.HasSubterm s) : HasSubterm (.app f a) s

theorem hasRedex_app {f a : Term} (hf : ∀ x t, f ≠ lam x t) :
    (app f a).HasRedex ↔ f.HasRedex ∨ a.HasRedex := by
  cases f with
  | lam x t => exact absurd rfl (hf x t)
  | var _ | const _ | app _ _ => rfl

theorem hasRedex_iff {t : Term} :
    t.HasRedex ↔ ∃ x b a, t.HasSubterm (.app (.lam x b) a) := by
  constructor
  · intro h
    fun_induction HasRedex t with
    | case1 | case2 => exact h.elim
    | case3 y t ih =>
      obtain ⟨x, b, a, hsub⟩ := ih h
      exact ⟨x, b, a, .body hsub⟩
    | case4 x b a => exact ⟨x, b, a, .self _⟩
    | case5 f a hf ihf iha =>
      rcases h with h | h
      · obtain ⟨x, b, c, hsub⟩ := ihf h
        exact ⟨x, b, c, .function hsub⟩
      · obtain ⟨x, b, c, hsub⟩ := iha h
        exact ⟨x, b, c, .argument hsub⟩
  · rintro ⟨x, b, a, hsub⟩
    generalize hs : app (lam x b) a = s at hsub
    induction hsub with
    | self t =>
      subst hs
      trivial
    | body _ ih => exact ih hs
    | @function f a _ _ ih =>
      cases f with
      | lam y t => trivial
      | var _ | const _ | app _ _ => exact Or.inl (ih hs)
    | @argument f a _ _ ih =>
      cases f with
      | lam y t => trivial
      | var _ | const _ | app _ _ => exact Or.inr (ih hs)

theorem isNormal_iff {t : Term} :
    t.IsNormal ↔ ∀ x b a, ¬ t.HasSubterm (.app (.lam x b) a) := by
  rw [IsNormal, hasRedex_iff]
  push Not
  rfl

instance decidableHasRedex : DecidablePred HasRedex
  | .var _ | .const _ => .isFalse id
  | .lam _ body => decidableHasRedex body
  | .app f a =>
    match f, decidableHasRedex f with
    | .lam _ _, _ => .isTrue trivial
    | .var _, h | .const _, h | .app _ _, h => @instDecidableOr _ _ h (decidableHasRedex a)

/-- The outcome of a pass where no limit is in the way. -/
def contracted : Term → Term
  | .app (.lam x body) a => body.substituted x a
  | .app f a => .app f.contracted a.contracted
  | .lam x body => .lam x body.contracted
  | t => t

/-- A pass fails only by the depth of what it makes. A redex goes from the place where it stood, so
its body and its argument fit there all the more. -/
theorem passAt_eq_allow {limit n : Nat} {t : Term} (ht : n + t.height ≤ limit) :
    passAt limit t (n + 1) =
      allow limit (n + t.contracted.height) (t.contracted, decide t.HasRedex) := by
  fun_induction contracted t generalizing n with
  | case1 x body a =>
    rw [height_app, height_lam] at ht
    rw [passAt, substAt_eq_allow (by omega) (by omega), allow_map]
    rfl
  | case2 f a hf ihf iha =>
    rw [height_app] at ht
    have hdepth : n + (app f.contracted a.contracted).height =
        max (n + 1 + f.contracted.height) (n + 1 + a.contracted.height) := by
      rw [height_app]
      omega
    rw [passAt, ihf (by omega), iha (by omega), hdepth]
    · simp only [hasRedex_app hf, Bool.decide_or]
      exact allow_bind_allow (fun p q : Term × Bool => (app p.1 q.1, p.2 || q.2)) _ _ _ _
    · exact hf
  | case3 x body ih =>
    rw [height_lam] at ht
    rw [passAt, ih (by omega), height_lam, ← Nat.add_assoc, Nat.add_right_comm]
    exact allow_bind (fun p : Term × Bool => (lam x p.1, p.2)) _
  | case4 t hredex happ hlam =>
    cases t with
    | var _ | const _ =>
      rw [allow_of_le ht]
      rfl
    | lam x t => exact absurd rfl (hlam x t)
    | app f a => exact absurd rfl (happ f a)

/-- The term and the outcome have to fit the limit, and nothing else has to. -/
theorem pass_eq_allow (limit : Nat) (t : Term) :
    pass limit t =
      allow limit (max t.depth t.contracted.depth) (t.contracted, decide t.HasRedex) := by
  by_cases ht : t.depth ≤ limit
  · have h : passAt limit t 1 = _ :=
      passAt_eq_allow (n := 0) (by rwa [Nat.zero_add, ← depth_eq_height])
    rw [pass, if_pos ht, h, Nat.zero_add, ← depth_eq_height, allow_max_of_le ht]
  · rw [pass, if_neg ht, allow_of_lt (by omega)]

theorem contract_eq_allow (limit : Nat) (t : Term) :
    t.contract limit = allow limit (max t.depth t.contracted.depth) t.contracted := by
  rw [contract, pass_eq_allow, allow_map]

theorem step_eq_allow (limit : Nat) (t : Term) :
    t.step limit = allow limit (max t.depth t.contracted.depth)
      (if t.HasRedex then some t.contracted else none) := by
  rw [step, pass_eq_allow, allow_map]
  simp only [decide_eq_true_eq]

theorem step_eq_ok_iff {limit : Nat} {t : Term} {next : Option Term} :
    t.step limit = .ok next ↔
      (t.depth ≤ limit ∧ t.contracted.depth ≤ limit) ∧
        (if t.HasRedex then some t.contracted else none) = next := by
  rw [step_eq_allow, allow_eq_ok_iff, Nat.max_le]

theorem contracted_of_contract {limit : Nat} {t u : Term} (h : t.contract limit = .ok u) :
    u = t.contracted := by
  rw [contract_eq_allow, allow_eq_ok_iff] at h
  exact h.2.symm

theorem contracted_of_step {limit : Nat} {t u : Term} (h : t.step limit = .ok (some u)) :
    u = t.contracted := by
  obtain ⟨-, hnext⟩ := step_eq_ok_iff.mp h
  split at hnext
  · exact (Option.some.inj hnext).symm
  · cases hnext

theorem namelessUnder_contracted (t : Term) (scope : List Variable) :
    t.contracted.namelessUnder scope = (t.namelessUnder scope).pass := by
  fun_induction contracted t generalizing scope with
  | case1 x body a =>
    rw [namelessUnder_substituted, namelessUnder_app, namelessUnder_lam, Nameless.pass]
  | case2 f a hf ihf iha =>
    rw [namelessUnder_app, ihf, iha, namelessUnder_app,
      Nameless.pass_app (namelessUnder_ne_lam hf scope)]
  | case3 x body ih => rw [namelessUnder_lam, ih, namelessUnder_lam, Nameless.pass]
  | case4 t hredex happ hlam =>
    cases t with
    | var x =>
      rw [namelessUnder_var]
      rcases resolve_eq scope x with ⟨i, h⟩ | h <;> rw [h] <;> rfl
    | const c => rfl
    | lam x t => exact absurd rfl (hlam x t)
    | app f a => exact absurd rfl (happ f a)

theorem contracted_of_isNormal {t : Term} (h : t.IsNormal) : t.contracted = t := by
  fun_induction contracted t with
  | case1 x body a => exact absurd h (not_isNormal_redex x body a)
  | case2 f a hf ihf iha =>
    obtain ⟨hfn, han⟩ := (isNormal_app hf).mp h
    rw [ihf hfn, iha han]
  | case3 x body ih => rw [ih h]
  | case4 => rfl

/-- A pass contracts the outermost redexes, each of them once, and a step tells whether there was
one. Both fail only where the term or the outcome is too deep. -/
theorem step_contracts_outermost (t : Term) :
    ∃ u, t.nameless.ContractsOutermost u.nameless ∧
      ∀ limit,
        if t.depth ≤ limit ∧ u.depth ≤ limit then
          t.contract limit = .ok u ∧
            (t.step limit = .ok none ↔ ∀ x b a, ¬ t.HasSubterm (.app (.lam x b) a)) ∧
            (t.step limit = .ok none → u = t) ∧
            (t.step limit ≠ .ok none → t.step limit = .ok (some u))
        else
          t.contract limit = .error (.tooDeep limit) ∧ t.step limit = .error (.tooDeep limit) := by
  refine ⟨t.contracted, ?_, fun limit => ?_⟩
  · exact Nameless.contractsOutermost_iff.mpr (namelessUnder_contracted t [])
  rw [contract_eq_allow, step_eq_allow, ← isNormal_iff]
  by_cases hfit : t.depth ≤ limit ∧ t.contracted.depth ≤ limit
  · have hmax := Nat.max_le.mpr hfit
    rw [if_pos hfit, allow_of_le hmax, allow_of_le hmax]
    by_cases hredex : t.HasRedex
    · simp [hredex, IsNormal]
    · have hsame := contracted_of_isNormal hredex
      simp [hredex, IsNormal, hsame]
  · have hmax : limit < max t.depth t.contracted.depth := by
      rw [← Nat.not_le, Nat.max_le]
      exact hfit
    rw [if_neg hfit, allow_of_lt hmax, allow_of_lt hmax]
    exact ⟨rfl, rfl⟩

end NamedLambda.Term
