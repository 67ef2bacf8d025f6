import NamedLambda.Proofs.Term.Pass
import NamedLambda.Reduction

/-!
Which passes the outcome of a reduction hangs on. They are those up to the bound and the one after
it, which is made in full although it only tells whether a redex is left, so it can fail as well.
-/
namespace NamedLambda.Term

/-- So many passes, each within the limit and each with a redex to contract, lead from one term to
the other. -/
inductive Passes (limit : Nat) : Nat → Term → Term → Prop where
  | zero (t : Term) : Passes limit 0 t t
  | succ {k : Nat} {t u v : Term} (hstep : t.step limit = .ok (some u)) (h : Passes limit k u v) :
      Passes limit (k + 1) t v

section
variable {limit k bound : Nat} {t u : Term}

/-- Nothing fails before the bound is reached, so what is left is the reduction of the term there. -/
theorem Passes.outcome_reduce (h : Passes limit k t u) (bound : Nat) :
    (t.reduce limit (k + bound)).outcome =
      (u.reduce limit bound).outcome.map fun r => { r with steps := r.steps + k } := by
  induction h with
  | zero t =>
    rw [Nat.zero_add]
    cases (t.reduce limit bound).outcome <;> rfl
  | @succ k t v u hstep h ih =>
    rw [Nat.add_right_comm, reduce_succ_of_step _ hstep, Run.prepend, ih]
    cases (u.reduce limit bound).outcome <;> rfl

theorem Passes.outcome_reduce_of_normal (h : Passes limit k t u) (hk : k < bound)
    (hstep : u.step limit = .ok none) : (t.reduce limit bound).outcome = .ok ⟨u, k, true⟩ := by
  obtain ⟨b, rfl⟩ := Nat.exists_eq_add_of_lt hk
  rw [Nat.add_assoc, h.outcome_reduce, reduce_succ_of_normal _ hstep]
  simp [Except.map]

theorem Passes.outcome_reduce_of_error (h : Passes limit k t u) (hk : k ≤ bound) {e : TermError}
    (hstep : u.step limit = .error e) : (t.reduce limit bound).outcome = .error e := by
  obtain ⟨b, rfl⟩ := Nat.exists_eq_add_of_le hk
  rw [h.outcome_reduce]
  cases b with
  | zero =>
    rw [reduce, hstep]
    rfl
  | succ b =>
    rw [reduce_succ_of_error _ hstep]
    rfl

theorem Passes.outcome_reduce_at_bound (h : Passes limit bound t u) :
    (t.reduce limit bound).outcome =
      (u.step limit).map fun next => ⟨u, bound, next.isNone⟩ := by
  have hreduce := h.outcome_reduce 0
  rw [Nat.add_zero, reduce] at hreduce
  rw [hreduce]
  cases u.step limit with
  | error e => rfl
  | ok next => simp [Except.map]

/-- A reduction that fails does so at a pass that is made up to the bound, or at the one after. -/
theorem exists_passes_of_outcome_error {e : TermError}
    (h : (t.reduce limit bound).outcome = .error e) :
    ∃ k ≤ bound, ∃ u, Passes limit k t u ∧ u.step limit = .error e := by
  induction bound generalizing t with
  | zero =>
    refine ⟨0, Nat.le_refl 0, t, .zero t, ?_⟩
    cases hstep : t.step limit with
    | error e' =>
      rw [reduce, hstep] at h
      exact congrArg Except.error (Except.error.inj h)
    | ok next =>
      rw [reduce, hstep] at h
      cases h
  | succ bound ih =>
    cases hstep : t.step limit with
    | error e' =>
      rw [reduce_succ_of_error _ hstep] at h
      cases h
      exact ⟨0, Nat.zero_le _, t, .zero t, hstep⟩
    | ok next =>
      cases next with
      | none =>
        rw [reduce_succ_of_normal _ hstep] at h
        cases h
      | some v =>
        rw [reduce_succ_of_step _ hstep, Run.prepend] at h
        cases houtcome : (v.reduce limit bound).outcome with
        | ok r =>
          rw [houtcome] at h
          cases h
        | error e' =>
          rw [houtcome] at h
          cases h
          obtain ⟨k, hk, u, hpasses, hu⟩ := ih houtcome
          exact ⟨k + 1, Nat.succ_le_succ hk, u, .succ hstep hpasses, hu⟩

end

/-- A reduction fails exactly where a pass does, be it the one after the bound; that one alone
decides over a reduction that has reached the bound. -/
theorem reduce_fails_with_pass (limit bound : Nat) (t : Term) :
    (∀ e, (t.reduce limit bound).outcome = .error e ↔
      ∃ k ≤ bound, ∃ u, Passes limit k t u ∧ u.step limit = .error e) ∧
    (∀ k u, Passes limit k t u → k < bound → u.step limit = .ok none →
      (t.reduce limit bound).outcome = .ok ⟨u, k, true⟩) ∧
    (∀ u, Passes limit bound t u →
      (t.reduce limit bound).outcome =
        (u.step limit).map fun next => ⟨u, bound, next.isNone⟩) := by
  refine ⟨fun e => ⟨exists_passes_of_outcome_error, ?_⟩, ?_, ?_⟩
  · rintro ⟨k, hk, u, hpasses, hstep⟩
    exact hpasses.outcome_reduce_of_error hk hstep
  · intro k u hpasses hk hstep
    exact hpasses.outcome_reduce_of_normal hk hstep
  · intro u hpasses
    exact hpasses.outcome_reduce_at_bound

/-- No pass is asked for, yet the term makes one that is too deep. -/
theorem reduce_fails_at_bound_zero :
    let x : Variable := ⟨"x"⟩
    let f (t : Term) : Term := .app (.var ⟨"f"⟩) t
    let t : Term := .app (.lam x (f (f (.var x)))) (f (f (f (.var ⟨"y"⟩))))
    t.depth = 5 ∧ (t.reduce 5 0).outcome = .error (.tooDeep 5) := by
  intro x f t
  constructor <;> cbv

end NamedLambda.Term
