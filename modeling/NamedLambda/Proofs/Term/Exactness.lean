import NamedLambda.Proofs.Term.Renaming
import NamedLambda.Proofs.Term.Splitting

/-!
What the limit decides. Each way of changing a term has one outcome, which every limit either gives
or refuses; it is given where the terms that go in and the one that comes out are not too deep.
-/
namespace NamedLambda.Term

section
variable {limit limit' bound : Nat} {t u : Term}

theorem rename_eq_allow (limit : Nat) (x y : Variable) (t : Term) :
    t.rename limit x y = allow limit t.depth (t.renameWith x y []) := rfl

@[simp] theorem depth_renameWith (x y : Variable) (reserved : List Variable) (t : Term) :
    (t.renameWith x y reserved).depth = t.depth := by
  have hrelated := (renames_renameWith x y reserved t).bindersRelated
  rw [depth_eq_height, depth_eq_height, hrelated.height_eq]

/-- Without a binder in the way, the two terms and the outcome have to fit the limit, and nothing
else has to. -/
theorem replace_eq_allow {x : Variable} (hx : ¬ t.Binds x) (limit : Nat) (r : Term) :
    t.replace limit x r =
      allow limit (max (max t.depth r.depth) (t.replaced x r).depth) (t.replaced x r) := by
  by_cases hfit : t.depth ≤ limit ∧ r.depth ≤ limit
  · have h : replaceAt limit x r t 1 = _ :=
      replaceAt_eq_allow (n := 0) r hx (by rw [Nat.zero_add, ← depth_eq_height]; exact hfit.1)
    rw [replace, if_pos hfit, h, Nat.zero_add, ← depth_eq_height,
      allow_max_of_le (Nat.max_le.mpr hfit)]
  · have hmax : limit < max t.depth r.depth := by
      rwa [← Nat.not_le, Nat.max_le]
    rw [replace, if_neg hfit, allow_of_lt (by omega)]

/-- Replacement goes through the whole term, so it comes to every binder. -/
theorem not_binds_of_replaceAt {x : Variable} {r : Term} {d : Nat}
    (h : replaceAt limit x r t d = .ok u) : ¬ t.Binds x := by
  induction t generalizing d u with
  | var _ | const _ => exact id
  | lam y body ih =>
    rw [replaceAt] at h
    split at h
    · cases h
    · next hyx =>
      obtain ⟨v, hbody, -⟩ := Except.map_eq_ok_iff.mp h
      exact not_or.mpr ⟨Ne.symm hyx, ih hbody⟩
  | app f a ihf iha =>
    obtain ⟨g, hf, hlater⟩ := Except.bind_eq_ok_iff.mp h
    obtain ⟨b, ha, -⟩ := Except.map_eq_ok_iff.mp hlater
    exact not_or.mpr ⟨ihf hf, iha ha⟩

theorem not_binds_of_replace {x : Variable} {r : Term} (h : t.replace limit x r = .ok u) :
    ¬ t.Binds x := by
  rw [replace] at h
  split at h
  · exact not_binds_of_replaceAt h
  · cases h

/-- A pass is the same under every limit that does not refuse it. -/
theorem step_mono (hle : limit ≤ limit') {next : Option Term} (h : t.step limit = .ok next) :
    t.step limit' = .ok next := by
  obtain ⟨⟨ht, hu⟩, hnext⟩ := step_eq_ok_iff.mp h
  exact step_eq_ok_iff.mpr ⟨⟨Nat.le_trans ht hle, Nat.le_trans hu hle⟩, hnext⟩

theorem Reduces.mono {run : Run} (h : Reduces limit bound t run) (hle : limit ≤ limit')
    {r : Reduction} (hr : run.outcome = .ok r) : Reduces limit' bound t run := by
  induction h generalizing r with
  | refused h => cases hr
  | normal h => exact .normal (step_mono hle h)
  | stopped h => exact .stopped (step_mono hle h)
  | pass h hrun ih =>
    obtain ⟨s, hs, -⟩ := Run.exists_of_outcome_prepend hr
    exact .pass (step_mono hle h) (ih hs)

/-- A run that ends is the same under every higher limit. -/
theorem reduce_mono (hle : limit ≤ limit') {r : Reduction}
    (hr : (t.reduce limit bound).outcome = .ok r) :
    t.reduce limit' bound = t.reduce limit bound :=
  ((reduces_reduce limit bound t).mono hle hr).eq_reduce.symm

end

/-- The second term comes out of some change that is made to the first within the limit. -/
inductive Yields (limit : Nat) (t : Term) : Term → Prop where
  | rename {x y : Variable} {u : Term} (h : t.rename limit x y = .ok u) : Yields limit t u
  | replace {x : Variable} {r u : Term} (h : t.replace limit x r = .ok u) : Yields limit t u
  | subst {x : Variable} {r u : Term} (h : t.subst limit x r = .ok u) : Yields limit t u
  | contract {u : Term} (h : t.contract limit = .ok u) : Yields limit t u
  | step {u : Term} (h : t.step limit = .ok (some u)) : Yields limit t u
  | trace {bound : Nat} {u : Term} (h : u ∈ (t.reduce limit bound).trace) : Yields limit t u
  | outcome {bound : Nat} {r : Reduction} (h : (t.reduce limit bound).outcome = .ok r) :
      Yields limit t r.term

section
variable {limit bound : Nat} {t u : Term} {run : Run}

theorem depth_le_of_step (h : t.step limit = .ok (some u)) : u.depth ≤ limit := by
  obtain ⟨⟨-, hfit⟩, hnext⟩ := step_eq_ok_iff.mp h
  rw [if_pos (hasRedex_of_step_some h)] at hnext
  cases hnext
  exact hfit

theorem Reduces.depth_le_of_mem_trace (h : Reduces limit bound t run) (hu : u ∈ run.trace) :
    u.depth ≤ limit := by
  induction h with
  | refused | normal | stopped => cases hu
  | pass h hrun ih =>
    rcases List.mem_cons.mp hu with rfl | hu
    · exact depth_le_of_step h
    · exact ih hu

theorem Reduces.depth_le_of_outcome (h : Reduces limit bound t run) {r : Reduction}
    (hr : run.outcome = .ok r) : r.term.depth ≤ limit := by
  induction h generalizing r with
  | refused h => cases hr
  | normal h | stopped h =>
    cases hr
    exact (step_eq_ok_iff.mp h).1.1
  | pass h hrun ih =>
    obtain ⟨s, hs, rfl⟩ := Run.exists_of_outcome_prepend hr
    have hfit : s.term.depth ≤ limit := ih hs
    exact hfit

theorem Yields.depth_le (h : Yields limit t u) : u.depth ≤ limit := by
  cases h with
  | rename h =>
    rw [rename_eq_allow, allow_eq_ok_iff] at h
    rw [← h.2, depth_renameWith]
    exact h.1
  | replace h =>
    rw [replace_eq_allow (not_binds_of_replace h), allow_eq_ok_iff, Nat.max_le] at h
    rw [← h.2]
    exact h.1.2
  | subst h =>
    rw [subst_eq_allow, allow_eq_ok_iff, Nat.max_le] at h
    rw [← h.2]
    exact h.1.2
  | contract h =>
    rw [contract_eq_allow, allow_eq_ok_iff, Nat.max_le] at h
    rw [← h.2]
    exact h.1.2
  | step h => exact depth_le_of_step h
  | trace h => exact (reduces_reduce limit _ t).depth_le_of_mem_trace h
  | outcome h => exact (reduces_reduce limit _ t).depth_le_of_outcome h

end

/-- Each change of a term has one outcome, whatever the limit. It comes about exactly under the
limits that have room for the terms that go in and for the outcome, and the others refuse it; a step
is refused where the contraction is. So nothing that comes out of a change is deeper than the limit,
and a reduction that ends is the same under every higher one. -/
theorem limit_decides_by_depth :
    (∀ (x y : Variable) (t : Term), ∃ u, ∀ limit,
      t.rename limit x y = if t.depth ≤ limit then .ok u else .error (.tooDeep limit)) ∧
    (∀ (t : Term) (x : Variable) (r : Term), ∃ u, ∀ limit,
      t.subst limit x r =
        if t.depth ≤ limit ∧ r.depth ≤ limit ∧ u.depth ≤ limit then .ok u
        else .error (.tooDeep limit)) ∧
    (∀ (t : Term) (x : Variable) (r : Term), ¬ t.Binds x → ∃ u, ∀ limit,
      t.replace limit x r =
        if t.depth ≤ limit ∧ r.depth ≤ limit ∧ u.depth ≤ limit then .ok u
        else .error (.tooDeep limit)) ∧
    (∀ t : Term, ∃ u next, ∀ limit,
      (t.contract limit =
        if t.depth ≤ limit ∧ u.depth ≤ limit then .ok u else .error (.tooDeep limit)) ∧
      (t.step limit =
        if t.depth ≤ limit ∧ u.depth ≤ limit then .ok next else .error (.tooDeep limit))) ∧
    (∀ (limit : Nat) (t u : Term), Yields limit t u → u.depth ≤ limit) ∧
    (∀ (limit limit' bound : Nat) (t : Term) (r : Reduction), limit ≤ limit' →
      (t.reduce limit bound).outcome = .ok r →
        t.reduce limit' bound = t.reduce limit bound) := by
  refine ⟨?_, ?_, ?_, ?_, ?_, ?_⟩
  · intro x y t
    exact ⟨t.renameWith x y [], fun limit => rfl⟩
  · intro t x r
    refine ⟨t.substituted x r, fun limit => ?_⟩
    rw [subst_eq_allow]
    simp only [allow, Nat.max_le, and_assoc]
  · intro t x r hx
    refine ⟨t.replaced x r, fun limit => ?_⟩
    rw [replace_eq_allow hx]
    simp only [allow, Nat.max_le, and_assoc]
  · intro t
    refine ⟨t.contracted, if t.HasRedex then some t.contracted else none, fun limit => ?_⟩
    rw [contract_eq_allow, step_eq_allow]
    simp only [allow, Nat.max_le, and_self]
  · intro limit t u h
    exact h.depth_le
  · intro limit limit' bound t r hle hr
    exact reduce_mono hle hr

end NamedLambda.Term
