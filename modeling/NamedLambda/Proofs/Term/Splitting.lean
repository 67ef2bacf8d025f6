import NamedLambda.Proofs.Except
import NamedLambda.Proofs.Term.Pass
import NamedLambda.Reduction

/-!
Runs cut in two. A reduction that has reached its bound can be gone on with from the term it ended
at, and nothing tells the two parts from one reduction with the sum of their bounds. What a run
traces leads from its first term to its last, one pass at a time.
-/
namespace NamedLambda

namespace Reduction

/-- The same end, so many passes further from the start. -/
def after (n : Nat) (r : Reduction) : Reduction :=
  { r with steps := r.steps + n }

/-- The same end, seen from the term that so many passes lead to. -/
def since (n : Nat) (r : Reduction) : Reduction :=
  { r with steps := r.steps - n }

theorem map_after_zero (outcome : Except TermError Reduction) :
    outcome.map (after 0) = outcome := by
  cases outcome <;> rfl

end Reduction

namespace Run

/-- A run that is gone on with from the term it ended at. One that failed stays as it is. -/
def resume (run : Run) (next : Term → Run) : Run :=
  match run.outcome with
  | .error _ => run
  | .ok r => ⟨run.trace ++ (next r.term).trace, (next r.term).outcome.map (Reduction.after r.steps)⟩

section
variable {run : Run} (next : Term → Run)

theorem resume_of_error {e : TermError} (h : run.outcome = .error e) : run.resume next = run := by
  rw [resume, h]

theorem resume_of_ok {r : Reduction} (h : run.outcome = .ok r) :
    run.resume next =
      ⟨run.trace ++ (next r.term).trace,
        (next r.term).outcome.map (Reduction.after r.steps)⟩ := by
  rw [resume, h]

theorem outcome_prepend (t : Term) (run : Run) :
    (run.prepend t).outcome = run.outcome.map Reduction.later := rfl

/-- What is left of a run after so many of its passes. -/
def drop (k : Nat) (run : Run) : Run :=
  ⟨run.trace.drop k, run.outcome.map (Reduction.since k)⟩

@[simp] theorem drop_zero (run : Run) : run.drop 0 = run := by
  obtain ⟨trace, outcome⟩ := run
  cases outcome <;> rfl

theorem drop_prepend (k : Nat) (t : Term) (run : Run) :
    (run.prepend t).drop (k + 1) = run.drop k := by
  rw [drop, drop, outcome_prepend]
  cases run.outcome <;> simp [prepend, Except.map, Reduction.since, Reduction.later]

theorem resume_prepend (t : Term) (run : Run) :
    (run.prepend t).resume next = (run.resume next).prepend t := by
  cases h : run.outcome with
  | error e =>
    have hprepend : (run.prepend t).outcome = .error e := by
      rw [outcome_prepend, h, Except.map]
    rw [resume_of_error next hprepend, resume_of_error next h]
  | ok r =>
    have hprepend : (run.prepend t).outcome = .ok r.later := by
      rw [outcome_prepend, h, Except.map]
    rw [resume_of_ok next hprepend, resume_of_ok next h]
    simp only [prepend, List.cons_append, Reduction.later]
    cases (next r.term).outcome <;> rfl

theorem exists_of_outcome_prepend {t : Term} {r : Reduction}
    (h : (run.prepend t).outcome = .ok r) : ∃ s, run.outcome = .ok s ∧ s.later = r := by
  rw [outcome_prepend] at h
  exact Except.map_eq_ok_iff.mp h

end

/-- The passes are numbered from one in order. -/
theorem numbered_eq_zip (run : Run) :
    run.numbered = (List.range' 1 run.trace.length).zip run.trace := by
  apply List.ext_getElem
  · simp [numbered]
  · intro i hi hi'
    simp [numbered, Nat.add_comm]

/-- The numbers of a later run go on where those of the earlier one end. -/
theorem numbered_append (run later : Run) (outcome : Except TermError Reduction) :
    (Run.mk (run.trace ++ later.trace) outcome).numbered =
      run.numbered ++ later.numbered.map fun p => (p.1 + run.trace.length, p.2) := by
  rw [numbered, numbered, numbered, List.zipIdx_append, List.map_append, List.map_map]
  congr 1
  rw [Nat.zero_add, List.zipIdx_eq_map_add, List.map_map]
  apply List.map_congr_left
  intro p _
  simp only [Function.comp_apply]
  congr 1
  omega

/-- What a run of a term that has ended within its bound tells of the way to its end. -/
structure Records (limit bound : Nat) (t : Term) (run : Run) (r : Reduction) : Prop where
  length_eq : run.trace.length = r.steps
  passes : (t :: run.trace).IsChain fun u v => u.step limit = .ok (some v)
  term_eq : r.term = run.trace.getLastD t
  steps_le : r.steps ≤ bound
  isNormal_iff : r.isNormal = true ↔ r.term.IsNormal
  isNormal_of_lt : r.steps < bound → r.isNormal = true

theorem Records.prepend {limit bound : Nat} {t u : Term} {run : Run} {r : Reduction}
    (h : Records limit bound u run r) (hstep : t.step limit = .ok (some u)) :
    Records limit (bound + 1) t (run.prepend u) r.later where
  length_eq := congrArg (· + 1) h.length_eq
  passes := .cons_cons hstep h.passes
  term_eq := h.term_eq.trans (List.getLastD_cons ..).symm
  steps_le := Nat.succ_le_succ h.steps_le
  isNormal_iff := h.isNormal_iff
  isNormal_of_lt hlt := h.isNormal_of_lt (Nat.lt_of_succ_lt_succ hlt)

end Run

namespace Term

/-- How the run of a term within so many passes comes about. -/
inductive Reduces (limit : Nat) : Nat → Term → Run → Prop where
  | refused {bound : Nat} {t : Term} {e : TermError} (h : t.step limit = .error e) :
      Reduces limit bound t ⟨[], .error e⟩
  | normal {bound : Nat} {t : Term} (h : t.step limit = .ok none) :
      Reduces limit bound t ⟨[], .ok ⟨t, 0, true⟩⟩
  | stopped {t u : Term} (h : t.step limit = .ok (some u)) :
      Reduces limit 0 t ⟨[], .ok ⟨t, 0, false⟩⟩
  | pass {bound : Nat} {t u : Term} {run : Run} (h : t.step limit = .ok (some u))
      (hrun : Reduces limit bound u run) : Reduces limit (bound + 1) t (run.prepend u)

section
variable {limit : Nat} {t : Term}

theorem reduce_of_step_error {e : TermError} (h : t.step limit = .error e) (bound : Nat) :
    t.reduce limit bound = ⟨[], .error e⟩ := by
  cases bound with
  | zero =>
    rw [reduce, h]
    rfl
  | succ bound => exact reduce_succ_of_error bound h

theorem reduce_of_step_none (h : t.step limit = .ok none) (bound : Nat) :
    t.reduce limit bound = ⟨[], .ok ⟨t, 0, true⟩⟩ := by
  cases bound with
  | zero =>
    rw [reduce, h]
    rfl
  | succ bound => exact reduce_succ_of_normal bound h

theorem reduce_zero_of_step {u : Term} (h : t.step limit = .ok (some u)) :
    t.reduce limit 0 = ⟨[], .ok ⟨t, 0, false⟩⟩ := by
  rw [reduce, h]
  rfl

theorem reduces_reduce (limit bound : Nat) (t : Term) :
    Reduces limit bound t (t.reduce limit bound) := by
  cases hstep : t.step limit with
  | error e =>
    rw [reduce_of_step_error hstep]
    exact .refused hstep
  | ok next =>
    cases next with
    | none =>
      rw [reduce_of_step_none hstep]
      exact .normal hstep
    | some u =>
      cases bound with
      | zero =>
        rw [reduce_zero_of_step hstep]
        exact .stopped hstep
      | succ bound =>
        rw [reduce_succ_of_step _ hstep]
        exact .pass hstep (reduces_reduce limit bound u)

theorem Reduces.eq_reduce {bound : Nat} {run : Run} (h : Reduces limit bound t run) :
    run = t.reduce limit bound := by
  induction h with
  | refused h => rw [reduce_of_step_error h]
  | normal h => rw [reduce_of_step_none h]
  | stopped h => rw [reduce_zero_of_step h]
  | pass h hrun ih => rw [reduce_succ_of_step _ h, ih]

theorem isNormal_of_step_none (h : t.step limit = .ok none) : t.IsNormal := by
  obtain ⟨-, hnext⟩ := step_eq_ok_iff.mp h
  intro hredex
  rw [if_pos hredex] at hnext
  cases hnext

theorem hasRedex_of_step_some {u : Term} (h : t.step limit = .ok (some u)) : t.HasRedex := by
  obtain ⟨-, hnext⟩ := step_eq_ok_iff.mp h
  by_contra hredex
  rw [if_neg hredex] at hnext
  cases hnext

end

section
variable {limit a bound : Nat} {t : Term} {run : Run}

theorem Reduces.reduce_add (h : Reduces limit a t run) (b : Nat) :
    t.reduce limit (a + b) = run.resume fun u => u.reduce limit b := by
  induction h with
  | refused h => rw [reduce_of_step_error h, Run.resume_of_error _ rfl]
  | normal h =>
    rw [reduce_of_step_none h, Run.resume_of_ok _ rfl, reduce_of_step_none h]
    rfl
  | stopped h =>
    rw [Nat.zero_add, Run.resume_of_ok _ rfl, List.nil_append, Reduction.map_after_zero]
  | pass h hrun ih =>
    rw [Nat.add_right_comm, reduce_succ_of_step _ h, ih, Run.resume_prepend]

/-- A term that a run comes by goes on as the run does. -/
theorem Reduces.reduce_of_getElem? (h : Reduces limit bound t run) {k : Nat} {u : Term}
    (hu : (t :: run.trace)[k]? = some u) : u.reduce limit (bound - k) = run.drop k := by
  induction k generalizing bound t run with
  | zero =>
    cases hu
    rw [Nat.sub_zero, Run.drop_zero, h.eq_reduce]
  | succ k ih =>
    rw [List.getElem?_cons_succ] at hu
    cases h with
    | refused h | normal h | stopped h => cases hu
    | pass h hrun => rw [Nat.add_sub_add_right, Run.drop_prepend, ih hrun hu]

/-- Every end that a run comes to is on record in its trace. -/
theorem Reduces.records (h : Reduces limit bound t run) {r : Reduction}
    (hr : run.outcome = .ok r) : run.Records limit bound t r := by
  induction h generalizing r with
  | refused h => cases hr
  | @normal bound t h =>
    cases hr
    exact ⟨rfl, .singleton t, rfl, Nat.zero_le bound,
      iff_of_true rfl (isNormal_of_step_none h), fun _ => rfl⟩
  | @stopped t u h =>
    cases hr
    exact ⟨rfl, .singleton t, rfl, Nat.le_refl 0,
      iff_of_false nofun (not_not.mpr (hasRedex_of_step_some h)), nofun⟩
  | @pass bound t u run h hrun ih =>
    obtain ⟨s, hs, rfl⟩ := Run.exists_of_outcome_prepend hr
    exact (ih hs).prepend h

end

/-- A run that fails does so under every higher bound as well. One that ends is continued by the run
of the term at its end, whose passes are numbered on from its own. Its trace leads from the term to
the end, each term being the single pass of the one before, and it falls short of the bound only
where the end is normal. -/
theorem reduce_splits (limit a b : Nat) (t : Term) :
    (∀ e, (t.reduce limit a).outcome = .error e →
      (t.reduce limit (a + b)).outcome = .error e ∧
        (t.reduce limit (a + b)).numbered = (t.reduce limit a).numbered) ∧
    ∀ r, (t.reduce limit a).outcome = .ok r →
      ((t.reduce limit (a + b)).outcome =
        (r.term.reduce limit b).outcome.map fun s => { s with steps := s.steps + r.steps }) ∧
      ((t.reduce limit (a + b)).numbered = (t.reduce limit a).numbered ++
        (r.term.reduce limit b).numbered.map fun p => (p.1 + r.steps, p.2)) ∧
      (t.reduce limit a).trace.length = r.steps ∧
      (t.reduce limit a).numbered = (List.range' 1 r.steps).zip (t.reduce limit a).trace ∧
      ((t :: (t.reduce limit a).trace).IsChain fun u v => u.step limit = .ok (some v)) ∧
      r.term = (t.reduce limit a).trace.getLastD t ∧
      r.steps ≤ a ∧ (r.isNormal = true ↔ r.term.IsNormal) ∧ (r.steps < a → r.isNormal = true) := by
  have hrun := reduces_reduce limit a t
  rw [hrun.reduce_add]
  constructor
  · intro e he
    rw [Run.resume_of_error _ he]
    exact ⟨he, rfl⟩
  · intro r hr
    have h := hrun.records hr
    have hnumbered := Run.numbered_eq_zip (t.reduce limit a)
    rw [h.length_eq] at hnumbered
    rw [Run.resume_of_ok _ hr, Run.numbered_append, h.length_eq]
    exact ⟨rfl, rfl, rfl, hnumbered, h.passes, h.term_eq, h.steps_le, h.isNormal_iff,
      h.isNormal_of_lt⟩

end Term
end NamedLambda
