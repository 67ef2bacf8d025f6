import NamedLambda.Proofs.Nameless.FreeNames
import NamedLambda.Proofs.Nameless.Outermost
import NamedLambda.Proofs.Term.Binders

/-!
What freshening changes. Binders with a name that is to be avoided get another one, all others keep
theirs, and the free occurrences stay as they are, each in its place.
-/
namespace NamedLambda.Term

/-- At the end of the way is a leaf `x`, and no binder of `x` is passed on it. -/
def FreeAt (x : Variable) : Term → Path → Prop
  | .var y, [] => x = y
  | .lam y body, .body :: p => x ≠ y ∧ body.FreeAt x p
  | .app f _, .function :: p => f.FreeAt x p
  | .app _ a, .argument :: p => a.FreeAt x p
  | _, _ => False

theorem resolve_eq_free_iff {scope : List Variable} {x y : Variable} :
    resolve scope y = .free x ↔ x = y ∧ x ∉ scope := by
  constructor
  · intro h
    have hfree : (resolve scope y).HasFree x := by
      rw [h]
      rfl
    exact (hasFree_resolve scope).mp hfree
  · rintro ⟨rfl, hx⟩
    exact resolve_of_notMem hx

/-- The free occurrences of a term are the places where its form has a free name, but for the names
of the scope. -/
theorem subtermAt?_namelessUnder {x : Variable} {t : Term} {scope : List Variable} {p : Path} :
    (t.namelessUnder scope).subtermAt? p = some (.free x) ↔ t.FreeAt x p ∧ x ∉ scope := by
  induction t generalizing scope p with
  | var y =>
    rw [namelessUnder_var]
    cases p with
    | nil =>
      simp only [Nameless.subtermAt?, Option.some.injEq, FreeAt]
      exact resolve_eq_free_iff
    | cons k p =>
      -- a way that leaves a leaf ends nowhere
      rcases resolve_eq scope y with ⟨i, hi⟩ | hy
      · simp [hi, Nameless.subtermAt?, FreeAt]
      · simp [hy, Nameless.subtermAt?, FreeAt]
  | const c => cases p <;> simp [Nameless.subtermAt?, FreeAt]
  | lam y body ih =>
    rcases p with _ | ⟨_ | _ | _, p⟩
    · simp [Nameless.subtermAt?, FreeAt]
    · simp only [namelessUnder_lam, Nameless.subtermAt?, FreeAt, ih, List.mem_cons]
      tauto
    · simp [Nameless.subtermAt?, FreeAt]
    · simp [Nameless.subtermAt?, FreeAt]
  | app f a ihf iha =>
    rcases p with _ | ⟨_ | _ | _, p⟩
    · simp [Nameless.subtermAt?, FreeAt]
    · simp [Nameless.subtermAt?, FreeAt]
    · exact ihf
    · exact iha

/-- Terms that differ in the names of binders only have the same free occurrences. -/
theorem AlphaEquiv.freeAt_iff {t u : Term} (h : AlphaEquiv t u) {x : Variable} {p : Path} :
    t.FreeAt x p ↔ u.FreeAt x p := by
  have hplace (v : Term) : v.nameless.subtermAt? p = some (.free x) ↔ v.FreeAt x p := by
    rw [nameless, subtermAt?_namelessUnder]
    simp
  rw [← hplace t, ← hplace u, h]

theorem bindersRelated_relabel (x y : Variable) (t : Term) :
    BindersRelated (fun z z' => z' = if z = x then y else z) t (t.relabel x y) := by
  induction t with
  | var z => exact .var _ _
  | const c => exact .const c
  | lam z body ih => exact .lam rfl ih
  | app f a ihf iha => exact .app ihf iha

/-- A binder that is to be avoided takes the inner ones of its name along, so none of those that are
kept is touched on the way. -/
theorem bindersRelated_freshenBinders (avoid : List Variable) (t : Term) :
    BindersRelated (fun z z' => (z ∉ avoid → z' = z) ∧ z' ∉ avoid) t (t.freshenBinders avoid) := by
  fun_induction freshenBinders avoid t with
  | case1 x => exact .var x x
  | case2 c => exact .const c
  | case3 f a ihf iha => exact .app ihf iha
  | case4 x body hx y ih =>
    have hy : y ∉ avoid := fun hmem =>
      Variable.fresh_not_mem x _ (List.mem_append_left _ hmem)
    refine .lam ⟨fun hnot => absurd hx hnot, hy⟩ ?_
    apply ((bindersRelated_relabel x y body).comp ih).mono
    rintro z z' - ⟨m, rfl, hkeep, hz'⟩
    refine ⟨fun hz => ?_, hz'⟩
    have hzx : z ≠ x := fun h => hz (h ▸ hx)
    rw [if_neg hzx] at hkeep
    exact hkeep hz
  | case5 x body hx ih => exact .lam ⟨fun _ => rfl, hx⟩ ih

theorem freshenBinders_alphaEquiv (avoid : List Variable) (t : Term) :
    AlphaEquiv (t.freshenBinders avoid) t :=
  namelessUnder_freshenBinders avoid t []

/-- Freshening keeps the tree and gives new names exactly to the binders that are to be avoided,
none of which is left. What is meant stays the same, and each free occurrence keeps its place and its
name. One such step is to take a name that is nowhere in an abstraction for its binder. -/
theorem freshening_keeps_meaning (avoid : List Variable) (t : Term) :
    BindersRelated (fun z z' => (z ∉ avoid → z' = z) ∧ z' ∉ avoid) t (t.freshenBinders avoid) ∧
      (∀ x ∈ avoid, ¬ (t.freshenBinders avoid).Binds x) ∧
      AlphaEquiv (t.freshenBinders avoid) t ∧
      (∀ x p, (t.freshenBinders avoid).FreeAt x p ↔ t.FreeAt x p) ∧
      ∀ x y body, ¬ (lam x body).Mentions y →
        AlphaEquiv (lam y (body.relabel x y)) (lam x body) := by
  have halpha := freshenBinders_alphaEquiv avoid t
  refine ⟨bindersRelated_freshenBinders avoid t, ?_, halpha, ?_, ?_⟩
  · intro x hx
    exact not_binds_freshenBinders hx t
  · intro x p
    exact halpha.freeAt_iff
  · intro x y body hy
    have hbody : ¬ body.Mentions y := fun h => hy (Or.inr h)
    unfold AlphaEquiv nameless
    rw [namelessUnder_lam, namelessUnder_relabel_binder hbody, namelessUnder_lam]

/-- A binder that is to be avoided is renamed together with one of its name inside of it. -/
theorem freshening_keeps_meaning_shadowed :
    let x : Variable := ⟨"x"⟩
    let y : Variable := ⟨"y"⟩
    let body : Term := .app (.var x) (.lam x (.var x))
    ¬ (lam x body).Mentions y ∧
      (lam x body).freshenBinders [x] = .lam y (.app (.var y) (.lam y (.var y))) ∧
      ¬ ((lam x body).freshenBinders [x]).Binds x ∧
      AlphaEquiv (lam y (body.relabel x y)) (lam x body) := by
  intro x y body
  have hmentioned : (lam x body).mentioned = [x] := by simp [mentioned, gather, body]
  have hfresh : x.fresh ([x] ++ (lam x body).mentioned) = y := by
    rw [hmentioned]
    decide
  have hy : ¬ (lam x body).Mentions y := by
    simp [Mentions, x, y, body]
  have hyx : y ∉ [x] := by decide
  obtain ⟨-, havoided, -, -, hrenamed⟩ := freshening_keeps_meaning [x] (lam x body)
  refine ⟨hy, ?_, havoided x List.mem_cons_self, hrenamed x y body hy⟩
  rw [freshenBinders_lam_of_mem [x] List.mem_cons_self, hfresh]
  change lam y ((app (var y) (lam y (var y))).freshenBinders [x]) = _
  rw [freshenBinders_app, freshenBinders_lam [x] hyx, freshenBinders_var]

end NamedLambda.Term
