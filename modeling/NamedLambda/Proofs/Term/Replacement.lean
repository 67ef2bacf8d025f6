import NamedLambda.Proofs.Term.Exactness

/-!
Replacement beside substitution. Replacement is refused where a binder has the name that is replaced
and changes nothing but leaves where none has. Where moreover no binder has a free name of what is
put in, substitution has nothing to rename, and the two are one.
-/
namespace NamedLambda.Term

section
variable {limit : Nat} {x : Variable} {t r : Term}

/-- Freshening leaves a term alone that has none of the names at a binder. -/
theorem freshenBinders_of_not_binds {avoid : List Variable} (h : ∀ z ∈ avoid, ¬ t.Binds z) :
    t.freshenBinders avoid = t := by
  induction t with
  | var y => exact freshenBinders_var avoid y
  | const c => exact freshenBinders_const avoid c
  | lam y body ih =>
    have hy : y ∉ avoid := fun hmem => h y hmem (Or.inl rfl)
    rw [freshenBinders_lam avoid hy, ih fun z hz hbinds => h z hz (Or.inr hbinds)]
  | app f a ihf iha =>
    rw [freshenBinders_app, ihf fun z hz hbinds => h z hz (Or.inl hbinds),
      iha fun z hz hbinds => h z hz (Or.inr hbinds)]

theorem substituted_of_not_binds (h : ∀ z ∈ x :: r.free, ¬ t.Binds z) :
    t.substituted x r = t.replaced x r := by
  unfold substituted
  rw [freshenBinders_of_not_binds h]

@[simp] theorem replaced_self (x : Variable) (t : Term) : t.replaced x (.var x) = t := by
  induction t with
  | var y =>
    unfold replaced
    split
    · next hyx => rw [hyx]
    · rfl
  | const c => rfl
  | lam y body ih => rw [replaced, ih]
  | app f a ihf iha => rw [replaced, ihf, iha]

/-- Replacement fails in two ways only. -/
theorem error_of_replaceAt {d : Nat} {e : TermError} (h : replaceAt limit x r t d = .error e) :
    e = .binderClash x ∨ e = .tooDeep limit := by
  induction t generalizing d with
  | var y =>
    unfold replaceAt at h
    split_ifs at h
    cases h
    exact Or.inr rfl
  | const c => cases h
  | lam y body ih =>
    unfold replaceAt at h
    split at h
    · next hyx =>
      cases h
      exact Or.inl (congrArg TermError.binderClash hyx)
    · exact ih (Except.map_eq_error_iff.mp h)
  | app f a ihf iha =>
    rcases Except.bind_eq_error_iff.mp h with hf | ⟨g, -, ha⟩
    · exact ihf hf
    · exact iha (Except.map_eq_error_iff.mp ha)

/-- With room for the term and for what becomes of its leaves, replacement comes as far as a binder
of the name, and is refused there. -/
theorem replaceAt_of_binds {n : Nat} (hx : t.Binds x) (ht : n + t.height ≤ limit)
    (hfit : n + (t.replaced x r).height ≤ limit) :
    replaceAt limit x r t (n + 1) = .error (.binderClash x) := by
  induction t generalizing n with
  | var _ | const _ => exact hx.elim
  | lam y body ih =>
    unfold replaceAt
    split
    · next hyx => rw [hyx]
    · next hyx =>
      have hbody : body.Binds x := hx.resolve_left (Ne.symm hyx)
      rw [height_lam] at ht
      rw [replaced, height_lam] at hfit
      rw [ih hbody (by omega) (by omega)]
      rfl
  | app f a ihf iha =>
    rw [height_app] at ht
    rw [replaced, height_app] at hfit
    unfold replaceAt
    by_cases hf : f.Binds x
    · rw [ihf hf (by omega) (by omega)]
      rfl
    · have ha : a.Binds x := hx.resolve_left hf
      rw [replaceAt_eq_allow r hf (by omega), allow_of_le (by omega),
        iha ha (by omega) (by omega)]
      rfl

theorem replace_of_binds (hx : t.Binds x) :
    t.replace limit x r = .error (.binderClash x) ∨
      t.replace limit x r = .error (.tooDeep limit) := by
  cases hreplace : t.replace limit x r with
  | ok u => exact absurd hx (not_binds_of_replace hreplace)
  | error e =>
    unfold replace at hreplace
    split at hreplace
    · rcases error_of_replaceAt hreplace with rfl | rfl
      · exact Or.inl rfl
      · exact Or.inr rfl
    · cases hreplace
      exact Or.inr rfl

theorem replace_eq_binderClash (hx : t.Binds x) (ht : t.depth ≤ limit) (hr : r.depth ≤ limit)
    (hfit : (t.replaced x r).depth ≤ limit) :
    t.replace limit x r = .error (.binderClash x) := by
  unfold replace
  rw [if_pos ⟨ht, hr⟩]
  rw [depth_eq_height] at ht hfit
  apply replaceAt_of_binds (n := 0) hx
  · omega
  · omega

theorem subst_eq_replace (h : ∀ z ∈ x :: r.free, ¬ t.Binds z) (limit : Nat) :
    t.subst limit x r = t.replace limit x r := by
  have hx : ¬ t.Binds x := h x List.mem_cons_self
  rw [subst_eq_allow, replace_eq_allow hx, substituted_of_not_binds h]

end

/-- Replacement under a limit that it does not run into, as it does not where there is room for the
two terms and for the outcome, is refused exactly if some binder has the name `x`, and otherwise
changes the leaves `x` into `r` and nothing else; with the leaf `x` itself for `r`, nothing at all.
If no binder has a free name of `r` either, then substitution is replacement, under every limit. -/
theorem replacement_is_substitution_where_safe (t : Term) (x : Variable) (r : Term) :
    (∀ limit, t.replace limit x r ≠ .error (.tooDeep limit) →
      (t.replace limit x r = .error (.binderClash x) ↔ t.Binds x) ∧
      (¬ t.Binds x → t.replace limit x r = .ok (t.replaced x r))) ∧
    (∀ limit, t.depth ≤ limit → r.depth ≤ limit → (t.replaced x r).depth ≤ limit →
      t.replace limit x r ≠ .error (.tooDeep limit)) ∧
    t.replaced x (.var x) = t ∧
    ((∀ z ∈ x :: r.free, ¬ t.Binds z) → ∀ limit, t.subst limit x r = t.replace limit x r) := by
  refine ⟨?_, ?_, replaced_self x t, subst_eq_replace⟩
  · intro limit hlimit
    by_cases hx : t.Binds x
    · have hclash := (replace_of_binds hx).resolve_right hlimit
      exact ⟨iff_of_true hclash hx, fun hnot => absurd hx hnot⟩
    · rw [replace_eq_allow hx] at hlimit ⊢
      have hfit := Nat.le_of_not_lt fun h => hlimit (allow_of_lt h _)
      rw [allow_of_le hfit]
      exact ⟨iff_of_false nofun hx, fun _ => rfl⟩
  · intro limit ht hr hfit
    by_cases hx : t.Binds x
    · rw [replace_eq_binderClash hx ht hr hfit]
      nofun
    · rw [replace_eq_allow hx, allow_of_le (Nat.max_le.mpr ⟨Nat.max_le.mpr ⟨ht, hr⟩, hfit⟩)]
      nofun

/-- No binder is in the way of `z x`, so both ways of putting it for `x` give one term. To put it
for the name of the binder is refused, though this name has no leaf outside the binder. -/
theorem replacement_is_substitution_where_safe_binder :
    let x : Variable := ⟨"x"⟩
    let y : Variable := ⟨"y"⟩
    let t : Term := .lam y (.app (.var x) (.var y))
    let r : Term := .app (.var ⟨"z"⟩) (.var x)
    ¬ t.Binds x ∧ t.Binds y ∧
      t.replace 4 x r = .ok (.lam y (.app r (.var y))) ∧
      t.subst 4 x r = .ok (.lam y (.app r (.var y))) ∧
      t.replace 4 y r = .error (.binderClash y) := by
  intro x y t r
  have hsafe : ∀ z ∈ x :: r.free, ¬ t.Binds z := by
    intro z hz
    have hzy : z ≠ y := by
      rintro rfl
      exact absurd hz (by decide)
    exact not_or.mpr ⟨hzy, not_or.mpr ⟨id, id⟩⟩
  have hx : ¬ t.Binds x := hsafe x List.mem_cons_self
  have hy : t.Binds y := Or.inl rfl
  have hdepth : t.depth = 3 ∧ r.depth = 2 ∧ (t.replaced x r).depth = 4 ∧
      (t.replaced y r).depth = 4 := by
    simp only [depth_eq_height]
    decide
  obtain ⟨hresult, hroom, -, hsame⟩ := replacement_is_substitution_where_safe t x r
  obtain ⟨hresult', hroom', -, -⟩ := replacement_is_substitution_where_safe t y r
  have hreplace := (hresult 4 (hroom 4 (by omega) (by omega) (by omega))).2 hx
  have hclash := (hresult' 4 (hroom' 4 (by omega) (by omega) (by omega))).1.mpr hy
  exact ⟨hx, hy, hreplace, (hsame hsafe 4).trans hreplace, hclash⟩

end NamedLambda.Term
