import NamedLambda.Proofs.Nameless.Algebra
import NamedLambda.Term.Lemmas
import NamedLambda.Term.Rename

/-!
Nameless forms under binders. Only what the free names of a term resolve to has a part in its form,
so a binder that no name refers to can be put in, and one name can take the place of another.
-/
namespace NamedLambda

namespace Term

@[simp] theorem namelessUnder_const (scope : List Variable) (c : Constant) :
    (const c).namelessUnder scope = .const c := rfl

@[simp] theorem namelessUnder_lam (scope : List Variable) (x : Variable) (t : Term) :
    (lam x t).namelessUnder scope = .lam (t.namelessUnder (x :: scope)) := rfl

@[simp] theorem namelessUnder_app (scope : List Variable) (f a : Term) :
    (app f a).namelessUnder scope = .app (f.namelessUnder scope) (a.namelessUnder scope) := rfl

theorem namelessUnder_var (scope : List Variable) (x : Variable) :
    (var x).namelessUnder scope = resolve scope x := rfl

@[simp] theorem resolve_cons_self (x : Variable) (scope : List Variable) :
    resolve (x :: scope) x = .bound 0 := by
  simp [resolve, List.idxOf?_cons]

/-- A binder of another name is passed over. -/
theorem resolve_cons_of_ne {x y : Variable} (h : x ≠ y) (scope : List Variable) :
    resolve (y :: scope) x = (resolve scope x).lift 0 := by
  have hyx : (y == x) = false := by simpa using h.symm
  simp only [resolve, List.idxOf?_cons, hyx]
  cases scope.idxOf? x <;> rfl

theorem resolve_of_notMem {x : Variable} {scope : List Variable} (h : x ∉ scope) :
    resolve scope x = .free x := by
  rw [resolve, List.idxOf?_eq_none_iff.mpr h]

theorem exists_resolve_eq_bound {x : Variable} {scope : List Variable} (h : x ∈ scope) :
    ∃ i, resolve scope x = .bound i := by
  cases hi : scope.idxOf? x with
  | none => exact absurd h (List.idxOf?_eq_none_iff.mp hi)
  | some i => exact ⟨i, by rw [resolve, hi]⟩

/-- An occurrence is bound, or free under its own name. -/
theorem resolve_eq (scope : List Variable) (x : Variable) :
    (∃ i, resolve scope x = .bound i) ∨ resolve scope x = .free x := by
  by_cases h : x ∈ scope
  · exact .inl (exists_resolve_eq_bound h)
  · exact .inr (resolve_of_notMem h)

/-- Only abstractions have the form of one. -/
theorem exists_lam_of_namelessUnder {t : Term} {scope : List Variable} {b : Nameless}
    (h : t.namelessUnder scope = .lam b) : ∃ x body, t = lam x body := by
  cases t with
  | lam x body => exact ⟨x, body, rfl⟩
  | var x =>
    rw [namelessUnder_var] at h
    rcases resolve_eq scope x with ⟨i, hi⟩ | hx
    · rw [hi] at h
      cases h
    · rw [hx] at h
      cases h
  | const _ | app _ _ => cases h

theorem namelessUnder_ne_lam {t : Term} (h : ∀ x body, t ≠ lam x body) (scope : List Variable)
    (b : Nameless) : t.namelessUnder scope ≠ .lam b := by
  intro hb
  obtain ⟨x, body, ht⟩ := exists_lam_of_namelessUnder hb
  exact h x body ht

/-- The place at which the scope has the name, where it does not have it further in. -/
theorem resolve_append_self {x : Variable} {inner : List Variable} (h : x ∉ inner)
    (outer : List Variable) : resolve (inner ++ x :: outer) x = .bound inner.length := by
  induction inner with
  | nil => simp
  | cons y inner ih =>
    obtain ⟨hxy, hinner⟩ := not_or.mp (mt List.mem_cons.mpr h)
    rw [List.cons_append, resolve_cons_of_ne hxy, ih hinner, Nameless.lift_bound_of_le _
      (Nat.zero_le _), List.length_cons]

/-- A further binder in the scope moves those outside it, and hides no name it does not have. -/
theorem resolve_append {x z : Variable} {inner : List Variable} (h : x = z → x ∈ inner)
    (outer : List Variable) :
    resolve (inner ++ z :: outer) x = (resolve (inner ++ outer) x).lift inner.length := by
  induction inner with
  | nil => exact resolve_cons_of_ne (fun hxz => List.not_mem_nil (h hxz)) outer
  | cons y inner ih =>
    by_cases hxy : x = y
    · simp [hxy, Nameless.lift_bound_of_lt]
    · rw [List.cons_append, List.cons_append, resolve_cons_of_ne hxy, resolve_cons_of_ne hxy,
        ih (fun hxz => (List.mem_cons.mp (h hxz)).resolve_left hxy), List.length_cons,
        Nameless.lift_lift _ (Nat.zero_le _)]

/-- A further binder is made room for where no free name of the term refers to it. -/
theorem namelessUnder_append {t : Term} {z : Variable} {inner : List Variable}
    (h : z ∈ t.free → z ∈ inner) (outer : List Variable) :
    t.namelessUnder (inner ++ z :: outer) =
      (t.namelessUnder (inner ++ outer)).lift inner.length := by
  induction t generalizing inner with
  | var x => exact resolve_append (fun hxz => hxz ▸ h (by simp [free, hxz])) outer
  | const c => rfl
  | lam y t ih =>
    have hy : z ∈ t.free → z ∈ y :: inner := fun hz => by
      by_cases hzy : z = y
      · exact hzy ▸ List.mem_cons_self
      · exact List.mem_cons_of_mem y (h (mem_free_lam.mpr ⟨hz, hzy⟩))
    rw [namelessUnder_lam, namelessUnder_lam, ← List.cons_append, ih hy]
    rfl
  | app f a ihf iha =>
    rw [namelessUnder_app, namelessUnder_app, ihf fun hz => h (mem_free_app.mpr (.inl hz)),
      iha fun hz => h (mem_free_app.mpr (.inr hz)), Nameless.lift_app]

theorem namelessUnder_cons {t : Term} {z : Variable} (h : z ∉ t.free) (scope : List Variable) :
    t.namelessUnder (z :: scope) = (t.namelessUnder scope).lift 0 := by
  have hinner : z ∈ t.free → z ∈ [] := fun hz => absurd hz h
  exact namelessUnder_append hinner scope

/-- A name that is nowhere in a term can take the place of another one, in the term and in the
scope. -/
theorem namelessUnder_relabel {x y : Variable} {t : Term} (hy : ¬ t.Mentions y)
    {s s' : List Variable}
    (h : ∀ z, z ≠ y → resolve s' (if z = x then y else z) = resolve s z) :
    (t.relabel x y).namelessUnder s' = t.namelessUnder s := by
  induction t generalizing s s' with
  | var z => exact h z fun hzy => hy hzy.symm
  | const c => rfl
  | lam z t ih =>
    obtain ⟨hzy, ht⟩ : z ≠ y ∧ ¬ t.Mentions y := by simpa [Mentions, eq_comm] using hy
    rw [relabel, namelessUnder_lam, namelessUnder_lam, ih ht]
    -- Away from `y` the exchange of names is injective, so a binder hides the same names as before.
    intro w hw
    by_cases hwz : w = z
    · simp [hwz]
    · have hne : (if w = x then y else w) ≠ if z = x then y else z := by
        split_ifs with hwx hzx <;> grind
      rw [resolve_cons_of_ne hne, resolve_cons_of_ne hwz, h w hw]
  | app f a ihf iha =>
    obtain ⟨hf, ha⟩ : ¬ f.Mentions y ∧ ¬ a.Mentions y := by simpa [Mentions] using hy
    rw [relabel, namelessUnder_app, namelessUnder_app, ihf hf h, iha ha h]

/-- Below a binder that takes its new name along, a term keeps its form. -/
theorem namelessUnder_relabel_binder {x y : Variable} {t : Term} (hy : ¬ t.Mentions y)
    (scope : List Variable) :
    (t.relabel x y).namelessUnder (y :: scope) = t.namelessUnder (x :: scope) := by
  apply namelessUnder_relabel hy
  intro z hzy
  by_cases hzx : z = x
  · simp [hzx]
  · rw [if_neg hzx, resolve_cons_of_ne hzy, resolve_cons_of_ne hzx]

end Term

end NamedLambda
