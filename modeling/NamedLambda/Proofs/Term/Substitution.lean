import NamedLambda.Proofs.Nameless.FreeNames
import NamedLambda.Proofs.Term.Freshening
import NamedLambda.Proofs.Term.Limit

/-!
Substitution within a limit is substitution without one, held against the limit at the end. On
nameless forms it puts a term for a free name or for a binder, and nothing is captured.
-/
namespace NamedLambda.Term

/-- Every leaf `x` is changed into `r`, whatever stands above it. -/
def replaced : Term → Variable → Term → Term
  | .var y, x, r => if y = x then r else .var y
  | .const c, _, _ => .const c
  | .lam y body, x, r => .lam y (body.replaced x r)
  | .app f a, x, r => .app (f.replaced x r) (a.replaced x r)

/-- The outcome of substitution without capture where no limit is in the way. -/
def substituted (t : Term) (x : Variable) (r : Term) : Term :=
  (t.freshenBinders (x :: r.free)).replaced x r

/-- Where no binder has the name, replacement fails only by the depth of what it makes. The term
fits below the `n` nodes above it, so no other leaf than those of `r` can be too deep. -/
theorem replaceAt_eq_allow {limit n : Nat} {x : Variable} (r : Term) {t : Term}
    (hx : ¬ t.Binds x) (ht : n + t.height ≤ limit) :
    replaceAt limit x r t (n + 1) = allow limit (n + (t.replaced x r).height) (t.replaced x r) := by
  induction t generalizing n with
  | var y =>
    by_cases hyx : y = x
    · simp only [replaceAt, replaced, hyx, if_true, depth_eq_height, Nat.add_sub_cancel]
      rfl
    · simp only [replaceAt, replaced, hyx, if_false]
      rw [allow_of_le ht]
  | const c =>
    rw [replaceAt, replaced, allow_of_le ht]
  | lam y t ih =>
    obtain ⟨hxy, hx⟩ := not_or.mp hx
    have hyx : y ≠ x := Ne.symm hxy
    rw [height_lam] at ht
    rw [replaceAt, if_neg hyx, ih hx (by omega), allow_map, replaced, height_lam,
      Nat.add_right_comm, Nat.add_assoc]
  | app f a ihf iha =>
    obtain ⟨hf, ha⟩ := not_or.mp hx
    rw [height_app] at ht
    rw [replaceAt, ihf hf (by omega), iha ha (by omega), allow_bind_allow, replaced, height_app]
    congr 1
    omega

theorem substAt_eq_allow {limit n : Nat} {x : Variable} {r t : Term} (hr : r.height ≤ limit)
    (ht : n + t.height ≤ limit) :
    t.substAt limit x r (n + 1) =
      allow limit (n + (t.substituted x r).height) (t.substituted x r) := by
  rw [substAt, depth_eq_height, if_pos hr]
  apply replaceAt_eq_allow
  · exact not_binds_freshenBinders List.mem_cons_self t
  · rwa [height_freshenBinders]

/-- The two terms and the outcome have to fit the limit, and nothing else has to. -/
theorem subst_eq_allow (limit : Nat) (t : Term) (x : Variable) (r : Term) :
    t.subst limit x r =
      allow limit (max (max t.depth r.depth) (t.substituted x r).depth) (t.substituted x r) := by
  by_cases ht : t.depth ≤ limit
  · by_cases hr : r.depth ≤ limit
    · have h : t.substAt limit x r 1 = _ :=
        substAt_eq_allow (n := 0) (by rwa [← depth_eq_height])
          (by rwa [Nat.zero_add, ← depth_eq_height])
      rw [subst, if_pos ht, h, Nat.zero_add, ← depth_eq_height,
        allow_max_of_le (Nat.max_le.mpr ⟨ht, hr⟩)]
    · rw [subst, if_pos ht, substAt, if_neg hr, allow_of_lt (by omega)]
  · rw [subst, if_neg ht, allow_of_lt (by omega)]

/-- With no binder in the way, what is put for a name is put for it in the nameless form. -/
theorem namelessUnder_replaced {x : Variable} {r t : Term} (ht : ∀ z ∈ x :: r.free, ¬ t.Binds z)
    {scope : List Variable} (hx : x ∉ scope) :
    (t.replaced x r).namelessUnder scope =
      Nameless.substFree x (r.namelessUnder scope) (t.namelessUnder scope) := by
  induction t generalizing scope with
  | var y =>
    by_cases hyx : y = x
    · subst hyx
      rw [replaced, if_pos rfl, namelessUnder_var, resolve_of_notMem hx, Nameless.substFree,
        if_pos rfl]
    · rw [replaced, if_neg hyx, namelessUnder_var, Nameless.substFree_of_not_hasFree]
      exact fun h => hyx ((hasFree_resolve scope).mp h).1.symm
  | const c => rfl
  | lam y t ih =>
    have hy : ∀ z ∈ x :: r.free, z ≠ y := fun z hz hzy => ht z hz (Or.inl hzy)
    have hxy : x ∉ y :: scope := fun h =>
      (List.mem_cons.mp h).elim (hy x List.mem_cons_self) hx
    rw [replaced, namelessUnder_lam, ih (fun z hz => not_or.mp (ht z hz) |>.2) hxy,
      namelessUnder_cons fun h => hy y (List.mem_cons_of_mem x h) rfl]
    rfl
  | app f a ihf iha =>
    rw [replaced, namelessUnder_app, ihf (fun z hz => not_or.mp (ht z hz) |>.1) hx,
      iha (fun z hz => not_or.mp (ht z hz) |>.2) hx]
    rfl

/-- With no binder in the way, what is put for the name of a binder that is taken away is put for
that binder in the nameless form. -/
theorem namelessUnder_replaced_binder {x : Variable} {r t : Term}
    (ht : ∀ z ∈ x :: r.free, ¬ t.Binds z) {inner : List Variable} (hx : x ∉ inner)
    (outer : List Variable) :
    (t.replaced x r).namelessUnder (inner ++ outer) =
      Nameless.instantiate inner.length (r.namelessUnder (inner ++ outer))
        (t.namelessUnder (inner ++ x :: outer)) := by
  induction t generalizing inner with
  | var y =>
    by_cases hyx : y = x
    · subst hyx
      rw [replaced, if_pos rfl, namelessUnder_var, resolve_append_self hx,
        Nameless.instantiate_bound_self]
    · rw [replaced, if_neg hyx, namelessUnder_var, namelessUnder_var,
        resolve_append fun h => absurd h hyx, Nameless.instantiate_lift]
  | const c => rfl
  | lam y t ih =>
    have hy : ∀ z ∈ x :: r.free, z ≠ y := fun z hz hzy => ht z hz (Or.inl hzy)
    have hxy : x ∉ y :: inner := fun h =>
      (List.mem_cons.mp h).elim (hy x List.mem_cons_self) hx
    have hbody := ih (fun z hz => not_or.mp (ht z hz) |>.2) hxy
    rw [List.cons_append, namelessUnder_cons fun h => hy y (List.mem_cons_of_mem x h) rfl] at hbody
    rw [replaced, namelessUnder_lam, hbody, namelessUnder_lam, Nameless.instantiate_lam]
    rfl
  | app f a ihf iha =>
    rw [replaced, namelessUnder_app, ihf (fun z hz => not_or.mp (ht z hz) |>.1) hx,
      iha (fun z hz => not_or.mp (ht z hz) |>.2) hx]
    rfl

theorem nameless_substituted (t : Term) (x : Variable) (r : Term) :
    (t.substituted x r).nameless = Nameless.substFree x r.nameless t.nameless := by
  rw [nameless, substituted,
    namelessUnder_replaced (fun z hz => not_binds_freshenBinders hz t) List.not_mem_nil,
    namelessUnder_freshenBinders]
  rfl

/-- Substitution for the name of a binder contracts the redex that the binder is part of. -/
theorem namelessUnder_substituted (t : Term) (x : Variable) (r : Term) (scope : List Variable) :
    (t.substituted x r).namelessUnder scope =
      Nameless.beta (t.namelessUnder (x :: scope)) (r.namelessUnder scope) := by
  have ht : ∀ z ∈ x :: r.free, ¬ (t.freshenBinders (x :: r.free)).Binds z :=
    fun z hz => not_binds_freshenBinders hz t
  have h := namelessUnder_replaced_binder ht (List.not_mem_nil (a := x)) scope
  rwa [List.nil_append, List.nil_append, namelessUnder_freshenBinders] at h

theorem mem_free_substituted (t : Term) (x : Variable) (r : Term) (y : Variable) :
    y ∈ (t.substituted x r).free ↔ y ∈ t.free ∧ y ≠ x ∨ x ∈ t.free ∧ y ∈ r.free := by
  rw [← hasFree_nameless, nameless_substituted, Nameless.hasFree_substFree, hasFree_nameless,
    hasFree_nameless, hasFree_nameless]

theorem substituted_alphaEquiv {t : Term} {x : Variable} (h : x ∉ t.free) (r : Term) :
    (t.substituted x r).AlphaEquiv t := by
  rw [AlphaEquiv, nameless_substituted, Nameless.substFree_of_not_hasFree]
  exact mt hasFree_nameless.mp h

/-- Substitution never meets a binder in its way: it gives the term with `r` for each free
occurrence of `x` and no name of `r` captured, or says that one of the three terms is too deep. -/
theorem subst_avoids_capture (t : Term) (x : Variable) (r : Term) :
    ∃ u, u.nameless = Nameless.substFree x r.nameless t.nameless ∧
      (x ∉ t.free → u.AlphaEquiv t) ∧
      (∀ y, y ∈ u.free ↔ y ∈ t.free ∧ y ≠ x ∨ x ∈ t.free ∧ y ∈ r.free) ∧
      ∀ limit, t.subst limit x r =
        if t.depth ≤ limit ∧ r.depth ≤ limit ∧ u.depth ≤ limit then .ok u
        else .error (.tooDeep limit) := by
  refine ⟨t.substituted x r, nameless_substituted t x r, fun h => substituted_alphaEquiv h r,
    mem_free_substituted t x r, fun limit => ?_⟩
  rw [subst_eq_allow]
  simp only [allow, Nat.max_le, and_assoc]

end NamedLambda.Term
