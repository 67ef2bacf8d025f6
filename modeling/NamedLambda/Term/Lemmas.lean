import NamedLambda.Term.Basic

/-!
What the passes over lists of subterms find. The depth of a term is its height, and the variables
gathered are those at its leaves and binders.
-/
namespace NamedLambda.Term

theorem height_pos (t : Term) : 0 < t.height := by
  cases t <;> simp

/-- Each subterm on the list reaches down by its height from where it stands. -/
theorem deepest_add_one (found : Nat) (pending : List (Term × Nat)) :
    deepest found pending + 1 =
      pending.foldl (fun n p => max n (p.1.height + p.2)) (found + 1) := by
  fun_induction deepest found pending with
  | case1 => rfl
  | case2 found x d pending ih | case3 found c d pending ih =>
    rw [ih, List.foldl_cons]
    congr 1
    simp only [height_var, height_const]
    omega
  | case4 found x body d pending ih =>
    rw [ih, List.foldl_cons, List.foldl_cons]
    congr 1
    have := body.height_pos
    simp only [height_lam]
    omega
  | case5 found f a d pending ih =>
    rw [ih, List.foldl_cons, List.foldl_cons, List.foldl_cons]
    congr 1
    have := f.height_pos
    simp only [height_app]
    omega

theorem depth_eq_height (t : Term) : t.depth = t.height := by
  have h := deepest_add_one 0 [(t, 1)]
  have := t.height_pos
  simp only [List.foldl_cons, List.foldl_nil] at h
  rw [depth]
  omega

/-- The variable is at a leaf or at a binder. -/
def Mentions (x : Variable) : Term → Prop
  | .var y => x = y
  | .const _ => False
  | .lam y body => x = y ∨ body.Mentions x
  | .app f a => f.Mentions x ∨ a.Mentions x

theorem mem_gather {x : Variable} (found : List Variable) (pending : List Term) :
    x ∈ gather found pending ↔ x ∈ found ∨ ∃ t ∈ pending, t.Mentions x := by
  fun_induction gather found pending with
  | case1 => simp
  | case2 found y pending ih => simp [ih, Mentions, or_assoc, or_left_comm]
  | case3 found c pending ih => simp [ih, Mentions]
  | case4 found y body pending ih => simp [ih, Mentions, or_assoc, or_left_comm]
  | case5 found f a pending ih => simp [ih, Mentions, or_assoc, or_left_comm]

@[simp] theorem mem_mentioned {x : Variable} {t : Term} : x ∈ t.mentioned ↔ t.Mentions x := by
  simp [mentioned, mem_gather]

theorem mem_free_lam {x y : Variable} {t : Term} : x ∈ (lam y t).free ↔ x ∈ t.free ∧ x ≠ y := by
  simp [free]

theorem mem_foldr_insert {x : Variable} (xs ys : List Variable) :
    x ∈ xs.foldr List.insert ys ↔ x ∈ xs ∨ x ∈ ys := by
  induction xs with
  | nil => simp
  | cons y xs ih => simp [ih, or_assoc]

theorem mem_free_app {x : Variable} {f a : Term} :
    x ∈ (app f a).free ↔ x ∈ f.free ∨ x ∈ a.free := by
  rw [free, mem_foldr_insert, or_comm]

/-- A free variable is mentioned. -/
theorem mentions_of_mem_free {x : Variable} {t : Term} (h : x ∈ t.free) : t.Mentions x := by
  induction t with
  | var y => simpa [free, Mentions] using h
  | const c => simp [free] at h
  | lam y body ih => exact .inr (ih (mem_free_lam.mp h).1)
  | app f a ihf iha => exact (mem_free_app.mp h).imp ihf iha

end NamedLambda.Term
