import NamedLambda.Proofs.Term.Positions
import NamedLambda.Term.Lemmas

/-!
The loops over subterms still to be visited, round by round. A round takes one subterm off the list
and puts its children in its place, so a loop ends after as many rounds as the term has nodes. What
it has found by then is the height of the term, or the names at its leaves and binders.
-/
namespace NamedLambda

/-- A loop over items still to be visited: what is found once an item is visited, and the items that
come in its place. -/
structure Worklist (α σ : Type) where
  visit : σ → α → σ
  children : α → List α

namespace Worklist
variable {α σ : Type} (w : Worklist α σ)

/-- Visits the first item that is left; the loop has ended when there is none. -/
def round : σ × List α → Option (σ × List α)
  | (_, []) => none
  | (found, a :: pending) => some (w.visit found a, w.children a ++ pending)

/-- What so many rounds lead to, if the loop does not end before. -/
def rounds : Nat → σ × List α → Option (σ × List α)
  | 0, s => some s
  | n + 1, s => (w.round s).bind (rounds n)

@[simp] theorem rounds_zero (s : σ × List α) : w.rounds 0 s = some s := rfl

@[simp] theorem rounds_succ_cons (n : Nat) (found : σ) (a : α) (pending : List α) :
    w.rounds (n + 1) (found, a :: pending) =
      w.rounds n (w.visit found a, w.children a ++ pending) := rfl

/-- Each round takes one off the weight of what is left, and the loop ends where nothing weighs
anything. What no round changes is found at the end as it was at the start. -/
theorem rounds_weight (weight : List α → Nat) {result : σ → List α → σ}
    (hweight_nil : weight [] = 0)
    (hweight : ∀ a pending, weight (a :: pending) = weight (w.children a ++ pending) + 1)
    (hresult_nil : ∀ found, result found [] = found)
    (hresult : ∀ found a pending,
      result found (a :: pending) = result (w.visit found a) (w.children a ++ pending))
    (found : σ) (pending : List α) :
    w.rounds (weight pending) (found, pending) = some (result found pending, []) := by
  generalize hn : weight pending = n
  induction n generalizing found pending with
  | zero =>
    cases pending with
    | nil => rw [rounds_zero, hresult_nil]
    | cons a pending =>
      rw [hweight] at hn
      cases hn
  | succ n ih =>
    cases pending with
    | nil =>
      rw [hweight_nil] at hn
      cases hn
    | cons a pending =>
      rw [hweight] at hn
      rw [rounds_succ_cons, ih _ _ (Nat.succ.inj hn), hresult]

end Worklist

namespace Term

/-- The subterms right below the root, the last one first. -/
def children : Term → List Term
  | .var _ | .const _ => []
  | .lam _ body => [body]
  | .app f a => [a, f]

theorem sizes_append (ts us : List Term) : sizes (ts ++ us) = sizes ts + sizes us := by
  induction ts with
  | nil => simp
  | cons t ts ih =>
    rw [List.cons_append, sizes_cons, sizes_cons, ih, Nat.add_assoc]

theorem sizes_children (t : Term) : sizes t.children + 1 = t.size := by
  cases t with
  | var _ | const _ => rfl
  | lam x body => rfl
  | app f a => simp [children, Nat.add_comm]

/-- A subterm is one node more than its children. -/
theorem sizes_cons_children (t : Term) (pending : List Term) :
    sizes (t :: pending) = sizes (t.children ++ pending) + 1 := by
  rw [sizes_cons, sizes_append, ← sizes_children]
  omega

/-- The loop that looks for the greatest depth. -/
def depthLoop : Worklist (Term × Nat) Nat where
  visit found p := max found p.2
  children p := p.1.children.map (·, p.2 + 1)

/-- The loop that gathers the names of variables. -/
def nameLoop : Worklist Term (List Variable) where
  visit found t :=
    match t with
    | .var x | .lam x _ => found.insert x
    | .const _ | .app _ _ => found
  children := children

theorem rounds_depthLoop (found : Nat) (pending : List (Term × Nat)) :
    depthLoop.rounds (sizes (pending.map Prod.fst)) (found, pending) =
      some (deepest found pending, []) := by
  apply depthLoop.rounds_weight fun pending => sizes (pending.map Prod.fst)
  · rfl
  · rintro ⟨t, d⟩ pending
    have hchildren : (depthLoop.children (t, d)).map Prod.fst = t.children := by
      simp [depthLoop, Function.comp_def]
    rw [List.map_cons, List.map_append, hchildren]
    exact sizes_cons_children t (pending.map Prod.fst)
  · intro found
    rw [deepest]
  · rintro found ⟨t, d⟩ pending
    cases t <;> simp [depthLoop, children, deepest]

theorem rounds_nameLoop (found : List Variable) (pending : List Term) :
    nameLoop.rounds (sizes pending) (found, pending) = some (gather found pending, []) := by
  apply nameLoop.rounds_weight sizes
  · rfl
  · exact sizes_cons_children
  · intro found
    rw [gather]
  · intro found t pending
    cases t <;> simp [nameLoop, children, gather]

/-- Both loops end after as many rounds as there are nodes, the one with the height of the term and
the other with the names that are at some leaf or binder, and with these only. The free ones among
them are those that some leaf has without a binder of theirs on the way to it. -/
theorem traversals_find_structure (t : Term) :
    depthLoop.rounds t.size (0, [(t, 1)]) = some (t.depth, []) ∧
      t.depth = t.height ∧
      nameLoop.rounds t.size ([], [t]) = some (t.mentioned, []) ∧
      (∀ x, x ∈ t.mentioned ↔ (∃ p, t.LeafAt x p) ∨ ∃ p, t.BinderAt x p) ∧
      (∀ x, x ∈ t.free ↔ ∃ p, t.LeafAt x p ∧ ∀ q, q <+: p → ¬ t.BinderAt x q) ∧
      ∀ x ∈ t.free, x ∈ t.mentioned := by
  have hdepth := rounds_depthLoop 0 [(t, 1)]
  have hnames := rounds_nameLoop [] [t]
  refine ⟨hdepth, depth_eq_height t, hnames, ?_, ?_, ?_⟩
  · intro x
    rw [mem_mentioned, mentions_iff]
  · intro x
    rw [mem_free_iff]
    exact exists_congr fun p => freeAt_iff
  · intro x hx
    exact mem_mentioned.mpr (mentions_of_mem_free hx)

end Term

end NamedLambda
