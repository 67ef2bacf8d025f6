import NamedLambda.Term.Limit

/-!
Results that the limit allows or refuses as a whole. Parts that are each held against the limit make
a whole that is held against it once, at the greatest of their depths.
-/
namespace NamedLambda

/-- A result that reaches down to this depth, if the limit allows it. -/
def allow {α : Type} (limit depth : Nat) (result : α) : Except TermError α :=
  if depth ≤ limit then .ok result else .error (.tooDeep limit)

section
variable {α β γ : Type} {limit depth : Nat}

theorem allow_of_le (h : depth ≤ limit) (a : α) : allow limit depth a = .ok a :=
  if_pos h

theorem allow_of_lt (h : limit < depth) (a : α) : allow limit depth a = .error (.tooDeep limit) :=
  if_neg (Nat.not_le.mpr h)

theorem allow_eq_ok_iff {a b : α} : allow limit depth a = .ok b ↔ depth ≤ limit ∧ a = b := by
  unfold allow
  split
  · next h => simp [h]
  · next h => simp [h]

/-- A depth that fits adds nothing to the greatest one. -/
theorem allow_max_of_le {m : Nat} (h : m ≤ limit) (n : Nat) (a : α) :
    allow limit (max m n) a = allow limit n a := by
  simp only [allow, Nat.max_le, h, true_and]

theorem allow_map (f : α → β) (a : α) :
    (allow limit depth a).map f = allow limit depth (f a) := by
  unfold allow
  split <;> rfl

theorem allow_bind (f : α → β) (a : α) :
    (do return f (← allow limit depth a)) = allow limit depth (f a) :=
  allow_map f a

/-- Two parts, one after the other, are allowed if the deeper one is. -/
theorem allow_bind_allow (f : α → β → γ) (m n : Nat) (a : α) (b : β) :
    (do
      let a' ← allow limit m a
      let b' ← allow limit n b
      return f a' b') = allow limit (max m n) (f a b) := by
  by_cases hm : m ≤ limit <;> by_cases hn : n ≤ limit
  · rw [allow_of_le hm, allow_of_le hn, allow_of_le (Nat.max_le.mpr ⟨hm, hn⟩)]
    rfl
  all_goals
    have hmax : limit < max m n := by omega
    rw [allow_of_lt hmax]
    simp [allow, hm, hn, bind, Except.bind]

end

end NamedLambda
