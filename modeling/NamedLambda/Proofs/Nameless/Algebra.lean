import Mathlib.Tactic.SplitIfs
import NamedLambda.Nameless.Basic

/-!
How making room for a binder and putting a term for one go together. The innermost binders come
first: an operation further out passes over one further in, with its place or its operand moved.
-/
namespace NamedLambda.Nameless

section
variable (d : Nat)

@[simp] theorem lift_free (x : Variable) : (free x).lift d = free x := rfl

@[simp] theorem lift_const (c : Constant) : (const c).lift d = const c := rfl

@[simp] theorem lift_lam (t : Nameless) : (lam t).lift d = lam (t.lift (d + 1)) := rfl

@[simp] theorem lift_app (f a : Nameless) : (app f a).lift d = app (f.lift d) (a.lift d) := rfl

theorem lift_bound_of_lt {i : Nat} (h : i < d) : (bound i).lift d = bound i := by
  simp [lift, h]

theorem lift_bound_of_le {i : Nat} (h : d ≤ i) : (bound i).lift d = bound (i + 1) := by
  simp [lift, Nat.not_lt.mpr h]

variable (r : Nameless)

@[simp] theorem instantiate_free (x : Variable) : instantiate d r (free x) = free x := rfl

@[simp] theorem instantiate_const (c : Constant) : instantiate d r (const c) = const c := rfl

@[simp] theorem instantiate_lam (t : Nameless) :
    instantiate d r (lam t) = lam (instantiate (d + 1) (r.lift 0) t) := rfl

@[simp] theorem instantiate_app (f a : Nameless) :
    instantiate d r (app f a) = app (instantiate d r f) (instantiate d r a) := rfl

@[simp] theorem instantiate_bound_self : instantiate d r (bound d) = r := by
  simp [instantiate]

theorem instantiate_bound_of_lt {i : Nat} (h : i < d) :
    instantiate d r (bound i) = bound i := by
  simp [instantiate, h]

theorem instantiate_bound_of_gt {i : Nat} (h : d < i) :
    instantiate d r (bound i) = bound (i - 1) := by
  rw [instantiate, if_neg (by omega), if_neg (by omega)]

end

/-- Room made further out stays one further out when room is made inside it. -/
theorem lift_lift (t : Nameless) {i d : Nat} (h : i ≤ d) :
    (t.lift d).lift i = (t.lift i).lift (d + 1) := by
  induction t generalizing i d with
  | bound j =>
    simp only [lift]
    congr 1
    split_ifs <;> omega
  | free x => rfl
  | const c => rfl
  | lam t ih => simp only [lift_lam, ih (Nat.succ_le_succ h)]
  | app f a ihf iha => simp only [lift_app, ihf h, iha h]

/-- What is put for the binder that room was just made for is not used. -/
@[simp] theorem instantiate_lift (d : Nat) (r t : Nameless) :
    instantiate d r (t.lift d) = t := by
  induction t generalizing d r with
  | bound j =>
    by_cases hj : j < d
    · rw [lift_bound_of_lt d hj, instantiate_bound_of_lt d r hj]
    · rw [lift_bound_of_le d (Nat.not_lt.mp hj), instantiate_bound_of_gt d r (by omega)]
      rfl
  | free x => rfl
  | const c => rfl
  | lam t ih => simp only [lift_lam, instantiate_lam, ih]
  | app f a ihf iha => simp only [lift_app, instantiate_app, ihf, iha]

/-- Room outside the binder that is put for. -/
theorem lift_instantiate (t r : Nameless) {i d : Nat} (h : i ≤ d) :
    (instantiate i r t).lift d = instantiate i (r.lift d) (t.lift (d + 1)) := by
  induction t generalizing r i d with
  | bound j =>
    rcases Nat.lt_trichotomy j i with hj | rfl | hj
    · rw [instantiate_bound_of_lt i r hj, lift_bound_of_lt d (by omega),
        lift_bound_of_lt (d + 1) (by omega), instantiate_bound_of_lt i _ hj]
    · rw [instantiate_bound_self, lift_bound_of_lt (d + 1) (by omega), instantiate_bound_self]
    · rw [instantiate_bound_of_gt i r hj]
      by_cases hd : j - 1 < d
      · rw [lift_bound_of_lt d hd, lift_bound_of_lt (d + 1) (by omega),
          instantiate_bound_of_gt i _ hj]
      · rw [lift_bound_of_le d (by omega), lift_bound_of_le (d + 1) (by omega),
          instantiate_bound_of_gt i _ (by omega)]
        congr 1
        omega
  | free x => rfl
  | const c => rfl
  | lam t ih =>
    simp only [instantiate_lam, lift_lam, ih (r.lift 0) (Nat.succ_le_succ h),
      lift_lift r (Nat.zero_le d)]
  | app f a ihf iha => simp only [instantiate_app, lift_app, ihf r h, iha r h]

/-- Room inside the binder that is put for. -/
theorem lift_instantiate_of_le (t r : Nameless) {i d : Nat} (h : d ≤ i) :
    (instantiate i r t).lift d = instantiate (i + 1) (r.lift d) (t.lift d) := by
  induction t generalizing r i d with
  | bound j =>
    rcases Nat.lt_trichotomy j i with hj | rfl | hj
    · rw [instantiate_bound_of_lt i r hj]
      by_cases hd : j < d
      · rw [lift_bound_of_lt d hd, instantiate_bound_of_lt (i + 1) _ (by omega)]
      · rw [lift_bound_of_le d (by omega), instantiate_bound_of_lt (i + 1) _ (by omega)]
    · rw [instantiate_bound_self, lift_bound_of_le d h, instantiate_bound_self]
    · rw [instantiate_bound_of_gt i r hj, lift_bound_of_le d (by omega),
        lift_bound_of_le d (by omega), instantiate_bound_of_gt (i + 1) _ (by omega)]
      congr 1
      omega
  | free x => rfl
  | const c => rfl
  | lam t ih =>
    simp only [instantiate_lam, lift_lam, ih (r.lift 0) (Nat.succ_le_succ h),
      lift_lift r (Nat.zero_le d)]
  | app f a ihf iha => simp only [instantiate_app, lift_app, ihf r h, iha r h]

/-- Two terms are put for two binders in either order, once the inner one has received the outer. -/
theorem instantiate_instantiate (t r s : Nameless) {i j : Nat} (h : i ≤ j) :
    instantiate j s (instantiate i r t) =
      instantiate i (instantiate j s r) (instantiate (j + 1) (s.lift i) t) := by
  induction t generalizing r s i j with
  | bound k =>
    rcases Nat.lt_trichotomy k i with hk | rfl | hk
    · rw [instantiate_bound_of_lt i r hk, instantiate_bound_of_lt j s (by omega),
        instantiate_bound_of_lt (j + 1) _ (by omega), instantiate_bound_of_lt i _ hk]
    · rw [instantiate_bound_self, instantiate_bound_of_lt (j + 1) _ (by omega),
        instantiate_bound_self]
    · rw [instantiate_bound_of_gt i r hk]
      rcases Nat.lt_trichotomy (k - 1) j with hj | hj | hj
      · rw [instantiate_bound_of_lt j s hj, instantiate_bound_of_lt (j + 1) _ (by omega),
          instantiate_bound_of_gt i _ hk]
      · obtain rfl : k = j + 1 := by omega
        rw [hj, instantiate_bound_self, instantiate_bound_self, instantiate_lift]
      · rw [instantiate_bound_of_gt j s hj, instantiate_bound_of_gt (j + 1) _ (by omega),
          instantiate_bound_of_gt i _ (by omega)]
  | free x => rfl
  | const c => rfl
  | lam t ih =>
    simp only [instantiate_lam, ih (r.lift 0) (s.lift 0) (Nat.succ_le_succ h),
      lift_lift s (Nat.zero_le i), lift_instantiate_of_le r s (Nat.zero_le j)]
  | app f a ihf iha => simp only [instantiate_app, ihf r s h, iha r s h]

/-- Making room passes into a contracted redex. -/
theorem lift_beta (b a : Nameless) (d : Nat) :
    (beta b a).lift d = beta (b.lift (d + 1)) (a.lift d) :=
  lift_instantiate b a (Nat.zero_le d)

/-- Putting a term for a binder passes into a contracted redex. -/
theorem instantiate_beta (b a r : Nameless) (d : Nat) :
    instantiate d r (beta b a) =
      beta (instantiate (d + 1) (r.lift 0) b) (instantiate d r a) :=
  instantiate_instantiate b a r (Nat.zero_le d)

end NamedLambda.Nameless
