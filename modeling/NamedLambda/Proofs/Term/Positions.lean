import NamedLambda.Proofs.Term.Collisions

/-!
Leaves and binders by the way that leads to them from the root. A name is mentioned where some leaf
or binder has it, and free where a leaf has it and no binder of it is passed on the way. Trees of
one shape have their binders at the ends of the same ways.
-/
namespace NamedLambda.Term

def subtermAt? : Term → Path → Option Term
  | t, [] => some t
  | .lam _ body, .body :: p => body.subtermAt? p
  | .app f _, .function :: p => f.subtermAt? p
  | .app _ a, .argument :: p => a.subtermAt? p
  | _, _ :: _ => none

/-- A leaf `x` is at the end of the way. -/
def LeafAt (x : Variable) (t : Term) (p : Path) : Prop :=
  t.subtermAt? p = some (.var x)

/-- A binder of `x` is at the end of the way. -/
def BinderAt (x : Variable) (t : Term) (p : Path) : Prop :=
  ∃ body, t.subtermAt? p = some (.lam x body)

section
variable {x y : Variable} {c : Constant} {t f a : Term} {p : Path}

theorem leafAt_var_iff : (var y).LeafAt x p ↔ p = [] ∧ x = y := by
  cases p <;> simp [LeafAt, subtermAt?, eq_comm]

theorem not_leafAt_const : ¬ (const c).LeafAt x p := by
  cases p <;> simp [LeafAt, subtermAt?]

theorem leafAt_lam_iff : (lam y t).LeafAt x p ↔ ∃ q, p = .body :: q ∧ t.LeafAt x q := by
  rcases p with _ | ⟨_ | _ | _, p⟩ <;> simp [LeafAt, subtermAt?]

theorem exists_leafAt_lam : (∃ p, (lam y t).LeafAt x p) ↔ ∃ p, t.LeafAt x p := by
  simp only [leafAt_lam_iff]
  simp

theorem leafAt_app_iff : (app f a).LeafAt x p ↔
    (∃ q, p = .function :: q ∧ f.LeafAt x q) ∨ ∃ q, p = .argument :: q ∧ a.LeafAt x q := by
  rcases p with _ | ⟨_ | _ | _, p⟩ <;> simp [LeafAt, subtermAt?]

theorem exists_leafAt_app :
    (∃ p, (app f a).LeafAt x p) ↔ (∃ p, f.LeafAt x p) ∨ ∃ p, a.LeafAt x p := by
  simp only [leafAt_app_iff]
  simp [exists_or]

theorem not_binderAt_var : ¬ (var y).BinderAt x p := by
  cases p <;> simp [BinderAt, subtermAt?]

theorem not_binderAt_const : ¬ (const c).BinderAt x p := by
  cases p <;> simp [BinderAt, subtermAt?]

theorem binderAt_lam_iff : (lam y t).BinderAt x p ↔
    (p = [] ∧ x = y) ∨ ∃ q, p = .body :: q ∧ t.BinderAt x q := by
  rcases p with _ | ⟨_ | _ | _, p⟩ <;> simp [BinderAt, subtermAt?, eq_comm]

theorem exists_binderAt_lam :
    (∃ p, (lam y t).BinderAt x p) ↔ x = y ∨ ∃ p, t.BinderAt x p := by
  simp only [binderAt_lam_iff]
  simp [exists_or]

theorem binderAt_app_iff : (app f a).BinderAt x p ↔
    (∃ q, p = .function :: q ∧ f.BinderAt x q) ∨ ∃ q, p = .argument :: q ∧ a.BinderAt x q := by
  rcases p with _ | ⟨_ | _ | _, p⟩ <;> simp [BinderAt, subtermAt?]

theorem exists_binderAt_app :
    (∃ p, (app f a).BinderAt x p) ↔ (∃ p, f.BinderAt x p) ∨ ∃ p, a.BinderAt x p := by
  simp only [binderAt_app_iff]
  simp [exists_or]

end

/-- A name is mentioned where it is at some leaf or binder. -/
theorem mentions_iff {x : Variable} {t : Term} :
    t.Mentions x ↔ (∃ p, t.LeafAt x p) ∨ ∃ p, t.BinderAt x p := by
  induction t with
  | var y => simp [Mentions, leafAt_var_iff, not_binderAt_var]
  | const c => simp [Mentions, not_leafAt_const, not_binderAt_const]
  | lam y body ih =>
    simp only [Mentions, ih, exists_leafAt_lam, exists_binderAt_lam]
    exact or_left_comm
  | app f a ihf iha =>
    simp only [Mentions, ihf, iha, exists_leafAt_app, exists_binderAt_app]
    exact or_or_or_comm

theorem forall_prefix_cons {P : Path → Prop} {k : Turn} {p : Path} :
    (∀ q, q <+: k :: p → P q) ↔ P [] ∧ ∀ q, q <+: p → P (k :: q) := by
  constructor
  · intro h
    exact ⟨h [] List.nil_prefix, fun q hq => h (k :: q) (List.cons_prefix_cons.mpr ⟨rfl, hq⟩)⟩
  · rintro ⟨hnil, hcons⟩ q hq
    rcases List.prefix_cons_iff.mp hq with rfl | ⟨q', rfl, hq'⟩
    · exact hnil
    · exact hcons q' hq'

/-- The way to a free occurrence ends at a leaf and passes no binder of its name. -/
theorem freeAt_iff {x : Variable} {t : Term} {p : Path} :
    t.FreeAt x p ↔ t.LeafAt x p ∧ ∀ q, q <+: p → ¬ t.BinderAt x q := by
  induction t generalizing p with
  | var y => cases p <;> simp [FreeAt, leafAt_var_iff, not_binderAt_var]
  | const c => cases p <;> simp [FreeAt, not_leafAt_const]
  | lam y body ih =>
    rcases p with _ | ⟨_ | _ | _, p⟩
    case cons.body =>
      have hroot : ¬ (lam y body).BinderAt x [] ↔ x ≠ y := by simp [binderAt_lam_iff]
      rw [FreeAt, ih, forall_prefix_cons, hroot]
      exact and_left_comm
    all_goals simp [FreeAt, leafAt_lam_iff]
  | app f a ihf iha =>
    rcases p with _ | ⟨_ | _ | _, p⟩
    case cons.function =>
      simp [FreeAt, ihf, forall_prefix_cons, leafAt_app_iff, binderAt_app_iff]
    case cons.argument =>
      simp [FreeAt, iha, forall_prefix_cons, leafAt_app_iff, binderAt_app_iff]
    all_goals simp [FreeAt, leafAt_app_iff]

theorem mem_free_iff {x : Variable} {t : Term} : x ∈ t.free ↔ ∃ p, t.FreeAt x p := by
  induction t with
  | var y =>
    constructor
    · intro h
      exact ⟨[], List.mem_singleton.mp h⟩
    · rintro ⟨_ | ⟨k, p⟩, h⟩
      · exact List.mem_singleton.mpr h
      · exact h.elim
  | const c =>
    constructor
    · intro h
      cases h
    · rintro ⟨_ | ⟨k, p⟩, h⟩ <;> exact h.elim
  | lam y body ih =>
    rw [mem_free_lam, ih]
    constructor
    · rintro ⟨⟨p, h⟩, hxy⟩
      exact ⟨.body :: p, hxy, h⟩
    · rintro ⟨_ | ⟨_ | _ | _, p⟩, h⟩
      case cons.body => exact ⟨⟨p, h.2⟩, h.1⟩
      all_goals exact h.elim
  | app f a ihf iha =>
    rw [mem_free_app, ihf, iha]
    constructor
    · rintro (⟨p, h⟩ | ⟨p, h⟩)
      · exact ⟨.function :: p, h⟩
      · exact ⟨.argument :: p, h⟩
    · rintro ⟨_ | ⟨_ | _ | _, p⟩, h⟩
      case cons.function => exact .inl ⟨p, h⟩
      case cons.argument => exact .inr ⟨p, h⟩
      all_goals exact h.elim

/-- Where the one tree has a binder the other one has one that is so related. -/
theorem BindersRelated.exists_binderAt {R : Variable → Variable → Prop} {t u : Term}
    (h : BindersRelated R t u) {x : Variable} {p : Path} (hx : t.BinderAt x p) :
    ∃ y, u.BinderAt y p ∧ R x y := by
  induction h generalizing p with
  | var _ _ => exact absurd hx not_binderAt_var
  | const _ => exact absurd hx not_binderAt_const
  | lam hbinder hbody ih =>
    rcases binderAt_lam_iff.mp hx with ⟨rfl, rfl⟩ | ⟨q, rfl, hq⟩
    · exact ⟨_, binderAt_lam_iff.mpr (.inl ⟨rfl, rfl⟩), hbinder⟩
    · exact ih hq
  | app hfunction hargument ihf iha =>
    rcases binderAt_app_iff.mp hx with ⟨q, rfl, hq⟩ | ⟨q, rfl, hq⟩
    · exact ihf hq
    · exact iha hq

end NamedLambda.Term
