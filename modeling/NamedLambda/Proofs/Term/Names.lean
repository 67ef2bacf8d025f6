import NamedLambda.Proofs.Parse.RoundTrip
import NamedLambda.Proofs.Term.Exactness

/-!
Where the names in a term come from. A change of a term brings in no names but those of the terms
that go into it, the new name that is asked for, and fresh ones, and the fresh ones are valid. A
pass brings in no free variable and no constant at all.
-/
namespace NamedLambda.Term

/-- The constant is at some leaf. -/
def Uses (c : Constant) : Term → Prop
  | .var _ => False
  | .const d => c = d
  | .lam _ body => body.Uses c
  | .app f a => f.Uses c ∨ a.Uses c

/-- All variables, those at binders as well, and all constants are of these kinds. -/
def Named (P : Variable → Prop) (Q : Constant → Prop) : Term → Prop
  | .var x => P x
  | .const c => Q c
  | .lam x body => P x ∧ body.Named P Q
  | .app f a => f.Named P Q ∧ a.Named P Q

section
variable {P : Variable → Prop} {Q : Constant → Prop}

theorem named_iff {t : Term} :
    t.Named P Q ↔ (∀ x, t.Mentions x → P x) ∧ ∀ c, t.Uses c → Q c := by
  induction t with
  | var x => simp [Named, Mentions, Uses]
  | const c => simp [Named, Mentions, Uses]
  | lam x body ih =>
    simp only [Named, Mentions, Uses, ih, or_imp, forall_and, forall_eq]
    tauto
  | app f a ihf iha =>
    simp only [Named, Mentions, Uses, ihf, iha, or_imp, forall_and]
    tauto

theorem printable_iff_named {t : Term} :
    t.Printable ↔ t.Named Variable.Valid fun c => c.Valid ∧ c.name ≠ "L" := by
  induction t with
  | var _ | const _ => rfl
  | lam x body ih => exact and_congr_right' ih
  | app f a ihf iha => exact and_congr ihf iha

namespace Named
variable {t r : Term} {x y : Variable}

theorem relabel (h : t.Named P Q) (hy : P y) : (t.relabel x y).Named P Q := by
  induction t with
  | var z =>
    rw [Term.relabel]
    split
    · exact hy
    · exact h
  | const c => exact h
  | lam z body ih =>
    refine ⟨?_, ih h.2⟩
    split
    · exact hy
    · exact h.1
  | app f a ihf iha => exact ⟨ihf h.1, iha h.2⟩

theorem replaced (h : t.Named P Q) (hr : r.Named P Q) : (t.replaced x r).Named P Q := by
  induction t with
  | var z =>
    rw [Term.replaced]
    split
    · exact hr
    · exact h
  | const c => exact h
  | lam z body ih => exact ⟨h.1, ih h.2⟩
  | app f a ihf iha => exact ⟨ihf h.1, iha h.2⟩

theorem freshenBinders (hfresh : ∀ z used, P (Variable.fresh z used)) (h : t.Named P Q)
    (avoid : List Variable) : (t.freshenBinders avoid).Named P Q := by
  fun_induction Term.freshenBinders avoid t with
  | case1 | case2 => exact h
  | case3 f a ihf iha => exact ⟨ihf h.1, iha h.2⟩
  | case4 z body hz w ih => exact ⟨hfresh z _, ih (h.2.relabel (hfresh z _))⟩
  | case5 z body hz ih => exact ⟨h.1, ih h.2⟩

theorem substituted (hfresh : ∀ z used, P (Variable.fresh z used)) (h : t.Named P Q)
    (hr : r.Named P Q) : (t.substituted x r).Named P Q :=
  (h.freshenBinders hfresh _).replaced hr

theorem contracted (hfresh : ∀ z used, P (Variable.fresh z used)) (h : t.Named P Q) :
    t.contracted.Named P Q := by
  fun_induction Term.contracted t with
  | case1 x body a => exact h.1.2.substituted hfresh h.2
  | case2 f a hf ihf iha => exact ⟨ihf h.1, iha h.2⟩
  | case3 x body ih => exact ⟨h.1, ih h.2⟩
  | case4 => exact h

end Named

theorem Printable.contracted {t : Term} (h : t.Printable) : t.contracted.Printable :=
  printable_iff_named.mpr ((printable_iff_named.mp h).contracted Variable.valid_fresh)

theorem Renames.named {x y : Variable} {reserved : List Variable} {t u : Term}
    (hrename : Renames x y reserved t u) (hfresh : ∀ z used, P (Variable.fresh z used)) (hy : P y)
    (h : t.Named P Q) : u.Named P Q := by
  induction hrename with
  | var z =>
    split
    · exact hy
    · exact h
  | const c => exact h
  | app hfunction hargument ihf iha => exact ⟨ihf hy h.1, iha hy h.2⟩
  | lam hx hz hbody ih => exact ⟨h.1, ih hy h.2⟩
  | clash hclash hw hinner houter ihinner ihouter =>
    -- the scope gets the binder's new name first, and then the one that is asked for
    have hfresh' := hw ▸ hfresh _ _
    exact ⟨hfresh', ihouter hy (ihinner hfresh' h.2)⟩

end

/-- What one pass keeps of a term, a run keeps to its end. -/
theorem Reduces.keeps {S : Term → Prop} (hS : ∀ u, S u → S u.contracted) {limit bound : Nat}
    {t : Term} {run : Run} (h : Reduces limit bound t run) (ht : S t) :
    (∀ u ∈ run.trace, S u) ∧ ∀ r, run.outcome = .ok r → S r.term := by
  induction h with
  | refused h => exact ⟨nofun, nofun⟩
  | normal h | stopped h =>
    refine ⟨nofun, fun r hr => ?_⟩
    cases hr
    exact ht
  | pass h hrun ih =>
    have hu := contracted_of_step h ▸ hS _ ht
    obtain ⟨htrace, hend⟩ := ih hu
    refine ⟨List.forall_mem_cons.mpr ⟨hu, htrace⟩, fun r hr => ?_⟩
    obtain ⟨s, hs, rfl⟩ := Run.exists_of_outcome_prepend hr
    exact hend s hs

/-- The second term comes of the first by passes, however many and under whatever limits, alone or
in reductions. -/
inductive Passed (t : Term) : Term → Prop where
  | self : Passed t t
  | contract {limit : Nat} {u v : Term} (h : Passed t u) (hv : u.contract limit = .ok v) :
      Passed t v
  | step {limit : Nat} {u v : Term} (h : Passed t u) (hv : u.step limit = .ok (some v)) :
      Passed t v
  | trace {limit bound : Nat} {u v : Term} (h : Passed t u)
      (hv : v ∈ (u.reduce limit bound).trace) : Passed t v
  | outcome {limit bound : Nat} {u : Term} {r : Reduction} (h : Passed t u)
      (hr : (u.reduce limit bound).outcome = .ok r) : Passed t r.term

theorem Passed.keeps {S : Term → Prop} (hS : ∀ u, S u → S u.contracted) {t u : Term}
    (h : Passed t u) (ht : S t) : S u := by
  induction h with
  | self => exact ht
  | contract _ hv ih => exact contracted_of_contract hv ▸ hS _ ih
  | step _ hv ih => exact contracted_of_step hv ▸ hS _ ih
  | trace _ hv ih => exact ((reduces_reduce _ _ _).keeps hS ih).1 _ hv
  | outcome _ hr ih => exact ((reduces_reduce _ _ _).keeps hS ih).2 _ hr

theorem mem_free_of_mem_free_contracted {x : Variable} {t : Term} (h : x ∈ t.contracted.free) :
    x ∈ t.free := by
  fun_induction contracted t with
  | case1 y body a =>
    rw [mem_free_substituted] at h
    rw [mem_free_app, mem_free_lam]
    exact h.imp_right And.right
  | case2 f a hf ihf iha => exact mem_free_app.mpr ((mem_free_app.mp h).imp ihf iha)
  | case3 y body ih =>
    obtain ⟨hx, hxy⟩ := mem_free_lam.mp h
    exact mem_free_lam.mpr ⟨ih hx, hxy⟩
  | case4 => exact h

/-- Any name may be fresh, so what is left to say of it concerns the constants. -/
theorem Passed.uses {c : Constant} {t u : Term} (h : Passed t u) (hc : u.Uses c) : t.Uses c := by
  have ht : t.Named (fun _ => True) t.Uses := named_iff.mpr ⟨fun _ _ => trivial, fun _ => id⟩
  have hu := h.keeps (fun v hv => Named.contracted (fun _ _ => trivial) hv) ht
  exact (named_iff.mp hu).2 c hc

theorem Passed.free_subset {t u : Term} (h : Passed t u) : u.free ⊆ t.free :=
  h.keeps (S := fun v => v.free ⊆ t.free)
    (fun _ hv _ hx => hv (mem_free_of_mem_free_contracted hx)) (List.Subset.refl _)

/-- Terms read from texts or put together from validated names, and whatever can be made of them. -/
inductive Built : Term → Prop where
  | parse {limit : Nat} {text : String} {t : Term} (h : Term.parse limit text = .ok t) : Built t
  | var {text : String} {x : Variable} (hx : Variable.ofText text = .ok x) : Built (.var x)
  | const {text : String} {c : Constant} (hc : Constant.ofText text = .ok c) : Built (.const c)
  | lam {text : String} {x : Variable} {t : Term} (hx : Variable.ofText text = .ok x)
      (ht : Built t) : Built (.lam x t)
  | app {f a : Term} (hf : Built f) (ha : Built a) : Built (.app f a)
  /-- The name that is taken away may be any, here and in substitutions. -/
  | rename {limit : Nat} {x y : Variable} {text : String} {t u : Term}
      (hy : Variable.ofText text = .ok y) (ht : Built t) (h : t.rename limit x y = .ok u) : Built u
  | replace {limit : Nat} {x : Variable} {t r u : Term} (ht : Built t) (hr : Built r)
      (h : t.replace limit x r = .ok u) : Built u
  | subst {limit : Nat} {x : Variable} {t r u : Term} (ht : Built t) (hr : Built r)
      (h : t.subst limit x r = .ok u) : Built u
  | passed {t u : Term} (ht : Built t) (h : Passed t u) : Built u

theorem Printable.named_valid {t : Term} (h : t.Printable) :
    t.Named Variable.Valid Constant.Valid := by
  obtain ⟨hvariables, hconstants⟩ := named_iff.mp (printable_iff_named.mp h)
  exact named_iff.mpr ⟨hvariables, fun c hc => (hconstants c hc).1⟩

theorem Built.named_valid {t : Term} (h : Built t) : t.Named Variable.Valid Constant.Valid := by
  have hfresh := Variable.valid_fresh
  induction h with
  | parse h => exact (printable_of_parse h).named_valid
  | var hx => exact (Variable.ofText_eq_ok_iff.mp hx).2
  | const hc => exact (Constant.ofText_eq_ok_iff.mp hc).2
  | lam hx _ ih => exact ⟨(Variable.ofText_eq_ok_iff.mp hx).2, ih⟩
  | app _ _ ihf iha => exact ⟨ihf, iha⟩
  | rename hy _ h ih =>
    rw [rename_eq_allow, allow_eq_ok_iff] at h
    rw [← h.2]
    exact (renames_renameWith _ _ _ _).named hfresh (Variable.ofText_eq_ok_iff.mp hy).2 ih
  | replace _ _ h iht ihr =>
    rw [replace_eq_allow (not_binds_of_replace h), allow_eq_ok_iff] at h
    rw [← h.2]
    exact iht.replaced ihr
  | subst _ _ h iht ihr =>
    rw [subst_eq_allow, allow_eq_ok_iff] at h
    rw [← h.2]
    exact iht.substituted hfresh ihr
  | passed _ h ih => exact h.keeps (fun _ hv => hv.contracted hfresh) ih

/-- However a term is built, its names are all valid, those of its binders too, of which nobody has
checked the fresh ones. And whatever passes make of a term, built or not, has no free variable and
no constant that the term does not have. -/
theorem names_stay_valid :
    (∀ t, Built t →
      (∀ x, t.Mentions x → Variable.ofText x.name = .ok x) ∧
        ∀ c, t.Uses c → Constant.ofText c.name = .ok c) ∧
    ∀ t u, Passed t u → u.free ⊆ t.free ∧ ∀ c, u.Uses c → t.Uses c := by
  constructor
  · intro t h
    obtain ⟨hvariables, hconstants⟩ := named_iff.mp h.named_valid
    constructor
    · intro x hx
      exact Variable.ofText_eq_ok_iff.mpr ⟨rfl, hvariables x hx⟩
    · intro c hc
      exact Constant.ofText_eq_ok_iff.mpr ⟨rfl, hconstants c hc⟩
  · intro t u h
    exact ⟨h.free_subset, fun c hc => h.uses hc⟩

/-- A binder is given the name `z`, which is nowhere in the term that is built. -/
theorem names_stay_valid_fresh_binder :
    let x : Variable := ⟨"x"⟩
    let y : Variable := ⟨"y"⟩
    let z : Variable := ⟨"z"⟩
    let c : Constant := ⟨"L"⟩
    let t : Term := .app (.lam x (.lam y (.app (.var x) (.app (.var y) (.const c))))) (.var y)
    let u : Term := .lam z (.app (.var y) (.app (.var z) (.const c)))
    Built t ∧ t.step 6 = .ok (some u) ∧
      ((∀ x, u.Mentions x → Variable.ofText x.name = .ok x) ∧
        ∀ c, u.Uses c → Constant.ofText c.name = .ok c) ∧
      u.free ⊆ t.free ∧ ∀ c, u.Uses c → t.Uses c := by
  intro x y z c t u
  have hx : Variable.ofText "x" = .ok x := by decide
  have hy : Variable.ofText "y" = .ok y := by decide
  have hc : Constant.ofText "L" = .ok c := by decide
  have ht : Built t :=
    .app (.lam hx (.lam hy (.app (.var hx) (.app (.var hy) (.const hc))))) (.var hy)
  have hstep : t.step 6 = .ok (some u) := by cbv
  have hpassed : Passed t u := .step .self hstep
  exact ⟨ht, hstep, names_stay_valid.1 u (.passed ht hpassed), names_stay_valid.2 t u hpassed⟩

end NamedLambda.Term
