import NamedLambda.Proofs.Term.Positions
import NamedLambda.Proofs.Term.Renaming

/-!
Renamings inside of renamings. For a binder with one of the two names a renaming of its own goes
through the scope first, and the one at work waits for it, as those further out do. The names of all
that wait are reserved, so none of them renames a binder again that was renamed meanwhile.
-/
namespace NamedLambda.Term

/-- A binder with neither of the two names keeps its own. -/
theorem binderAt_renameWith {x y z : Variable} {t : Term} {p : Path} (hx : z ≠ x) (hy : z ≠ y)
    (reserved : List Variable) (h : t.BinderAt z p) : (t.renameWith x y reserved).BinderAt z p := by
  have hrebinds := (renames_renameWith x y reserved t).rebinds
  obtain ⟨w, hw, ⟨rfl, -⟩ | ⟨hclash, -⟩⟩ := hrebinds.exists_binderAt h
  · exact hw
  · exact absurd hclash (not_or.mpr ⟨hx, hy⟩)

/-- What is asked of one renaming. -/
structure Renaming where
  old : Variable
  new : Variable
  reserved : List Variable
  term : Term

namespace Renaming

def outcome (r : Renaming) : Term :=
  r.term.renameWith r.old r.new r.reserved

theorem bindersRelated_outcome (r : Renaming) :
    BindersRelated (Rebinds r.old r.new r.reserved) r.term r.outcome :=
  (renames_renameWith r.old r.new r.reserved r.term).rebinds

/-- While the first renaming is at work the last one is begun, on the term that stands then at the
end of the way. The list has those that wait for it meanwhile, the innermost first, each as it was
when it met the binder to be renamed. -/
inductive Begins : Renaming → List Renaming → Path → Renaming → Prop where
  | self (r : Renaming) : Begins r [] [] r
  | function {x y : Variable} {reserved : List Variable} {f a : Term} {waiting : List Renaming}
      {p : Path} {r : Renaming} (h : Begins ⟨x, y, reserved, f⟩ waiting p r) :
      Begins ⟨x, y, reserved, .app f a⟩ waiting (.function :: p) r
  | argument {x y : Variable} {reserved : List Variable} {f a : Term} {waiting : List Renaming}
      {p : Path} {r : Renaming} (h : Begins ⟨x, y, reserved, a⟩ waiting p r) :
      Begins ⟨x, y, reserved, .app f a⟩ waiting (.argument :: p) r
  | body {x y z : Variable} {reserved : List Variable} {t : Term} {waiting : List Renaming}
      {p : Path} {r : Renaming} (hx : z ≠ x) (hy : z ≠ y)
      (h : Begins ⟨x, y, reserved, t⟩ waiting p r) :
      Begins ⟨x, y, reserved, .lam z t⟩ waiting (.body :: p) r
  -- a scope whose binder is to be renamed is gone through for the binder first, then once more
  | inner {x y z w : Variable} {reserved : List Variable} {t : Term} {waiting : List Renaming}
      {p : Path} {r : Renaming} (hclash : z = x ∨ z = y)
      (hfresh : w = z.fresh (x :: y :: reserved ++ (Term.lam z t).mentioned))
      (h : Begins ⟨z, w, x :: y :: reserved, t⟩ waiting p r) :
      Begins ⟨x, y, reserved, .lam z t⟩ (waiting ++ [⟨x, y, reserved, .lam z t⟩]) (.body :: p) r
  | outer {x y z w : Variable} {reserved : List Variable} {t : Term} {waiting : List Renaming}
      {p : Path} {r : Renaming} (hclash : z = x ∨ z = y)
      (hfresh : w = z.fresh (x :: y :: reserved ++ (Term.lam z t).mentioned))
      (h : Begins ⟨x, y, reserved, t.renameWith z w (x :: y :: reserved)⟩ waiting p r) :
      Begins ⟨x, y, reserved, .lam z t⟩ waiting (.body :: p) r

/-- Reserved are the names of the renamings that wait, and no others but those that were reserved at
the start. -/
theorem Begins.mem_reserved {r s : Renaming} {waiting : List Renaming} {p : Path}
    (h : r.Begins waiting p s) {z : Variable} :
    z ∈ s.reserved ↔ z ∈ r.reserved ∨ ∃ o ∈ waiting, z = o.old ∨ z = o.new := by
  induction h with
  | self r => simp
  | function h ih | argument h ih | body _ _ h ih | outer _ _ h ih => exact ih
  | @inner x y b w reserved t waiting p s hclash hfresh h ih =>
    have hnames : z ∈ x :: y :: reserved ↔ z ∈ reserved ∨ z = x ∨ z = y := by
      rw [List.mem_cons, List.mem_cons, ← or_assoc, or_comm]
    have hwaiting (r : Renaming) : (∃ o ∈ waiting ++ [r], z = o.old ∨ z = o.new) ↔
        (z = r.old ∨ z = r.new) ∨ ∃ o ∈ waiting, z = o.old ∨ z = o.new := by
      simp only [List.mem_append, List.mem_singleton, or_and_right, exists_or, exists_eq_left]
      exact or_comm
    rw [ih, hnames, hwaiting, or_assoc]

/-- A name that is not reserved stays at its binder while the renamings that wait go on. -/
theorem Begins.binderAt_outcome {r s : Renaming} {waiting : List Renaming} {p q : Path}
    (h : r.Begins waiting p s) {w : Variable} (hreserved : w ∉ s.reserved)
    (hw : s.outcome.BinderAt w q) : r.outcome.BinderAt w (p ++ q) := by
  -- where a renaming waits for the one that gave the name, it has reserved both of its own
  induction h with
  | self r => exact hw
  | function h ih =>
    unfold outcome
    rw [renameWith_app]
    exact ih hreserved hw
  | argument h ih =>
    unfold outcome
    rw [renameWith_app]
    exact ih hreserved hw
  | body hx hy h ih =>
    unfold outcome
    rw [renameWith_lam _ _ _ hx hy]
    exact ih hreserved hw
  | @inner x y z w' reserved t waiting p s hclash hfresh h ih =>
    have hxy : w ≠ x ∧ w ≠ y := by
      constructor
      · rintro rfl
        exact hreserved (h.mem_reserved.mpr (.inl List.mem_cons_self))
      · rintro rfl
        exact hreserved (h.mem_reserved.mpr (.inl (List.mem_cons_of_mem _ List.mem_cons_self)))
    unfold outcome
    rw [renameWith_lam_of_clash _ _ _ hclash, ← hfresh]
    exact binderAt_renameWith hxy.1 hxy.2 reserved (ih hreserved hw)
  | outer hclash hfresh h ih =>
    unfold outcome
    rw [renameWith_lam_of_clash _ _ _ hclash, ← hfresh]
    exact ih hreserved hw

/-- For every binder with one of the two names some renaming is begun that finds it at the root. -/
theorem exists_begins (x y : Variable) (reserved : List Variable) (t : Term) {z : Variable}
    {p : Path} (hz : t.BinderAt z p) (hclash : z = x ∨ z = y) :
    ∃ waiting s body, Begins ⟨x, y, reserved, t⟩ waiting p s ∧ s.term = .lam z body ∧
      (z = s.old ∨ z = s.new) := by
  match t with
  | .var v => exact absurd hz not_binderAt_var
  | .const c => exact absurd hz not_binderAt_const
  | .app f a =>
    rcases binderAt_app_iff.mp hz with ⟨q, rfl, hq⟩ | ⟨q, rfl, hq⟩
    · obtain ⟨waiting, s, body, h, hs⟩ := exists_begins x y reserved f hq hclash
      exact ⟨waiting, s, body, .function h, hs⟩
    · obtain ⟨waiting, s, body, h, hs⟩ := exists_begins x y reserved a hq hclash
      exact ⟨waiting, s, body, .argument h, hs⟩
  | .lam b t =>
    rcases binderAt_lam_iff.mp hz with ⟨rfl, rfl⟩ | ⟨q, rfl, hq⟩
    · exact ⟨[], _, t, .self _, rfl, hclash⟩
    by_cases hb : b = x ∨ b = y
    · obtain ⟨w, hw⟩ : ∃ w, w = b.fresh (x :: y :: reserved ++ (Term.lam b t).mentioned) := ⟨_, rfl⟩
      by_cases hzb : z = b
      · obtain ⟨waiting, s, body, h, hs⟩ :=
          exists_begins b w (x :: y :: reserved) t hq (.inl hzb)
        exact ⟨_, s, body, .inner hb hw h, hs⟩
      · -- the renaming that goes through the scope first leaves a binder of the other name
        have hzw : z ≠ w := by
          rintro rfl
          exact (fresh_spec hw).2.2.2 (mentions_iff.mpr (.inr ⟨q, hq⟩))
        obtain ⟨waiting, s, body, h, hs⟩ :=
          exists_begins x y reserved _ (binderAt_renameWith hzb hzw (x :: y :: reserved) hq) hclash
        exact ⟨waiting, s, body, .outer hb hw h, hs⟩
    · obtain ⟨hx, hy⟩ := not_or.mp hb
      obtain ⟨waiting, s, body, h, hs⟩ := exists_begins x y reserved t hq hclash
      exact ⟨waiting, s, body, .body hx hy h, hs⟩
termination_by t.size
decreasing_by
  all_goals
    simp only [size_app, size_lam, size_renameWith]
    omega

/-- Each binder keeps its name, which is neither of the two, or has one of them and gets one that is
neither and is not reserved, from a renaming begun for it. The names of all renamings that wait are
reserved, so a binder that is renamed meanwhile gets none of them, is passed by when they go on, and
is called so in the end. -/
theorem renamed_binders_stay (r : Renaming) :
    BindersRelated (Rebinds r.old r.new r.reserved) r.term r.outcome ∧
      (∀ p z, r.term.BinderAt z p → (z = r.old ∨ z = r.new) →
        ∃ waiting s body, r.Begins waiting p s ∧ s.term = .lam z body ∧ (z = s.old ∨ z = s.new)) ∧
      ∀ waiting p s, r.Begins waiting p s →
        (∀ z, z ∈ s.reserved ↔ z ∈ r.reserved ∨ ∃ o ∈ waiting, z = o.old ∨ z = o.new) ∧
        ∀ q z, s.term.BinderAt z q → (z = s.old ∨ z = s.new) →
          ∃ w, s.outcome.BinderAt w q ∧ w ∉ s.reserved ∧ w ≠ s.old ∧ w ≠ s.new ∧
            (∀ o ∈ waiting, w ≠ o.old ∧ w ≠ o.new ∧
              ∀ (t : Term) (k : Path), t.BinderAt w k →
                (t.renameWith o.old o.new o.reserved).BinderAt w k) ∧
            r.outcome.BinderAt w (p ++ q) := by
  refine ⟨r.bindersRelated_outcome, fun p z => exists_begins r.old r.new r.reserved r.term, ?_⟩
  intro waiting p s h
  refine ⟨fun z => h.mem_reserved, ?_⟩
  intro q z hz hclash
  obtain ⟨w, hw, hrebinds⟩ := s.bindersRelated_outcome.exists_binderAt hz
  rcases hrebinds with ⟨-, hold, hnew⟩ | ⟨-, hreserved, hold, hnew⟩
  · exact absurd hclash (not_or.mpr ⟨hold, hnew⟩)
  refine ⟨w, hw, hreserved, hold, hnew, fun o ho => ?_, h.binderAt_outcome hreserved hw⟩
  have hname {v : Variable} (hv : v = o.old ∨ v = o.new) : w ≠ v := by
    rintro rfl
    exact hreserved (h.mem_reserved.mpr (.inr ⟨o, ho, hv⟩))
  have hwold := hname (.inl rfl)
  have hwnew := hname (.inr rfl)
  exact ⟨hwold, hwnew, fun t k => binderAt_renameWith hwold hwnew o.reserved⟩

/-- The inner one of two binders `x` is renamed while the renaming of `x` to `y` waits at the outer
one. Were its names not reserved, the binder would be called `y` and be renamed once more. -/
theorem renamed_binders_stay_nested :
    let x : Variable := ⟨"x"⟩
    let y : Variable := ⟨"y"⟩
    let z : Variable := ⟨"z"⟩
    let a : Variable := ⟨"a"⟩
    let r : Renaming := ⟨x, y, [], .lam x (.lam x (.var x))⟩
    let s : Renaming := ⟨x, z, [x, y], .lam x (.var x)⟩
    r.Begins [r] [.body] s ∧ s.term.BinderAt x [] ∧
      x.fresh (x :: z :: s.term.mentioned) = y ∧
      s.outcome.BinderAt a [] ∧ a ≠ x ∧ a ≠ y ∧ r.outcome.BinderAt a [.body] := by
  intro x y z a r s
  have hmentioned : s.term.mentioned = [x] ∧ r.term.mentioned = [x] := by
    simp [mentioned, gather, s, r]
  have hz : z = x.fresh (x :: y :: [] ++ r.term.mentioned) := by
    rw [hmentioned.2]
    decide
  have ha : x.fresh (x :: z :: [x, y] ++ s.term.mentioned) = a := by
    rw [hmentioned.1]
    decide
  have hbegins : r.Begins [r] [.body] s := .inner (.inl rfl) hz (.self s)
  have hx : s.term.BinderAt x [] := binderAt_lam_iff.mpr (.inl ⟨rfl, rfl⟩)
  obtain ⟨w, hw, -, -, -, hwaiting, hend⟩ :=
    ((renamed_binders_stay r).2.2 [r] [.body] s hbegins).2 [] x hx (.inl rfl)
  obtain rfl : w = a := by
    unfold outcome at hw
    rw [renameWith_lam_of_clash _ _ _ (.inl rfl), ha] at hw
    simpa [binderAt_lam_iff] using hw
  obtain ⟨hax, hay, -⟩ := hwaiting r List.mem_cons_self
  refine ⟨hbegins, hx, ?_, hw, hax, hay, hend⟩
  rw [hmentioned.1]
  decide

end Renaming

end NamedLambda.Term
