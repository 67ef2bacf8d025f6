import NamedLambda.Proofs.Report.Lines
import NamedLambda.Proofs.Term.Names

/-!
Reports resumed from their own lines. Every term that a report shows is printed as it is read, and
the report on that line, with the passes that are left, is what is left of the report.
-/
namespace NamedLambda

open Term

/-- The report on a term that a run comes by, with the passes that are left. -/
theorem reportOn_passed {n m k : Nat} {t u : Term} {way : List Term} {r : Reduction}
    (hrun : t.reduce m n = ⟨way, .ok r⟩) (ht : t.Printable) (hdepth : t.depth ≤ m)
    (hu : (t :: way)[k]? = some u) :
    (⟨n - k, m, true⟩ : Settings).reportOn u.render =
      .ok ("\n".intercalate (u.account (way.drop k) (r.since k))) := by
  have hreduces := reduces_reduce m n t
  rw [hrun] at hreduces
  obtain ⟨hway, -⟩ := hreduces.keeps (fun _ hv => hv.contracted) ht
  have hreadable : u.Printable ∧ u.depth ≤ m := by
    rcases List.mem_cons.mp (List.mem_of_getElem? hu) with rfl | hmem
    · exact ⟨ht, hdepth⟩
    · exact ⟨hway u hmem, hreduces.depth_le_of_mem_trace hmem⟩
  exact Settings.reportOn_render hreadable.1 hreadable.2 (hreduces.reduce_of_getElem? hu)

/-- Every line of a report that shows a term gives that term to be gone on with. The report that has
as many passes less as the line has before it shows what the first one shows from there on, and
comes to the same end, of which it counts the passes from there on as well. From the first line on,
this is the whole report. -/
theorem report_resumes_at_every_line (n m : Nat) (text out : String)
    (h : (⟨n, m, true⟩ : Settings).reportOn text = .ok out) :
    ∃ t way r, Term.parse m text = .ok t ∧ t.reduce m n = ⟨way, .ok r⟩ ∧
      out.toList.splitOn '\n' = (t.account way r).map String.toList ∧
      r.steps = way.length ∧ r.steps ≤ n ∧
      (⟨n, m, true⟩ : Settings).reportOn t.render = .ok out ∧
      ∀ k u, (t :: way)[k]? = some u →
        (⟨n - k, m, true⟩ : Settings).reportOn u.render =
          .ok ("\n".intercalate (u.account (way.drop k) (r.since k))) := by
  obtain ⟨lines, hlines, rfl⟩ := (Settings.reportOn_eq_ok_iff (Settings.one_le_of_reportOn h)).mp h
  obtain ⟨t, r, hparse, houtcome, rfl⟩ := Settings.block_eq_ok_iff.mp hlines
  have hreduces := reduces_reduce m n t
  have hrecords := hreduces.records houtcome
  have ht := printable_of_parse hparse
  obtain ⟨hway, hend⟩ := hreduces.keeps (fun _ hv => hv.contracted) ht
  have hrun : t.reduce m n = ⟨(t.reduce m n).trace, .ok r⟩ := by
    rw [← houtcome]
  have hpassed (k : Nat) (u : Term) (hu : (t :: (t.reduce m n).trace)[k]? = some u) :=
    reportOn_passed hrun ht (depth_le_of_parse hparse) hu
  refine ⟨t, (t.reduce m n).trace, r, hparse, hrun, ?_, hrecords.length_eq.symm,
    hrecords.steps_le, hpassed 0 t rfl, hpassed⟩
  exact splitOn_account ht hway (hend r houtcome)

/-- The first pass gives a binder the name `z`, and the second one starts from the text with it. -/
theorem report_resumes_at_every_line_fresh_binder :
    let text := "(((λ x . (λ y . (x y))) y) a)"
    let out := "\n".intercalate
      [text, "  -> ((λ z . (y z)) a)", "  -> (y a)", "=> (y a) (2 steps)"]
    (⟨2, 6, true⟩ : Settings).reportOn text = .ok out ∧
      (⟨1, 6, true⟩ : Settings).reportOn "((λ z . (y z)) a)" =
        .ok ("\n".intercalate ["((λ z . (y z)) a)", "  -> (y a)", "=> (y a) (1 steps)"]) := by
  intro text out
  let x : Variable := ⟨"x"⟩
  let y : Variable := ⟨"y"⟩
  let z : Variable := ⟨"z"⟩
  let a : Variable := ⟨"a"⟩
  let t : Term := .app (.app (.lam x (.lam y (.app (.var x) (.var y)))) (.var y)) (.var a)
  let u : Term := .app (.lam z (.app (.var y) (.var z))) (.var a)
  let v : Term := .app (.var y) (.var a)
  have ht : t.Printable := by decide
  have hdepth : t.depth = 6 := by
    rw [Term.depth_eq_height]
    rfl
  have htext : t.render = text ∧ u.render = "((λ z . (y z)) a)" := ⟨by cbv, by cbv⟩
  have hfirst : t.step 6 = .ok (some u) := by cbv
  have hsecond : u.step 6 = .ok (some v) := by cbv
  have hlast : v.step 6 = .ok none := by cbv
  have hrun : t.reduce 6 2 = ⟨[u, v], .ok ⟨v, 2, true⟩⟩ := by
    rw [reduce_succ_of_step 1 hfirst, reduce_succ_of_step 0 hsecond, reduce_of_step_none hlast]
    rfl
  have hreport : (⟨2, 6, true⟩ : Settings).reportOn text = .ok out := by
    rw [← htext.1, Settings.reportOn_render ht hdepth.le hrun]
    cbv
  obtain ⟨t', way, r, hparse, hrun', -, -, -, -, hlater⟩ :=
    report_resumes_at_every_line 2 6 text out hreport
  -- the term and the way that the report is about are those above
  obtain rfl : t = t' := by
    rw [← htext.1, parse_render ht, if_pos hdepth.le] at hparse
    exact Except.ok.inj hparse
  obtain ⟨rfl, hr⟩ := Run.mk.inj (hrun.symm.trans hrun')
  obtain rfl := Except.ok.inj hr
  have hresumed := hlater 1 u rfl
  rw [htext.2] at hresumed
  refine ⟨hreport, hresumed.trans ?_⟩
  cbv

end NamedLambda
