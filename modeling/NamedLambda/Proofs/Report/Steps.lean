import Mathlib.Data.List.Forall2
import NamedLambda.Proofs.Report.Lines
import NamedLambda.Proofs.Term.Names

/-!
Reports with and without the terms on the way. To show them adds lines to a report, which are told
by how they begin, and changes neither the other lines nor whether the report fails and why.
-/
namespace NamedLambda

open Term

/-- The text less its lines that begin as those of terms on the way do. -/
def withoutStepLines (text : String) : String :=
  String.ofList
    (['\n'].intercalate ((text.toList.splitOn '\n').filter fun line => !isStepLine line))

/-- The lines of a block that begin as those of terms on the way do. -/
def stepLines (block : List String) : List String :=
  block.filter fun line => isStepLine line.toList

/-- The lines of a block that begin otherwise. -/
def otherLines (block : List String) : List String :=
  block.filter fun line => !isStepLine line.toList

/-- A term, its step lines and a last line that tells how many step lines there are and shows the
term of the last one, if there is one. -/
def Tallied (block : List String) : Prop :=
  ∃ (t u : Term) (isNormal : Bool),
    block = t.render :: stepLines block ++
      [(⟨u, (stepLines block).length, isNormal⟩ : Reduction).line] ∧
    (stepLines block ≠ [] → (stepLines block).getLast? = some (stepLine u))

@[simp] theorem otherLines_append (front back : List String) :
    otherLines (front ++ back) = otherLines front ++ otherLines back :=
  List.filter_append front back

theorem withoutStepLines_intercalate {lines : List String}
    (h : ∀ line ∈ lines, '\n' ∉ line.toList) :
    withoutStepLines ("\n".intercalate lines) = "\n".intercalate (otherLines lines) := by
  by_cases hne : lines = []
  · subst hne
    rfl
  · unfold withoutStepLines otherLines
    rw [splitOn_intercalate hne h, List.filter_map]
    apply String.toList_inj.mp
    rw [String.toList_ofList, String.toList_intercalate]
    rfl

section
variable {t : Term} {way : List Term} {r : Reduction}

theorem stepLines_account (ht : t.Printable) : stepLines (t.account way r) = way.map stepLine := by
  unfold stepLines account
  simp [isStepLine_write ht, List.filter_map, Function.comp_def]

theorem otherLines_account (ht : t.Printable) :
    otherLines (t.account way r) = t.account [] r := by
  unfold otherLines account
  simp [isStepLine_write ht, List.filter_map, Function.comp_def]

/-- The terms on the way of a run are as many as its steps, and lead to its end. -/
theorem tallied_account (ht : t.Printable) (hsteps : way.length = r.steps)
    (hend : r.term = way.getLastD t) : Tallied (t.account way r) := by
  refine ⟨t, r.term, r.isNormal, ?_, ?_⟩
  · rw [stepLines_account ht, List.length_map, hsteps]
    rfl
  · rw [stepLines_account ht]
    intro hne
    have hway : way ≠ [] := fun hnil => hne (List.map_eq_nil_iff.mpr hnil)
    rw [hend, List.getLast?_map, List.getLastD_eq_getLast?, List.getLast?_eq_some_getLast hway]
    rfl

end

namespace Settings

/-- The same settings with or without the terms on the way. -/
def showing (s : Settings) (on : Bool) : Settings :=
  { s with showSteps := on }

section
variable {s : Settings}

theorem exists_account_of_block {numbered : NumberedLine} {lines : List String}
    (h : s.block numbered = .ok lines) :
    ∃ (t : Term) (r : Reduction), t.Printable ∧
      (∀ u ∈ s.shown (t.reduce s.maxDepth s.maxSteps).trace, u.Printable) ∧ r.term.Printable ∧
      (t.reduce s.maxDepth s.maxSteps).outcome = .ok r ∧
      t.account (s.shown (t.reduce s.maxDepth s.maxSteps).trace) r = lines := by
  obtain ⟨t, r, hparse, houtcome, hlines⟩ := block_eq_ok_iff.mp h
  have ht := printable_of_parse hparse
  obtain ⟨hway, hend⟩ :=
    (reduces_reduce s.maxDepth s.maxSteps t).keeps (fun _ hv => hv.contracted) ht
  refine ⟨t, r, ht, ?_, hend r houtcome, houtcome, hlines⟩
  intro u hu
  unfold shown at hu
  split at hu
  · exact hway u hu
  · cases hu

theorem newline_notMem_block {numbered : NumberedLine} {lines : List String}
    (h : s.block numbered = .ok lines) : ∀ line ∈ lines, '\n' ∉ line.toList := by
  obtain ⟨t, r, ht, hway, hr, -, rfl⟩ := exists_account_of_block h
  exact newline_notMem_account ht hway hr

/-- A report without the terms on the way comes about as the one with them does. -/
theorem block_showing_false (numbered : NumberedLine) :
    (s.showing false).block numbered = ((s.showing true).block numbered).map otherLines := by
  obtain ⟨line, text⟩ := numbered
  cases hparse : Term.parse s.maxDepth text with
  | error e =>
    rw [block_of_parse_error (s := s.showing false) hparse,
      block_of_parse_error (s := s.showing true) hparse]
    rfl
  | ok t =>
    have ht := printable_of_parse hparse
    rw [block_of_parse (s := s.showing false) hparse, block_of_parse (s := s.showing true) hparse]
    change (Except.mapError _ (t.reduce s.maxDepth s.maxSteps).outcome).map _ =
      ((Except.mapError _ (t.reduce s.maxDepth s.maxSteps).outcome).map _).map _
    cases (t.reduce s.maxDepth s.maxSteps).outcome with
    | error e => rfl
    | ok r => exact congrArg Except.ok (otherLines_account ht).symm

theorem tallied_block {numbered : NumberedLine} {lines : List String}
    (h : (s.showing true).block numbered = .ok lines) : Tallied lines := by
  obtain ⟨t, r, ht, -, -, houtcome, rfl⟩ := exists_account_of_block h
  have hrecords := (reduces_reduce _ _ t).records houtcome
  exact tallied_account ht hrecords.length_eq hrecords.term_eq

/-- The lines on several expressions are the blocks on each of them, one after the other. -/
theorem blocks_eq_ok_iff {numbered : List NumberedLine} {lines : List String} :
    s.blocks numbered = .ok lines ↔
      ∃ blocks, List.Forall₂ (fun p block => s.block p = .ok block) numbered blocks ∧
        blocks.flatten = lines := by
  induction numbered generalizing lines with
  | nil => simp [eq_comm]
  | cons p later ih =>
    rw [blocks_cons]
    constructor
    · intro h
      obtain ⟨block, hblock, hlater⟩ := Except.bind_eq_ok_iff.mp h
      obtain ⟨others, hothers, rfl⟩ := Except.map_eq_ok_iff.mp hlater
      obtain ⟨blocks, hblocks, rfl⟩ := ih.mp hothers
      exact ⟨block :: blocks, .cons hblock hblocks, rfl⟩
    · rintro ⟨blocks, hblocks, rfl⟩
      cases hblocks with
      | cons hblock hblocks =>
        rw [hblock, ih.mpr ⟨_, hblocks, rfl⟩]
        rfl

theorem newline_notMem_blocks {numbered : List NumberedLine} {lines : List String}
    (h : s.blocks numbered = .ok lines) : ∀ line ∈ lines, '\n' ∉ line.toList := by
  obtain ⟨blocks, hblocks, rfl⟩ := blocks_eq_ok_iff.mp h
  clear h
  induction hblocks with
  | nil => nofun
  | cons hblock _ ih => exact List.forall_mem_append.mpr ⟨newline_notMem_block hblock, ih⟩

theorem blocks_showing_false (numbered : List NumberedLine) :
    (s.showing false).blocks numbered = ((s.showing true).blocks numbered).map otherLines := by
  induction numbered with
  | nil => rfl
  | cons p later ih =>
    rw [blocks_cons, blocks_cons, block_showing_false, ih]
    cases (s.showing true).block p with
    | error e => rfl
    | ok block =>
      cases (s.showing true).blocks later with
      | error e => rfl
      | ok others => exact congrArg Except.ok (otherLines_append block others).symm

end

end Settings

namespace Request

/-- The same request with no term on the way shown. -/
def withoutSteps (r : Request) : Request :=
  { r with settings := { r.settings with showSteps := false } }

theorem report_eq_ok_iff {r : Request} {out : String} :
    r.report = .ok out ↔
      r.settings.maxDepth ≠ 0 ∧ ∃ numbered lines, r.expressions = .ok numbered ∧
        r.settings.blocks numbered = .ok lines ∧ "\n".intercalate lines = out := by
  by_cases hdepth : r.settings.maxDepth = 0
  · simp [report, hdepth]
  · rw [report_of_maxDepth_ne_zero hdepth]
    simp [Except.bind_eq_ok_iff, Except.map_eq_ok_iff, hdepth]

/-- To show the terms on the way neither makes a report fail nor changes the failure. -/
theorem report_withoutSteps (r : Request) :
    r.withoutSteps.report = r.withSteps.report.map withoutStepLines := by
  by_cases hdepth : r.settings.maxDepth = 0
  · have hfails (q : Request) (hq : q.settings.maxDepth = 0) :
        q.report = .error (.request .zeroDepth) := if_pos hq
    rw [hfails r.withoutSteps hdepth, hfails r.withSteps hdepth]
    rfl
  · rw [report_of_maxDepth_ne_zero (r := r.withoutSteps) hdepth,
      report_of_maxDepth_ne_zero (r := r.withSteps) hdepth]
    change r.expressions.bind _ = (r.expressions.bind _).map _
    cases r.expressions with
    | error e => rfl
    | ok numbered =>
      change ((r.settings.showing false).blocks numbered).map _ =
        (((r.settings.showing true).blocks numbered).map _).map _
      rw [Settings.blocks_showing_false]
      cases hlines : (r.settings.showing true).blocks numbered with
      | error e => rfl
      | ok lines =>
        have hnewline := Settings.newline_notMem_blocks hlines
        exact congrArg Except.ok (withoutStepLines_intercalate hnewline).symm

/-- Two requests that differ only in whether the terms on the way are to be shown fail together and
with one error, or both succeed. The report without those terms is then the other one less the lines
that begin as theirs do. The other one is made of one block of lines for each expression, whose last
line tells how many such lines the block has and shows the term of the last one. -/
theorem steps_only_add_lines (r : Request) :
    r.withoutSteps.report = r.withSteps.report.map withoutStepLines ∧
    ∀ out, r.withSteps.report = .ok out →
      ∃ numbered blocks, r.expressions = .ok numbered ∧
        List.Forall₂ (fun p block => r.withSteps.settings.block p = .ok block ∧ Tallied block)
          numbered blocks ∧
        out = "\n".intercalate blocks.flatten ∧
        (blocks ≠ [] → out.toList.splitOn '\n' = blocks.flatten.map String.toList) := by
  refine ⟨report_withoutSteps r, ?_⟩
  intro out hout
  obtain ⟨-, numbered, lines, hnumbered, hlines, rfl⟩ := report_eq_ok_iff.mp hout
  obtain ⟨blocks, hblocks, rfl⟩ := Settings.blocks_eq_ok_iff.mp hlines
  refine ⟨numbered, blocks, hnumbered, ?_, rfl, ?_⟩
  · apply hblocks.imp
    intro p block hblock
    exact ⟨hblock, Settings.tallied_block hblock⟩
  · intro hne
    apply splitOn_intercalate _ (Settings.newline_notMem_blocks hlines)
    cases hblocks with
    | nil => exact absurd rfl hne
    | cons hblock _ => exact List.append_ne_nil_of_left_ne_nil (Settings.block_ne_nil hblock) _

/-- One pass is shown by one line, and the last line tells of one step. -/
theorem steps_only_add_lines_identity :
    let text := "((λ x . x) y)"
    let r : Request := ⟨⟨1, 3, false⟩, some text, none⟩
    r.withSteps.report = .ok "((λ x . x) y)\n  -> y\n=> y (1 steps)" ∧
      r.withoutSteps.report = .ok "((λ x . x) y)\n=> y (1 steps)" ∧
      ∃ block, r.withSteps.settings.block (1, text) = .ok block ∧ Tallied block ∧
        "((λ x . x) y)\n  -> y\n=> y (1 steps)".toList.splitOn '\n' =
          block.map String.toList := by
  intro text r
  let y : Term := .var ⟨"y"⟩
  let t : Term := .app (.lam ⟨"x"⟩ (.var ⟨"x"⟩)) y
  have ht : t.Printable := by decide
  have hdepth : t.depth = 3 := by
    rw [Term.depth_eq_height]
    rfl
  have htext : t.render = text := by cbv
  have hstep : t.step 3 = .ok (some y) := by cbv
  have hlast : y.step 3 = .ok none := by cbv
  have hrun : t.reduce 3 1 = ⟨[y], .ok ⟨y, 1, true⟩⟩ := by
    rw [reduce_succ_of_step 0 hstep, reduce_of_step_none hlast]
    rfl
  have hshown : r.withSteps.report = .ok "((λ x . x) y)\n  -> y\n=> y (1 steps)" := by
    change (⟨1, 3, true⟩ : Settings).reportOn text = _
    rw [← htext, Settings.reportOn_render ht hdepth.le hrun]
    cbv
  obtain ⟨hless, hblocks⟩ := steps_only_add_lines r
  refine ⟨hshown, ?_, ?_⟩
  · rw [hless, hshown]
    cbv
  · obtain ⟨numbered, blocks, hnumbered, hall, -, hlines⟩ := hblocks _ hshown
    have hone : [(1, text)] = numbered := Except.ok.inj hnumbered
    subst hone
    obtain ⟨block, rest, ⟨hblock, htallied⟩, hrest, rfl⟩ := List.forall₂_cons_left_iff.mp hall
    cases hrest
    refine ⟨block, hblock, htallied, ?_⟩
    rw [hlines (List.cons_ne_nil _ _), List.flatten_cons, List.flatten_nil, List.append_nil]

end Request

end NamedLambda
