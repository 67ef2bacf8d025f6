import Mathlib.Data.List.Forall2
import NamedLambda.Proofs.Report.Expression
import NamedLambda.Proofs.Term.Splitting
import NamedLambda.Proofs.Text.Lines

/-!
The report on a file. It is the reports on the expressions in it, each as if it stood alone, and if
one of them fails, it is the first failure, at the line where that expression stands.
-/
namespace NamedLambda

/-- The expressions of a text that is cut at its newlines. A piece is numbered from one by its place
among all pieces, and loses a return at its end and the blanks at both ends; what is left is an
expression unless it is empty or a comment. -/
def numberedExpressions (content : String) : List NumberedLine :=
  ((content.toList.splitOn '\n').zipIdx 1).filterMap fun (piece, n) =>
    let line := Text.trim (Text.dropReturn piece)
    if line = [] ∨ line.head? = some '#' then none else some (n, String.ofList line)

/-- The expression in one line, if there is one. -/
def expressionIn (line : List Char × Nat) : Option NumberedLine :=
  if isExpressionLine (Text.trim line.1) then some (line.2, String.ofList (Text.trim line.1))
  else none

theorem isExpressionLine_eq_false_iff {line : List Char} :
    isExpressionLine line = false ↔ line = [] ∨ line.head? = some '#' := by
  cases line <;> simp [isExpressionLine]

theorem numberedExpressions_eq (content : String) :
    numberedExpressions content =
      (((content.toList.splitOn '\n').map Text.dropReturn).zipIdx 1).filterMap expressionIn := by
  rw [numberedExpressions, List.zipIdx_map, List.filterMap_map]
  congr 1
  funext (piece, n)
  simp only [Function.comp, expressionIn, Prod.map, id, ← isExpressionLine_eq_false_iff]
  cases isExpressionLine (Text.trim (Text.dropReturn piece)) <;> rfl

theorem filterMap_expressionIn (lines : List (List Char)) (k : Nat) :
    (lines.zipIdx (k + 1)).filterMap expressionIn =
      (((lines.map Text.trim).zipIdx k).filter fun (line, _) => isExpressionLine line).map
        fun (line, i) => (i + 1, String.ofList line) := by
  induction lines generalizing k with
  | nil => rfl
  | cons line lines ih =>
    rw [List.zipIdx_cons, List.map_cons, List.zipIdx_cons, List.filterMap_cons, List.filter_cons,
      ih (k + 1), expressionIn]
    by_cases hline : isExpressionLine (Text.trim line) <;> simp [hline]

theorem filterMap_expressionIn_dropReturn (pieces : List (List Char)) (k : Nat) :
    ((pieces.map Text.dropReturn).zipIdx k).filterMap expressionIn =
      (pieces.zipIdx k).filterMap expressionIn := by
  rw [List.zipIdx_map, List.filterMap_map]
  congr 1
  funext line
  simp only [Function.comp, expressionIn, Prod.map, id, Text.trim_dropReturn]

/-- What is left of the last piece if it is empty is no expression, so that it may be left out. -/
theorem expressionLines_eq_numberedExpressions (content : String) :
    expressionLines content = numberedExpressions content := by
  obtain ⟨front, last, hpieces, hlines⟩ := Text.exists_splitOn_eq_lines content.toList
  rw [expressionLines, ← filterMap_expressionIn, numberedExpressions_eq,
    filterMap_expressionIn_dropReturn, hpieces, hlines, List.zipIdx_append, List.zipIdx_append,
    List.filterMap_append, List.filterMap_append, filterMap_expressionIn_dropReturn,
    List.length_map]
  split
  · next hlast =>
    rw [hlast]
    rfl
  · rfl

namespace ReportError

/-- The line that the error names. -/
def line : ReportError → Option Nat
  | .request _ | .file _ => none
  | .parse n _ | .reduction n _ => some n

/-- The same error at another line. -/
def onLine (n : Nat) : ReportError → ReportError
  | .request fault => .request fault
  | .file e => .file e
  | .parse _ e => .parse n e
  | .reduction _ e => .reduction n e

end ReportError

namespace Settings

section
variable {s : Settings} {m n : Nat} {text : String}

/-- The line that an expression stands on is only ever told in an error. -/
theorem block_of_block {lines : List String} (h : s.block (m, text) = .ok lines) :
    s.block (n, text) = .ok lines :=
  block_eq_ok_iff.mpr (block_eq_ok_iff.mp h)

theorem block_error_onLine {e : ReportError} (h : s.block (m, text) = .error e) :
    e.line = some m ∧ s.block (n, text) = .error (e.onLine n) := by
  obtain ⟨cause, hparse, rfl⟩ | ⟨t, cause, hparse, houtcome, rfl⟩ := block_eq_error_iff.mp h
  · exact ⟨rfl, block_of_parse_error hparse⟩
  · exact ⟨rfl, block_eq_error_iff.mpr (.inr ⟨t, cause, hparse, houtcome, rfl⟩)⟩

theorem blocks_of_forall_ok {numbered : List NumberedLine} {outs : List String}
    (hdepth : 1 ≤ s.maxDepth)
    (h : List.Forall₂ (fun p out => s.reportOn p.2 = .ok out) numbered outs) :
    ∃ lines, s.blocks numbered = .ok lines ∧ (lines = [] ↔ outs = []) ∧
      "\n".intercalate lines = "\n".intercalate outs := by
  induction h with
  | nil => exact ⟨[], rfl, Iff.rfl, rfl⟩
  | @cons p out numbered outs hout _ ih =>
    obtain ⟨block, hblock, rfl⟩ := (reportOn_eq_ok_iff hdepth).mp hout
    obtain ⟨lines, hlines, hnil, htext⟩ := ih
    have hne := block_ne_nil hblock
    refine ⟨block ++ lines, ?_, by simp [hne], ?_⟩
    · rw [blocks_cons, block_of_block hblock, hlines]
      rfl
    · by_cases houts : outs = []
      · rw [houts, hnil.mpr houts, List.append_nil, String.intercalate_singleton]
      · rw [String.intercalate_append_of_ne_nil hne (mt hnil.mp houts),
          String.intercalate_cons_of_ne_nil houts, htext]

theorem blocks_of_first_error {p : NumberedLine} {before after : List NumberedLine}
    {e : ReportError} (hbefore : ∀ q ∈ before, ∃ lines, s.block q = .ok lines)
    (h : s.block p = .error e) : s.blocks (before ++ p :: after) = .error e := by
  induction before with
  | nil =>
    rw [List.nil_append, blocks_cons, h]
    rfl
  | cons q before ih =>
    obtain ⟨⟨lines, hlines⟩, hlater⟩ := List.forall_mem_cons.mp hbefore
    rw [List.cons_append, blocks_cons, hlines, ih hlater]
    rfl

theorem fromUTF8_toUTF8 (content : String) : String.fromUTF8? content.toUTF8 = some content := by
  rw [String.toUTF8_eq_toByteArray, String.fromUTF8?, dif_pos content.isValidUTF8]
  rfl

theorem reportOnFile_eq {bytes : ByteArray} {content : String} (hdepth : 1 ≤ s.maxDepth)
    (hbytes : String.fromUTF8? bytes = some content) :
    s.reportOnFile bytes =
      (s.blocks (numberedExpressions content)).map "\n".intercalate := by
  have hexpressions : Request.expressions ⟨s, none, some (.ok bytes)⟩ =
      .ok (numberedExpressions content) := by
    simp only [Request.expressions, hbytes, expressionLines_eq_numberedExpressions]
  rw [reportOnFile, Request.report_of_maxDepth_ne_zero (Nat.one_le_iff_ne_zero.mp hdepth),
    hexpressions]
  rfl

end

/-- A file that is readable text is run as the expressions in it are run on their own. If they all
succeed, their reports follow each other, one newline between two of them. Otherwise the first one
that fails decides, and its error names the line of the file instead of the first line. -/
theorem file_reports_its_expressions (s : Settings) (hdepth : 1 ≤ s.maxDepth) (bytes : ByteArray)
    (content : String) (hbytes : String.fromUTF8? bytes = some content) :
    (∀ outs, List.Forall₂ (fun p out => s.reportOn p.2 = .ok out) (numberedExpressions content)
        outs → s.reportOnFile bytes = .ok ("\n".intercalate outs)) ∧
    ∀ before n text after e, numberedExpressions content = before ++ (n, text) :: after →
      (∀ p ∈ before, ∃ out, s.reportOn p.2 = .ok out) → s.reportOn text = .error e →
        e.line = some 1 ∧ s.reportOnFile bytes = .error (e.onLine n) := by
  rw [reportOnFile_eq hdepth hbytes]
  constructor
  · intro outs houts
    obtain ⟨lines, hlines, -, htext⟩ := blocks_of_forall_ok hdepth houts
    rw [hlines, ← htext]
    rfl
  · intro before n text after e hnumbered hbefore he
    obtain ⟨hline, hblock⟩ := block_error_onLine (n := n) ((reportOn_eq_error_iff hdepth).mp he)
    have hblocks : ∀ p ∈ before, ∃ lines, s.block p = .ok lines := by
      intro p hp
      obtain ⟨out, hout⟩ := hbefore p hp
      obtain ⟨lines, hlines, -⟩ := (reportOn_eq_ok_iff hdepth).mp hout
      exact ⟨lines, block_of_block hlines⟩
    rw [hnumbered, blocks_of_first_error hblocks hblock]
    exact ⟨hline, rfl⟩

/-- Of two expressions, with a comment and an empty line before them, the second one is too deep for
the lower of two limits. -/
theorem file_reports_its_expressions_two_limits :
    let content := "# two\r\n\n f \r\n((λ x . x) y)"
    let low : Settings := ⟨1, 2, false⟩
    let high : Settings := ⟨1, 3, true⟩
    numberedExpressions content = [(3, "f"), (4, "((λ x . x) y)")] ∧
      high.reportOnFile content.toUTF8 =
        .ok "f\n=> f (0 steps)\n((λ x . x) y)\n  -> y\n=> y (1 steps)" ∧
      low.reportOn "f" = .ok "f\n=> f (0 steps)" ∧
      low.reportOnFile content.toUTF8 = .error (.parse 4 (.tooDeep 2)) := by
  have hnumbered : numberedExpressions "# two\r\n\n f \r\n((λ x . x) y)" =
      [(3, "f"), (4, "((λ x . x) y)")] := by rfl
  intro content low high
  have hcontent : String.fromUTF8? content.toUTF8 = some content := fromUTF8_toUTF8 content
  let f : Term := .var ⟨"f"⟩
  let t : Term := .app (.lam ⟨"x"⟩ (.var ⟨"x"⟩)) (.var ⟨"y"⟩)
  have hf : f.Printable := by decide
  have ht : t.Printable := by decide
  have hdepth : f.depth = 1 ∧ t.depth = 3 := by
    rw [Term.depth_eq_height, Term.depth_eq_height]
    exact ⟨rfl, rfl⟩
  have htext : f.render = "f" ∧ t.render = "((λ x . x) y)" := ⟨by cbv, by cbv⟩
  have hfirst (s : Settings) (hs : f.depth ≤ s.maxDepth) :
      s.reportOn "f" = .ok "f\n=> f (0 steps)" := by
    have hstep : f.step s.maxDepth = .ok none := Term.step_eq_ok_iff.mpr ⟨⟨hs, hs⟩, rfl⟩
    rw [← htext.1, reportOn_render hf hs (Term.reduce_of_step_none hstep _), shown, ite_self]
    cbv
  have hsecondHigh :
      high.reportOn "((λ x . x) y)" = .ok "((λ x . x) y)\n  -> y\n=> y (1 steps)" := by
    have hstep : t.step 3 = .ok (some (.var ⟨"y"⟩)) := by cbv
    have hlast : (Term.var ⟨"y"⟩).step 3 = .ok none := by cbv
    have hrun : t.reduce 3 1 = ⟨[.var ⟨"y"⟩], .ok ⟨.var ⟨"y"⟩, 1, true⟩⟩ := by
      rw [Term.reduce_succ_of_step 0 hstep, Term.reduce_of_step_none hlast]
      rfl
    rw [← htext.2, reportOn_render ht hdepth.2.le hrun]
    cbv
  have hsecondLow : low.reportOn "((λ x . x) y)" = .error (.parse 1 (.tooDeep 2)) := by
    have hparse := (parse_render ht 2).trans (if_neg (by rw [hdepth.2]; decide))
    rw [← htext.2, reportOn_eq_error_iff (by decide)]
    exact block_of_parse_error hparse
  have hfirstLow := hfirst low (by rw [hdepth.1]; decide)
  have hfirstHigh := hfirst high (by rw [hdepth.1]; decide)
  have hhigh := file_reports_its_expressions high (by decide) content.toUTF8 content hcontent
  have hlow := file_reports_its_expressions low (by decide) content.toUTF8 content hcontent
  refine ⟨hnumbered, ?_, hfirstLow, ?_⟩
  · apply hhigh.1 ["f\n=> f (0 steps)", "((λ x . x) y)\n  -> y\n=> y (1 steps)"]
    rw [hnumbered]
    exact .cons hfirstHigh (.cons hsecondHigh .nil)
  · refine (hlow.2 [(3, "f")] 4 _ [] _ hnumbered ?_ hsecondLow).2
    intro p hp
    rw [List.mem_singleton.mp hp]
    exact ⟨_, hfirstLow⟩

end Settings

end NamedLambda
