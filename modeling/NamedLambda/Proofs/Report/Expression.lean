import NamedLambda.Proofs.Except
import NamedLambda.Proofs.Parse.RoundTrip
import NamedLambda.Report

/-!
The report on one expression. It fails where reading does, or else where the reduction of the term
read does; its lines are the term, the terms on the way if they are to be shown, and the end.
-/
namespace NamedLambda

/-- The lines on a term, on terms on its way and on its end. -/
def Term.account (t : Term) (way : List Term) (r : Reduction) : List String :=
  t.render :: way.map stepLine ++ [r.line]

theorem Term.account_ne_nil (t : Term) (way : List Term) (r : Reduction) : t.account way r ≠ [] :=
  List.cons_ne_nil _ _

theorem Request.report_of_maxDepth_ne_zero {r : Request} (h : r.settings.maxDepth ≠ 0) :
    r.report =
      r.expressions.bind fun numbered =>
        (r.settings.blocks numbered).map "\n".intercalate := by
  unfold report
  rw [if_neg h]
  rfl

namespace Settings

/-- The terms of a trace that are to be shown. -/
def shown (s : Settings) (trace : List Term) : List Term :=
  if s.showSteps then trace else []

/-- The report on an expression that is given as such. -/
def reportOn (s : Settings) (text : String) : Except ReportError String :=
  Request.report ⟨s, some text, none⟩

/-- The report on a file of these bytes. -/
def reportOnFile (s : Settings) (bytes : ByteArray) : Except ReportError String :=
  Request.report ⟨s, none, some (.ok bytes)⟩

section
variable {s : Settings} {line : Nat} {text : String}

theorem block_of_parse_error {e : ParseError} (h : Term.parse s.maxDepth text = .error e) :
    s.block (line, text) = .error (.parse line e) := by
  rw [block, h]
  rfl

theorem block_of_parse {t : Term} (h : Term.parse s.maxDepth text = .ok t) :
    s.block (line, text) =
      let run := t.reduce s.maxDepth s.maxSteps
      (run.outcome.mapError (.reduction line)).map (t.account (s.shown run.trace)) := by
  rw [block, h]
  simp only [Except.mapError, Except.map, bind, Except.bind, shown, pure, Except.pure]
  cases (t.reduce s.maxDepth s.maxSteps).outcome with
  | error e => rfl
  | ok r => cases s.showSteps <;> rfl

theorem block_eq_ok_iff {lines : List String} :
    s.block (line, text) = .ok lines ↔
      ∃ t r, Term.parse s.maxDepth text = .ok t ∧
        (t.reduce s.maxDepth s.maxSteps).outcome = .ok r ∧
        t.account (s.shown (t.reduce s.maxDepth s.maxSteps).trace) r = lines := by
  cases hparse : Term.parse s.maxDepth text with
  | error e => simp [block_of_parse_error hparse]
  | ok t =>
    rw [block_of_parse hparse]
    cases houtcome : (t.reduce s.maxDepth s.maxSteps).outcome with
    | error e => simp [Except.mapError, Except.map, houtcome]
    | ok r => simp [Except.mapError, Except.map, houtcome]

theorem block_eq_error_iff {e : ReportError} :
    s.block (line, text) = .error e ↔
      (∃ cause, Term.parse s.maxDepth text = .error cause ∧ .parse line cause = e) ∨
      ∃ t cause, Term.parse s.maxDepth text = .ok t ∧
        (t.reduce s.maxDepth s.maxSteps).outcome = .error cause ∧ .reduction line cause = e := by
  cases hparse : Term.parse s.maxDepth text with
  | error cause => simp [block_of_parse_error hparse]
  | ok t =>
    rw [block_of_parse hparse]
    cases houtcome : (t.reduce s.maxDepth s.maxSteps).outcome with
    | error cause => simp [Except.mapError, Except.map, houtcome]
    | ok r => simp [Except.mapError, Except.map, houtcome]

theorem block_ne_nil {numbered : NumberedLine} {lines : List String}
    (h : s.block numbered = .ok lines) : lines ≠ [] := by
  obtain ⟨t, r, -, -, rfl⟩ := block_eq_ok_iff.mp h
  exact t.account_ne_nil _ r

@[simp] theorem blocks_nil : s.blocks [] = .ok [] := rfl

theorem blocks_cons (numbered : NumberedLine) (later : List NumberedLine) :
    s.blocks (numbered :: later) =
      (s.block numbered).bind fun block => (s.blocks later).map (block ++ ·) :=
  rfl

theorem blocks_singleton (numbered : NumberedLine) : s.blocks [numbered] = s.block numbered := by
  rw [blocks_cons]
  cases s.block numbered with
  | error e => rfl
  | ok lines => simp [Except.bind, Except.map]

theorem reportOn_eq (h : 1 ≤ s.maxDepth) (text : String) :
    s.reportOn text = (s.block (1, text)).map "\n".intercalate := by
  rw [reportOn, Request.report_of_maxDepth_ne_zero (Nat.one_le_iff_ne_zero.mp h)]
  change (s.blocks [(1, text)]).map "\n".intercalate = _
  rw [blocks_singleton]

theorem one_le_of_reportOn {out : String} (h : s.reportOn text = .ok out) : 1 ≤ s.maxDepth := by
  by_contra hdepth
  rw [reportOn, Request.report, if_pos (Nat.eq_zero_of_not_pos hdepth)] at h
  cases h

theorem reportOn_eq_ok_iff (h : 1 ≤ s.maxDepth) {out : String} :
    s.reportOn text = .ok out ↔
      ∃ lines, s.block (1, text) = .ok lines ∧ "\n".intercalate lines = out := by
  rw [reportOn_eq h]
  exact Except.map_eq_ok_iff

theorem reportOn_eq_error_iff (h : 1 ≤ s.maxDepth) {e : ReportError} :
    s.reportOn text = .error e ↔ s.block (1, text) = .error e := by
  rw [reportOn_eq h]
  exact Except.map_eq_error_iff

/-- The report on the text of a term. -/
theorem reportOn_render {t : Term} {r : Reduction} {way : List Term} (ht : t.Printable)
    (hdepth : t.depth ≤ s.maxDepth) (hrun : t.reduce s.maxDepth s.maxSteps = ⟨way, .ok r⟩) :
    s.reportOn t.render = .ok ("\n".intercalate (t.account (s.shown way) r)) := by
  have hlimit : 1 ≤ s.maxDepth := by
    rw [Term.depth_eq_height] at hdepth
    exact Nat.le_trans t.height_pos hdepth
  have hparse := (parse_render ht s.maxDepth).trans (if_pos hdepth)
  refine (reportOn_eq_ok_iff hlimit).mpr ⟨t.account (s.shown way) r, ?_, rfl⟩
  rw [block_of_parse hparse, hrun]
  rfl

end

end Settings

end NamedLambda
