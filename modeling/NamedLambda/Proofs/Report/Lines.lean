import NamedLambda.Proofs.Report.Expression

/-!
The lines of a report. None of them holds a newline, so that they are read off the report again, and
those that show a term on the way are told from all others by how they begin.
-/
namespace NamedLambda

open Term

/-! ### No line holds a newline -/

theorem newline_notMem_variable {x : Variable} (h : x.Valid) : '\n' ∉ x.name.toList :=
  fun hmem => absurd (h.isNameTail hmem) (by decide)

theorem newline_notMem_constant {c : Constant} (h : c.Valid) : '\n' ∉ c.name.toList :=
  fun hmem => absurd (h.isUpper hmem) (by decide)

theorem newline_notMem_write {t : Term} (ht : t.Printable) {rest : List Char}
    (hrest : '\n' ∉ rest) : '\n' ∉ t.write rest := by
  induction t generalizing rest with
  | var x =>
    unfold write
    simp [newline_notMem_variable ht, hrest]
  | const c =>
    unfold write
    simp [newline_notMem_constant ht.1, hrest]
  | lam x body ih =>
    have hbody : '\n' ∉ body.write (')' :: rest) := ih ht.2 (by simp [hrest])
    unfold write
    simp [newline_notMem_variable ht.1, hbody, lambdaSign]
  | app f a ihf iha =>
    have ha : '\n' ∉ a.write (')' :: rest) := iha ht.2 (by simp [hrest])
    have hf : '\n' ∉ f.write (' ' :: a.write (')' :: rest)) := ihf ht.1 (by simp [ha])
    unfold write
    simp [hf]

theorem newline_notMem_digits (n : Nat) : '\n' ∉ Nat.toDigits 10 n := by
  intro hmem
  exact absurd (Nat.isDigit_of_mem_toDigits (by decide) (by decide) hmem) (by decide)

theorem newline_notMem_stepLine {t : Term} (ht : t.Printable) : '\n' ∉ (stepLine t).toList := by
  unfold stepLine
  simp [newline_notMem_write ht List.not_mem_nil]

theorem newline_notMem_line {r : Reduction} (hr : r.term.Printable) : '\n' ∉ r.line.toList := by
  have hterm := newline_notMem_write hr List.not_mem_nil
  have hsteps := newline_notMem_digits r.steps
  unfold Reduction.line
  split <;> simp [hterm, hsteps, ToString.toString]

section
variable {t : Term} {way : List Term} {r : Reduction}

theorem newline_notMem_account (ht : t.Printable) (hway : ∀ u ∈ way, u.Printable)
    (hr : r.term.Printable) : ∀ line ∈ t.account way r, '\n' ∉ line.toList := by
  intro line hline
  rcases List.mem_append.mp hline with hfront | hlast
  · rcases List.mem_cons.mp hfront with rfl | hstep
    · rw [toList_render]
      exact newline_notMem_write ht List.not_mem_nil
    · obtain ⟨u, hu, rfl⟩ := List.mem_map.mp hstep
      exact newline_notMem_stepLine (hway u hu)
  · rw [List.mem_singleton.mp hlast]
    exact newline_notMem_line hr

theorem splitOn_intercalate {lines : List String} (hne : lines ≠ [])
    (h : ∀ line ∈ lines, '\n' ∉ line.toList) :
    ("\n".intercalate lines).toList.splitOn '\n' = lines.map String.toList := by
  rw [String.toList_intercalate]
  apply List.splitOn_intercalate
  · intro line hline
    obtain ⟨text, htext, rfl⟩ := List.mem_map.mp hline
    exact h text htext
  · exact List.map_eq_nil_iff.not.mpr hne

theorem Term.splitOn_account (ht : t.Printable) (hway : ∀ u ∈ way, u.Printable)
    (hr : r.term.Printable) :
    ("\n".intercalate (t.account way r)).toList.splitOn '\n' =
      (t.account way r).map String.toList :=
  splitOn_intercalate (t.account_ne_nil way r) (newline_notMem_account ht hway hr)

end

/-! ### How lines begin -/

/-- What stands in front of a term on the way. -/
def stepMark : List Char :=
  "  -> ".toList

/-- The line begins as those of terms on the way do. -/
def isStepLine (line : List Char) : Bool :=
  stepMark.isPrefixOf line

theorem isStepLine_cons_of_ne {c : Char} (h : c ≠ ' ') (cs : List Char) :
    isStepLine (c :: cs) = false := by
  have hc : (' ' == c) = false := beq_eq_false_iff_ne.mpr h.symm
  change (' ' == c && _) = false
  rw [hc, Bool.false_and]

/-- What begins with a word does not begin with a blank. -/
theorem isStepLine_append {word : List Char} (hne : word ≠ []) (h : ' ' ∉ word)
    (rest : List Char) : isStepLine (word ++ rest) = false := by
  obtain ⟨c, cs, rfl⟩ := List.exists_cons_of_ne_nil hne
  exact isStepLine_cons_of_ne (fun hc => h (hc ▸ List.mem_cons_self)) (cs ++ rest)

@[simp] theorem isStepLine_stepLine (t : Term) : isStepLine (stepLine t).toList = true := by
  unfold isStepLine stepLine
  rw [String.toList_append]
  exact List.isPrefixOf_iff_prefix.mpr (List.prefix_append _ _)

/-- A term begins with a parenthesis or with a letter. -/
theorem isStepLine_write {t : Term} (ht : t.Printable) (rest : List Char) :
    isStepLine (t.write rest) = false := by
  cases t with
  | var x =>
    have hx : x.Valid := ht
    apply isStepLine_append hx.ne_nil
    exact fun hmem => absurd (hx.isNameTail hmem) (by decide)
  | const c =>
    apply isStepLine_append ht.1.ne_nil
    exact fun hmem => absurd (ht.1.isUpper hmem) (by decide)
  | lam x body => exact isStepLine_cons_of_ne (by decide) _
  | app f a => exact isStepLine_cons_of_ne (by decide) _

@[simp] theorem isStepLine_line (r : Reduction) : isStepLine r.line.toList = false := by
  unfold Reduction.line
  split
  · simp only [String.toList_append, ToString.toString]
    exact isStepLine_cons_of_ne (by decide) _
  · simp only [String.toList_append, ToString.toString]
    exact isStepLine_cons_of_ne (by decide) _

end NamedLambda
