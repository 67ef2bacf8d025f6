import NamedLambda.Text.Blank
import NamedLambda.Text.Lines

/-!
The lines of a text are its pieces between newlines, less a carriage return at the end of each of
them but the last, which is no line if it is empty. Trimming takes away the return all the same.
-/
namespace NamedLambda.Text

/-- Drops one carriage return at the end. -/
def dropReturn (cs : List Char) : List Char :=
  if cs.getLast? = some '\r' then cs.dropLast else cs

theorem dropReturn_cons {c : Char} {cs : List Char} (h : c = '\r' → cs ≠ []) :
    dropReturn (c :: cs) = c :: dropReturn cs := by
  cases cs with
  | nil =>
    have hc : c ≠ '\r' := fun hc => h hc rfl
    simp [dropReturn, hc]
  | cons d cs =>
    rw [dropReturn, dropReturn, List.getLast?_cons_cons]
    split <;> rfl

/-- A line ends at its first newline. -/
theorem lines_append_newline {piece : List Char} (h : '\n' ∉ piece) (cs : List Char) :
    lines (piece ++ '\n' :: cs) = dropReturn piece :: lines cs := by
  induction piece with
  | nil => exact lines_newline cs
  | cons c piece ih =>
    obtain ⟨hc, hpiece⟩ := not_or.mp (mt List.mem_cons.mpr h)
    by_cases hreturn : c = '\r' ∧ piece = []
    · obtain ⟨rfl, rfl⟩ := hreturn
      exact lines_return_newline cs
    · have hne : c = '\r' → piece ≠ [] := fun hcr hnil => hreturn ⟨hcr, hnil⟩
      rw [List.cons_append, lines, ih hpiece, dropReturn_cons hne]
      · exact fun hcn => hc hcn.symm
      · intro ds hcr hds
        obtain ⟨d, ps, rfl⟩ := List.exists_cons_of_ne_nil (hne hcr)
        cases hds
        exact hpiece List.mem_cons_self

theorem lines_of_notMem {piece : List Char} (h : '\n' ∉ piece) :
    lines piece = if piece = [] then [] else [piece] := by
  induction piece with
  | nil => rfl
  | cons c piece ih =>
    obtain ⟨hc, hpiece⟩ := not_or.mp (mt List.mem_cons.mpr h)
    rw [lines, ih hpiece, if_neg (List.cons_ne_nil c piece)]
    · by_cases hnil : piece = []
      · rw [if_pos hnil, hnil]
      · rw [if_neg hnil]
    · exact fun hcn => hc hcn.symm
    · rintro ds - rfl
      exact hpiece List.mem_cons_self

theorem exists_splitOn_eq_lines (cs : List Char) :
    ∃ front last, cs.splitOn '\n' = front ++ [last] ∧
      lines cs = front.map dropReturn ++ if last = [] then [] else [last] := by
  by_cases h : '\n' ∈ cs
  · obtain ⟨piece, ds, rfl, hpiece⟩ := List.eq_append_cons_of_mem h
    obtain ⟨front, last, hpieces, hlines⟩ := exists_splitOn_eq_lines ds
    refine ⟨piece :: front, last, ?_, ?_⟩
    · rw [List.splitOn_append_cons_self_of_not_mem hpiece, hpieces]
      rfl
    · rw [lines_append_newline hpiece, hlines]
      rfl
  · exact ⟨[], cs, List.splitOn_eq_singleton h, lines_of_notMem h⟩
termination_by cs.length
decreasing_by simp_all; omega

theorem trim_concat_of_isBlank {c : Char} (h : isBlank c = true) (cs : List Char) :
    trim (cs ++ [c]) = trim cs := by
  rw [trim, trim, List.dropWhile_append]
  split
  · next hempty =>
    have hnil : cs.dropWhile isBlank = [] := List.isEmpty_iff.mp hempty
    simp [hnil, h]
  · simp [h]

theorem trim_dropReturn (cs : List Char) : trim (dropReturn cs) = trim cs := by
  rw [dropReturn]
  split
  · next hlast =>
    obtain ⟨front, rfl⟩ := List.getLast?_eq_some_iff.mp hlast
    rw [List.dropLast_concat, trim_concat_of_isBlank (by decide)]
  · rfl

end NamedLambda.Text
