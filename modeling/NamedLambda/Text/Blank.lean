import NamedLambda.Text.Ranges

/-!
Blank characters, which are those of the Unicode property White_Space, and what is left of a line
without the blanks at its ends.
-/
namespace NamedLambda.Text

/-- The code points of the property, as closed intervals in increasing order. -/
def blankRanges : List (Nat × Nat) :=
  [(0x9, 0xD), (0x20, 0x20), (0x85, 0x85), (0xA0, 0xA0), (0x1680, 0x1680), (0x2000, 0x200A),
   (0x2028, 0x2029), (0x202F, 0x202F), (0x205F, 0x205F), (0x3000, 0x3000)]

def isBlank (c : Char) : Bool :=
  inRanges blankRanges c

/-- Drops the blanks at both ends. -/
def trim (cs : List Char) : List Char :=
  ((cs.dropWhile isBlank).reverse.dropWhile isBlank).reverse

theorem isBlank_of_isWhitespace {c : Char} (h : c.isWhitespace = true) : isBlank c = true := by
  simp only [Char.isWhitespace, Bool.or_eq_true, decide_eq_true_eq] at h
  rcases h with ((rfl | rfl) | rfl) | rfl <;> rfl

@[simp] theorem trim_nil : trim [] = [] := rfl

/-- A text with no blank at either end is left alone. -/
theorem trim_of_ends {c d : Char} {cs : List Char} (hc : isBlank c = false)
    (hd : isBlank d = false) (h : (c :: cs).getLast? = some d) : trim (c :: cs) = c :: cs := by
  obtain ⟨front, hf⟩ := List.getLast?_eq_some_iff.mp h
  have hstart : (c :: cs).dropWhile isBlank = c :: cs := by simp [hc]
  rw [trim, hstart, hf]
  simp [hd]

end NamedLambda.Text
