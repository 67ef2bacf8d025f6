import NamedLambda.Token.Munch

/-!
The texts of the tokens of each class, said without the lexer. The reach of a class is the length of
the longest of its texts that a text begins with.
-/
namespace NamedLambda.TokenClass

/-- The characters are a token of the class. -/
def Spells : TokenClass → List Char → Prop
  | .blank, w => w ≠ [] ∧ ∀ c ∈ w, isSeparator c = true
  | .openParen, w => w = ['(']
  | .closeParen, w => w = [')']
  | .dot, w => w = ['.']
  | .lambda, w => w ∈ lambdaSpellings
  | .constantName, w => isConstantName w = true
  | .variableName, w => isVariableName w = true

theorem ne_nil_of_spells {k : TokenClass} {w : List Char} (h : k.Spells w) : w ≠ [] := by
  rintro rfl
  cases k <;> simp [Spells, lambdaSpellings, isConstantName, isVariableName] at h

theorem mem_all (k : TokenClass) : k ∈ all := by
  cases k <;> decide

end NamedLambda.TokenClass
