import NamedLambda.Text.Quoted

/-! Tokens of the term language, and the one way in which cutting a text into tokens fails. -/
namespace NamedLambda

inductive TokenClass where
  | blank | openParen | closeParen | dot | lambda | constantName | variableName
  deriving DecidableEq, Repr

/-- A token stands at the offset of its first character. -/
structure Token where
  cls : TokenClass
  text : String
  position : Nat
  deriving DecidableEq, Repr

/-- A character with which no token begins. -/
structure LexError where
  character : Char
  position : Nat
  deriving DecidableEq, Repr

def LexError.message (e : LexError) : String :=
  s!"unrecognized character {Text.quotedChar e.character} at position {e.position}"

/-- The sign that every spelling of the lambda is stored as. -/
def lambdaSign : Char := 'λ'

/-- What a token of the class keeps of the characters it was read from. -/
def TokenClass.stored : TokenClass → List Char → String
  | .lambda, _ => String.singleton lambdaSign
  | _, cs => String.ofList cs

end NamedLambda
