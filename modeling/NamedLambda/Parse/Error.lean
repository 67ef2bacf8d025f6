import NamedLambda.Term.Limit
import NamedLambda.Token.Basic

/-! The ways in which a text is refused as a term. -/
namespace NamedLambda

inductive ParseError where
  | lexical (e : LexError)
  /-- The term is, or is bound to become, deeper than the limit. -/
  | tooDeep (limit : Nat)
  | unexpectedToken (text : String) (position : Nat)
  /-- The dot follows the lambda of this position at once. -/
  | noBinders (position : Nat)
  /-- A closing parenthesis has to come, and this token or the end of the text stands there. -/
  | unclosed (found : Option String) (position : Nat)
  /-- A token after a complete term. -/
  | trailing (text : String) (position : Nat)
  | endOfText
  deriving DecidableEq, Repr

namespace ParseError

/-- How the end of the text is shown where a token was looked for. -/
def endShown : String := "end of input"

def message : ParseError → String
  | .lexical e => e.message
  | .tooDeep limit => tooDeepMessage limit
  | .unexpectedToken text position =>
    s!"unexpected token {Text.quotedText text} at position {position}"
  | .noBinders position => s!"lambda abstraction at position {position} binds no variables"
  | .unclosed found position =>
    s!"expected `)` at position {position}, found {Text.quotedText (found.getD endShown)}"
  | .trailing text position =>
    s!"unexpected trailing token {Text.quotedText text} at position {position}"
  | .endOfText => "unexpected end of input"

end ParseError

end NamedLambda
