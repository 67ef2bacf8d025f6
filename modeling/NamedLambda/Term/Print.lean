import NamedLambda.Term.Basic
import NamedLambda.Token.Basic

/-!
The canonical text of a term: every abstraction binds one variable, every application has two
operands, and both stand in parentheses.
-/
namespace NamedLambda.Term

/-- The text of a term in front of the text that follows it. -/
def write : Term → List Char → List Char
  | .var x, rest => x.name.toList ++ rest
  | .const c, rest => c.name.toList ++ rest
  | .lam x body, rest =>
    '(' :: lambdaSign :: ' ' :: (x.name.toList ++ ' ' :: '.' :: ' ' :: body.write (')' :: rest))
  | .app f a, rest => '(' :: f.write (' ' :: a.write (')' :: rest))

def render (t : Term) : String :=
  String.ofList (t.write [])

/-- What follows a term has no part in its text. -/
theorem write_eq_append (t : Term) (rest : List Char) : t.write rest = t.write [] ++ rest := by
  induction t generalizing rest with
  | var x => simp [write]
  | const c => simp [write]
  | lam x body ih =>
    rw [write, write, ih (')' :: rest), ih [')']]
    simp
  | app f a ihf iha =>
    rw [write, write, ihf, ihf (' ' :: a.write [')']), iha (')' :: rest), iha [')']]
    simp

@[simp] theorem toList_render (t : Term) : t.render.toList = t.write [] := by
  simp [render]

end NamedLambda.Term
