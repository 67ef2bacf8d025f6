import NamedLambda.Name.Basic
import NamedLambda.Token.Basic

/-!
Maximal munch. Each class of tokens has a reach: the number of characters that its longest token
takes from the front of a text. The next token belongs to the class that reaches furthest, and of
several that reach equally far to the first in the order of `TokenClass.all`.
-/
namespace NamedLambda

/-- Blanks between tokens are these four ASCII characters only. -/
def isSeparator (c : Char) : Bool :=
  c == ' ' || c == '\t' || c == '\r' || c == '\n'

/-- The spellings of the lambda, the longest first. -/
def lambdaSpellings : List (List Char) :=
  ["Lambda".toList, ['L'], [lambdaSign]]

namespace TokenClass

/-- Every class, those that win a tie first. -/
def all : List TokenClass :=
  [.blank, .openParen, .closeParen, .dot, .lambda, .constantName, .variableName]

/-- One if the text begins with the character. -/
def reachOfChar (c : Char) : List Char → Nat
  | [] => 0
  | d :: _ => if d = c then 1 else 0

/-- The length of the first of the spellings that the text begins with. -/
def reachOfSpelling (spellings : List (List Char)) (cs : List Char) : Nat :=
  ((spellings.find? (·.isPrefixOf cs)).map List.length).getD 0

/-- The length of the longest variable name that the text begins with. -/
def reachOfVariable : List Char → Nat
  | [] => 0
  | c :: cs => if c.isLower then (cs.takeWhile isNameTail).length + 1 else 0

/-- How many characters the longest token of the class takes from the front of the text; none if no
token of the class begins there. -/
def reach : TokenClass → List Char → Nat
  | .blank, cs => (cs.takeWhile isSeparator).length
  | .openParen, cs => reachOfChar '(' cs
  | .closeParen, cs => reachOfChar ')' cs
  | .dot, cs => reachOfChar '.' cs
  | .lambda, cs => reachOfSpelling lambdaSpellings cs
  | .constantName, cs => (cs.takeWhile Char.isUpper).length
  | .variableName, cs => reachOfVariable cs

/-- The first of the classes that reach furthest, with its reach. -/
def furthest (cs : List Char) : List TokenClass → Option (TokenClass × Nat)
  | [] => none
  | k :: ks =>
    match furthest cs ks with
    | some (j, n) => if k.reach cs < n then some (j, n) else some (k, k.reach cs)
    | none => if k.reach cs = 0 then none else some (k, k.reach cs)

theorem furthest_pos {cs : List Char} {ks : List TokenClass} {k : TokenClass} {n : Nat}
    (h : furthest cs ks = some (k, n)) : 0 < n := by
  induction ks generalizing k n with
  | nil => simp [furthest] at h
  | cons j ks ih =>
    simp only [furthest] at h
    split at h
    · next i m hm =>
      have := ih hm
      split at h <;> simp only [Option.some.injEq, Prod.mk.injEq] at h <;> omega
    · split at h
      · simp at h
      · simp only [Option.some.injEq, Prod.mk.injEq] at h
        omega

end TokenClass

/-- The class of the next token, and how many characters it takes. -/
def munch (cs : List Char) : Option (TokenClass × Nat) :=
  TokenClass.furthest cs TokenClass.all

theorem munch_pos {cs : List Char} {k : TokenClass} {n : Nat} (h : munch cs = some (k, n)) :
    0 < n :=
  TokenClass.furthest_pos h

@[simp] theorem munch_nil : munch [] = none := rfl

end NamedLambda
