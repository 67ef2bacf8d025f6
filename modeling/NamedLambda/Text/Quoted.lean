import NamedLambda.Text.Extender
import NamedLambda.Text.Unprintable

/-!
Quoted characters and texts, as messages show them. What a reader could not see, or could take for
a delimiter, is written as an escape.
-/
namespace NamedLambda.Text

/-- The code point in lower-case hexadecimal, between braces. -/
def codePoint (c : Char) : List Char :=
  ['\\', 'u', '\x7b'] ++ Nat.toDigits 16 c.toNat ++ ['\x7d']

/-- The written form of a character inside quotes. -/
def escape (delimiter c : Char) : List Char :=
  match c with
  | '\x00' => ['\\', '0']
  | '\t' => ['\\', 't']
  | '\r' => ['\\', 'r']
  | '\n' => ['\\', 'n']
  | '\\' => ['\\', '\\']
  | _ =>
    if c = delimiter then ['\\', c]
    else if isExtender c || isUnprintable c then codePoint c
    else [c]

def quoted (delimiter : Char) (cs : List Char) : String :=
  String.ofList (delimiter :: cs.flatMap (escape delimiter) ++ [delimiter])

/-- A character between single quotes. -/
def quotedChar (c : Char) : String :=
  quoted '\x27' [c]

/-- A text between double quotes. -/
def quotedText (s : String) : String :=
  quoted '\x22' s.toList

end NamedLambda.Text
