import NamedLambda.Parse.Error
import NamedLambda.Token.Lexer

/-!
Reading a term, token by token. The grammar is

    term  =  variable | constant | ( lambda variable⁺ . term ) | ( term term⁺ )

A reader holds what is still open to the left, innermost first, and what may stand at its place.
Every term is read at the depth that its root will have in the whole, which is what the limit is
held against: before a term begins, and again when one more operand pushes the others down.
-/
namespace NamedLambda

/-- A construct whose reading waits for a term inside it. -/
inductive Frame where
  /-- The first operand of an application whose root is at depth `d`. -/
  | function (d : Nat)
  /-- One more operand of such an application. -/
  | operand (d : Nat) (spine : Term)
  /-- The body under these binders. -/
  | body (xs : List Variable)
  deriving DecidableEq, Repr

/-- What may stand next. -/
inductive Place where
  /-- A term with its root at depth `d`. -/
  | term (d : Nat)
  /-- The inside of a parenthesis that opens such a term. -/
  | group (d : Nat)
  /-- Binders or a dot; the lambda stands at the position. -/
  | binders (d : Nat) (position : Nat) (xs : List Variable)
  /-- The parenthesis that closes an abstraction. -/
  | bodyEnd (t : Term)
  /-- An operand, or the parenthesis that closes the application. -/
  | operands (d : Nat) (spine : Term)
  /-- Nothing: the term is complete. -/
  | finished (t : Term)
  deriving DecidableEq, Repr

structure Reader where
  place : Place
  frames : List Frame
  deriving DecidableEq, Repr

namespace Reader

/-- Before the first token. -/
def start : Reader :=
  ⟨.term 1, []⟩

/-- A complete term is handed to the innermost frame. -/
def deliver (limit : Nat) (t : Term) : List Frame → Except ParseError Reader
  | [] => .ok ⟨.finished t, []⟩
  | .function d :: frames => .ok ⟨.term (d + 1), .operand d t :: frames⟩
  | .operand d spine :: frames =>
    if d - 1 + (Term.app spine t).depth ≤ limit then .ok ⟨.operands d (.app spine t), frames⟩
    else .error (.tooDeep limit)
  | .body xs :: frames => .ok ⟨.bodyEnd (Term.lams xs t), frames⟩

/-- The first token of a term at depth `d`. -/
def begin (limit d : Nat) (tok : Token) (frames : List Frame) : Except ParseError Reader :=
  match tok.cls with
  | .openParen => .ok ⟨.group d, frames⟩
  | .variableName => deliver limit (.var ⟨tok.text⟩) frames
  | .constantName => deliver limit (.const ⟨tok.text⟩) frames
  | _ => .error (.unexpectedToken tok.text tok.position)

/-- The reader after one more token. -/
def accept (limit : Nat) (r : Reader) (tok : Token) : Except ParseError Reader :=
  match r.place with
  | .term d => begin limit d tok r.frames
  | .group d =>
    if tok.cls = .lambda then .ok ⟨.binders d tok.position [], r.frames⟩
    else if d + 1 ≤ limit then begin limit (d + 1) tok (.function d :: r.frames)
    else .error (.tooDeep limit)
  | .binders d position xs =>
    match tok.cls with
    | .variableName => .ok ⟨.binders d position (xs ++ [⟨tok.text⟩]), r.frames⟩
    | .dot =>
      if xs = [] then .error (.noBinders position)
      else if d + xs.length ≤ limit then .ok ⟨.term (d + xs.length), .body xs :: r.frames⟩
      else .error (.tooDeep limit)
    | _ => .error (.unexpectedToken tok.text tok.position)
  | .bodyEnd t =>
    if tok.cls = .closeParen then deliver limit t r.frames
    else .error (.unclosed (some tok.text) tok.position)
  | .operands d spine =>
    if tok.cls = .closeParen then deliver limit spine r.frames
    else begin limit (d + 1) tok (.operand d spine :: r.frames)
  | .finished _ => .error (.trailing tok.text tok.position)

/-- The reader after the items of a lexer. -/
def acceptAll (limit : Nat) : Reader → List LexItem → Except ParseError Reader
  | r, [] => .ok r
  | _, .error e :: _ => .error (.lexical e)
  | r, .ok tok :: items =>
    match r.accept limit tok with
    | .error e => .error e
    | .ok r' => acceptAll limit r' items

/-- The term read, if a text of `length` characters may end at this place. -/
def finish (limit length : Nat) (r : Reader) : Except ParseError Term :=
  match r.place with
  | .term _ | .binders .. => .error .endOfText
  | .group d => if d + 1 ≤ limit then .error .endOfText else .error (.tooDeep limit)
  | .bodyEnd _ | .operands .. => .error (.unclosed none length)
  | .finished t => .ok t

end Reader

/-- Reads a whole text as one term within the limit. -/
def Term.parse (limit : Nat) (text : String) : Except ParseError Term :=
  if 1 ≤ limit then
    match Reader.start.acceptAll limit (Lexer.start text.toList false).items with
    | .error e => .error e
    | .ok r => r.finish limit text.toList.length
  else .error (.tooDeep limit)

end NamedLambda
