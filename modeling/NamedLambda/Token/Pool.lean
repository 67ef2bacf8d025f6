import NamedLambda.Token.Lexer

/-!
A growing collection of lexers over one text, each at a place of its own. Lexers are numbered in
the order in which they joined, and a step on one leaves the others where they are.
-/
namespace NamedLambda

/-- What can be done with the lexer of a given number. -/
inductive LexerCommand where
  | next (i : Nat)
  | rest (i : Nat)
  | restart (i : Nat)
  | clone (i : Nat)
  deriving DecidableEq, Repr

def LexerCommand.number : LexerCommand → Nat
  | .next i | .rest i | .restart i | .clone i => i

inductive LexerAnswer where
  | item (item : Option LexItem)
  | items (items : List LexItem)
  | restarted
  | joined (i : Nat)
  | noSuchLexer

structure LexerPool where
  lexers : List Lexer

namespace LexerPool

/-- A pool with one lexer at the start of the text. -/
def start (text : String) (keepBlanks : Bool) : LexerPool :=
  ⟨[Lexer.start text.toList keepBlanks]⟩

def set (p : LexerPool) (i : Nat) (l : Lexer) : LexerPool :=
  ⟨p.lexers.set i l⟩

def add (p : LexerPool) (l : Lexer) : LexerPool :=
  ⟨p.lexers ++ [l]⟩

/-- The lexer `l`, which is number `i`, answers; taking the rest uses it up, and a clone joins the
pool at the place of its model. -/
def answer (p : LexerPool) (l : Lexer) : LexerCommand → LexerAnswer × LexerPool
  | .next i => (.item l.next.1, p.set i l.next.2)
  | .rest i => (.items l.items, p.set i l.exhaust)
  | .restart i => (.restarted, p.set i l.restart)
  | .clone _ => (.joined p.lexers.length, p.add l)

def step (p : LexerPool) (c : LexerCommand) : LexerAnswer × LexerPool :=
  match p.lexers[c.number]? with
  | none => (.noSuchLexer, p)
  | some l => p.answer l c

/-- The answers to a list of commands, in order. -/
def run (p : LexerPool) : List LexerCommand → List LexerAnswer
  | [] => []
  | c :: cs => (p.step c).1 :: (p.step c).2.run cs

@[simp] theorem run_nil (p : LexerPool) : p.run [] = [] := rfl

@[simp] theorem run_cons (p : LexerPool) (c : LexerCommand) (cs : List LexerCommand) :
    p.run (c :: cs) = (p.step c).1 :: (p.step c).2.run cs := rfl

end LexerPool

end NamedLambda
