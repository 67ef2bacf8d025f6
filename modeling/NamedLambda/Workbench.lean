import NamedLambda.Parse.Reader
import NamedLambda.Term.Print
import NamedLambda.Reduction

/-!
A workbench: a stack of terms, and commands that put terms onto it, build larger ones of them and
change those on top. A command that fails leaves the stack as it was.
-/
namespace NamedLambda

inductive BenchCommand where
  | parse (text : String) (limit : Nat)
  | var (name : String)
  | const (name : String)
  /-- Binds a variable over the top. -/
  | lam (name : String)
  | rename (old new : String) (limit : Nat)
  | contract (limit : Nat)
  | step (limit : Nat)
  | reduce (bound limit : Nat)
  /-- Reads the text of the top again. -/
  | reparse (limit : Nat)
  | duplicate
  | drop
  | depth
  | free
  | mentioned
  /-- Applies the second term to the top. -/
  | apply
  /-- Puts the top for a variable in the second term. -/
  | replace (old : String) (limit : Nat)
  | subst (old : String) (limit : Nat)
  | exchange
  | same
  deriving DecidableEq, Repr

inductive BenchError where
  /-- The stack has fewer terms than the command needs. -/
  | underflow
  | name (e : MalformedName)
  | parse (e : ParseError)
  | term (e : TermError)
  deriving DecidableEq, Repr

def BenchError.message : BenchError → String
  | .underflow => "stack underflow"
  | .name e => e.message
  | .parse e => e.message
  | .term e => e.message

inductive BenchAnswer where
  | term (t : Term)
  /-- A step found no redex. -/
  | noRedex
  | reduction (r : Reduction)
  | count (n : Nat)
  | names (names : List String)
  | verdict (yes : Bool)
  deriving DecidableEq, Repr

/-- The terms, the top first. -/
abbrev Bench := List Term

namespace Bench

def variableNamed (name : String) : Except BenchError Variable :=
  (Variable.ofText name).mapError .name

/-- A result that is shown and put on the stack. -/
def push (rest : Bench) (t : Term) : BenchAnswer × Bench :=
  (.term t, t :: rest)

/-- Commands that need nothing on the stack. -/
def stepOnAny (bench : Bench) : BenchCommand → Except BenchError (BenchAnswer × Bench)
  | .parse text limit => ((Term.parse limit text).mapError .parse).map bench.push
  | .var name => (variableNamed name).map (bench.push ∘ .var)
  | .const name => ((Constant.ofText name).mapError .name).map (bench.push ∘ .const)
  | _ => .error .underflow

/-- Commands that need one term. -/
def stepOnTop (t : Term) (rest : Bench) : BenchCommand → Except BenchError (BenchAnswer × Bench)
  | .lam name => (variableNamed name).map fun x => rest.push (.lam x t)
  | .rename old new limit => do
    let x ← variableNamed old
    let y ← variableNamed new
    ((t.rename limit x y).mapError .term).map rest.push
  | .contract limit => ((t.contract limit).mapError .term).map rest.push
  | .step limit =>
    ((t.step limit).mapError .term).map fun
      | none => (.noRedex, t :: rest)
      | some u => rest.push u
  | .reduce bound limit =>
    ((t.reduce limit bound).outcome.mapError .term).map fun r => (.reduction r, r.term :: rest)
  | .reparse limit => ((Term.parse limit t.render).mapError .parse).map rest.push
  | .duplicate => .ok (.term t, t :: t :: rest)
  | .drop => .ok (.count rest.length, rest)
  | .depth => .ok (.count t.depth, t :: rest)
  | .free => .ok (.names (Variable.namesInOrder t.free), t :: rest)
  | .mentioned => .ok (.names (Variable.namesInOrder t.mentioned), t :: rest)
  | c => stepOnAny (t :: rest) c

/-- Commands that need two terms. -/
def stepOnTwo (t u : Term) (rest : Bench) : BenchCommand → Except BenchError (BenchAnswer × Bench)
  | .apply => .ok (rest.push (.app u t))
  | .replace old limit => do
    let x ← variableNamed old
    ((u.replace limit x t).mapError .term).map rest.push
  | .subst old limit => do
    let x ← variableNamed old
    ((u.subst limit x t).mapError .term).map rest.push
  | .exchange => .ok (.term u, u :: t :: rest)
  | .same => .ok (.verdict (u == t), t :: u :: rest)
  | c => stepOnTop t (u :: rest) c

/-- One command, with what it answers and the stack after it. -/
def step (bench : Bench) (c : BenchCommand) : Except BenchError (BenchAnswer × Bench) :=
  match bench with
  | [] => stepOnAny [] c
  | [t] => stepOnTop t [] c
  | t :: u :: rest => stepOnTwo t u rest c

/-- The answers to a list of commands, in order. -/
def run (bench : Bench) : List BenchCommand → List (Except BenchError BenchAnswer)
  | [] => []
  | c :: cs =>
    match bench.step c with
    | .error e => .error e :: run bench cs
    | .ok (answer, bench') => .ok answer :: run bench' cs

end Bench

end NamedLambda
