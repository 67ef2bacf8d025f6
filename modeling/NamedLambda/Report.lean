import NamedLambda.Parse.Reader
import NamedLambda.Reduction
import NamedLambda.Term.Print
import NamedLambda.Text.Blank
import NamedLambda.Text.Lines

/-!
Reports on expressions: each is printed, reduced, and printed again with the number of its steps.
The expressions are one text, or the lines of a file that are neither blank nor comments. The first
one that fails is all that is reported.
-/
namespace NamedLambda

/-- How expressions are read, reduced and shown. -/
structure Settings where
  maxSteps : Nat := 100
  maxDepth : Nat := defaultLimit
  showSteps : Bool := false
  deriving DecidableEq, Repr

/-- Why a file could not be read. -/
inductive FileError where
  /-- The reason, and the number, that the system gives. -/
  | refused (reason : String) (number : Nat)
  | notText
  deriving DecidableEq, Repr

namespace FileError

def missing : FileError :=
  .refused "No such file or directory" 2

def forbidden : FileError :=
  .refused "Permission denied" 13

def notDirectory : FileError :=
  .refused "Not a directory" 20

def isDirectory : FileError :=
  .refused "Is a directory" 21

def nameTooLong : FileError :=
  .refused "File name too long" 36

def unreadable : FileError :=
  .refused "Input/output error" 5

/-- The failure that the system has this number for. -/
def ofNumber : Nat → FileError
  | 2 => missing
  | 13 => forbidden
  | 20 => notDirectory
  | 21 => isDirectory
  | 36 => nameTooLong
  | _ => unreadable

def message : FileError → String
  | .refused reason number => s!"{reason} (os error {number})"
  | .notText => "stream did not contain valid UTF-8"

end FileError

/-- What is to be reported on: an expression, or else a file, given by its bytes. -/
structure Request where
  settings : Settings
  expression : Option String
  file : Option (Except FileError ByteArray)

inductive RequestFault where
  | zeroDepth
  | nothingGiven
  deriving DecidableEq, Repr

def RequestFault.message : RequestFault → String
  | .zeroDepth => "--max-depth must be at least 1"
  | .nothingGiven => "one of --expression or --src-filepath is required"

inductive ReportError where
  | request (fault : RequestFault)
  | file (e : FileError)
  | parse (line : Nat) (e : ParseError)
  | reduction (line : Nat) (e : TermError)
  deriving DecidableEq, Repr

def ReportError.message : ReportError → String
  | .request fault => s!"Reducer configuration error: {fault.message}"
  | .file e => s!"Input file error: {e.message}"
  | .parse line e => s!"Parse error on line {line}: {e.message}"
  | .reduction line e => s!"Reduction error on line {line}: {e.message}"

/-- An expression with the number of its line. -/
abbrev NumberedLine := Nat × String

/-- Neither empty nor a comment. -/
def isExpressionLine : List Char → Bool
  | [] => false
  | c :: _ => c != '#'

/-- The expressions among the lines of a text: trimmed, and numbered from one by their lines. -/
def expressionLines (text : String) : List NumberedLine :=
  let numbered := ((Text.lines text.toList).map Text.trim).zipIdx
  (numbered.filter fun (line, _) => isExpressionLine line).map fun (line, i) =>
    (i + 1, String.ofList line)

namespace Request

/-- The same request with every intermediate term shown. -/
def withSteps (r : Request) : Request :=
  { r with settings := { r.settings with showSteps := true } }

/-- The expressions to report on. One that is given as such is the first line, just as it is. -/
def expressions (r : Request) : Except ReportError (List NumberedLine) :=
  match r.expression, r.file with
  | some text, _ => .ok [(1, text)]
  | none, none => .error (.request .nothingGiven)
  | none, some (.error e) => .error (.file e)
  | none, some (.ok bytes) =>
    match String.fromUTF8? bytes with
    | none => .error (.file .notText)
    | some text => .ok (expressionLines text)

end Request

/-- The line of a term on the way. -/
def stepLine (t : Term) : String :=
  "  -> " ++ t.render

/-- The line of the term at the end. -/
def Reduction.line (r : Reduction) : String :=
  if r.isNormal then s!"=> {r.term.render} ({r.steps} steps)"
  else s!"=> {r.term.render} (stopped after {r.steps} steps, not in normal form)"

namespace Settings

/-- The lines of the report on one expression. -/
def block (s : Settings) (numbered : NumberedLine) : Except ReportError (List String) := do
  let t ← (Term.parse s.maxDepth numbered.2).mapError (.parse numbered.1)
  let run := t.reduce s.maxDepth s.maxSteps
  let r ← run.outcome.mapError (.reduction numbered.1)
  let way := if s.showSteps then run.trace.map stepLine else []
  return t.render :: way ++ [r.line]

/-- The lines of the report on several expressions. -/
def blocks (s : Settings) : List NumberedLine → Except ReportError (List String)
  | [] => .ok []
  | numbered :: later => do
    let block ← s.block numbered
    let others ← s.blocks later
    return block ++ others

end Settings

namespace Request

/-- The whole report, its lines parted by newlines. -/
def report (r : Request) : Except ReportError String :=
  if r.settings.maxDepth = 0 then .error (.request .zeroDepth)
  else do
    let numbered ← r.expressions
    let lines ← r.settings.blocks numbered
    return "\n".intercalate lines

end Request

end NamedLambda
