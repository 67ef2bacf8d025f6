import NamedLambda.Report

/-!
The command line. Arguments are taken from left to right. An option that waits for its value is
settled only when the next option comes or the arguments end, so a fault of its value shows after
an argument that is not known at all.
-/
namespace NamedLambda

/-- The options that take a value. -/
inductive Setting where
  | expression | sourceFile | maxSteps | maxDepth
  deriving DecidableEq, Repr

/-- The options that take none. -/
inductive Switch where
  | showSteps | verbose
  deriving DecidableEq, Repr

/-- What an option's name stands for. -/
inductive OptionKey where
  | setting (o : Setting)
  | switch (o : Switch)
  | help
  | version
  deriving DecidableEq, Repr

/-- Why the arguments lead to no run. -/
inductive UsageStop where
  | helpAsked
  | versionAsked
  | unknownArgument (argument : String)
  /-- The option is given twice, or beside one that excludes it. -/
  | conflict (name : String)
  | missingValue (o : Setting)
  | malformedNumber (o : Setting) (value : String)
  /-- A value for an option that takes none. -/
  | unwantedValue (argument : String)
  deriving DecidableEq, Repr

structure Options where
  expression : Option String := none
  sourceFile : Option String := none
  maxSteps : Option Nat := none
  maxDepth : Option Nat := none
  showSteps : Bool := false
  verbose : Bool := false
  deriving DecidableEq, Repr

def Setting.name : Setting → String
  | .expression => "expression"
  | .sourceFile => "src-filepath"
  | .maxSteps => "max-steps"
  | .maxDepth => "max-depth"

def Switch.name : Switch → String
  | .showSteps => "show-steps"
  | .verbose => "verbose"

namespace UsageStop

def exitCode : UsageStop → Nat
  | .helpAsked | .versionAsked => 0
  | _ => 2

def versionText : String := "0.1.0"

def helpText : String :=
  "\n".intercalate
    ["Options:",
     "  -e, --expression <TEXT>    an expression to reduce",
     "  -s, --src-filepath <PATH>  a file with one expression on each line",
     "  -n, --max-steps <N>        the most passes for each expression (100)",
     "  -d, --max-depth <N>        the deepest nesting of an expression (256)",
     "      --show-steps           show every intermediate term",
     "  -v, --verbose              log every step",
     "  -h, --help                 show this help",
     "  -V, --version              show the version"]

def message : UsageStop → String
  | .helpAsked => helpText
  | .versionAsked => versionText
  | .unknownArgument argument => s!"unexpected argument {Text.quotedText argument}"
  | .conflict name => s!"the option --{name} cannot be used here"
  | .missingValue o => s!"a value is required for --{o.name}"
  | .malformedNumber o value => s!"invalid value {Text.quotedText value} for --{o.name}"
  | .unwantedValue argument => s!"unexpected value in {Text.quotedText argument}"

end UsageStop

namespace OptionKey

def ofLongName (name : String) : Option OptionKey :=
  [(Setting.expression.name, .setting .expression), (Setting.sourceFile.name, .setting .sourceFile),
   (Setting.maxSteps.name, .setting .maxSteps), (Setting.maxDepth.name, .setting .maxDepth),
   (Switch.showSteps.name, .switch .showSteps), (Switch.verbose.name, .switch .verbose),
   ("help", .help), ("version", .version)].lookup name

def ofLetter : Char → Option OptionKey
  | 'e' => some (.setting .expression)
  | 's' => some (.setting .sourceFile)
  | 'n' => some (.setting .maxSteps)
  | 'd' => some (.setting .maxDepth)
  | 'v' => some (.switch .verbose)
  | 'h' => some .help
  | 'V' => some .version
  | _ => none

end OptionKey

/-- A plus sign in front of a number says nothing. -/
def dropPlus : List Char → List Char
  | '+' :: digits => digits
  | digits => digits

/-- Numbers are one or more decimal digits, after a plus sign if there is one, below 2^64. -/
def readNumber (value : String) : Option Nat :=
  let digits := dropPlus value.toList
  let n := Nat.ofDigitChars 10 digits 0
  if digits ≠ [] ∧ digits.all Char.isDigit ∧ n < UInt64.size then some n else none

namespace Options

/-- The option already has a value. -/
def has (o : Options) : Setting → Bool
  | .expression => o.expression.isSome
  | .sourceFile => o.sourceFile.isSome
  | .maxSteps => o.maxSteps.isSome
  | .maxDepth => o.maxDepth.isSome

/-- Gives a value to an option that has none yet. -/
def assign (o : Options) (s : Setting) (value : String) : Except UsageStop Options :=
  if o.has s then .error (.conflict s.name)
  else
    match s, readNumber value with
    | .expression, _ => .ok { o with expression := some value }
    | .sourceFile, _ => .ok { o with sourceFile := some value }
    | .maxSteps, some n => .ok { o with maxSteps := some n }
    | .maxDepth, some n => .ok { o with maxDepth := some n }
    | _, none => .error (.malformedNumber s value)

/-- Turns on an option that is not on yet. -/
def turnOn (o : Options) : Switch → Except UsageStop Options
  | .showSteps =>
    if o.showSteps then .error (.conflict Switch.showSteps.name)
    else .ok { o with showSteps := true }
  | .verbose =>
    if o.verbose then .error (.conflict Switch.verbose.name) else .ok { o with verbose := true }

/-- An expression and a file exclude each other. -/
def checked (o : Options) : Except UsageStop Options :=
  if o.expression.isSome && o.sourceFile.isSome then .error (.conflict Setting.sourceFile.name)
  else .ok o

def settings (o : Options) : Settings :=
  let plain : Settings := {}
  ⟨o.maxSteps.getD plain.maxSteps, o.maxDepth.getD plain.maxDepth, o.showSteps⟩

/-- What is asked for, once the file that is named has been read. -/
def request (o : Options) (file : Option (Except FileError ByteArray)) : Request :=
  ⟨o.settings, o.expression, file⟩

end Options

/-- The arguments taken so far. -/
structure ArgumentScan where
  options : Options := {}
  /-- The last option, if its value may still come or is not yet looked at. -/
  pending : Option (Setting × Option String) := none
  /-- Only values may follow. -/
  optionsEnded : Bool := false

namespace ArgumentScan

/-- The pending option gets its value. -/
def settle (a : ArgumentScan) : Except UsageStop ArgumentScan :=
  match a.pending with
  | none => .ok a
  | some (o, none) => .error (.missingValue o)
  | some (o, some value) =>
    (a.options.assign o value).map fun os => { a with options := os, pending := none }

/-- An option with its value in the same argument. -/
def assign (a : ArgumentScan) (o : Setting) (value : String) : Except UsageStop ArgumentScan := do
  let a ← a.settle
  let os ← a.options.assign o value
  return { a with options := os }

/-- An option whose value is the next argument. -/
def await (a : ArgumentScan) (o : Setting) : Except UsageStop ArgumentScan := do
  let a ← a.settle
  return { a with pending := some (o, none) }

def turnOn (a : ArgumentScan) (o : Switch) : Except UsageStop ArgumentScan := do
  let a ← a.settle
  let os ← a.options.turnOn o
  return { a with options := os }

/-- Ends the scan, unless the pending option is at fault. -/
def stop (a : ArgumentScan) (s : UsageStop) : Except UsageStop ArgumentScan := do
  let _ ← a.settle
  throw s

/-- An argument that names an option in full, without its dashes. -/
def takeLong (a : ArgumentScan) (argument : String) (text : List Char) :
    Except UsageStop ArgumentScan :=
  match OptionKey.ofLongName (String.ofList (text.takeWhile (· ≠ '='))),
      text.dropWhile (· ≠ '=') with
  | none, _ => .error (.unknownArgument argument)
  | some (.setting o), [] => a.await o
  | some (.setting o), _ :: value => a.assign o (String.ofList value)
  | some (.switch o), [] => a.turnOn o
  | some .help, [] => a.stop .helpAsked
  | some .version, [] => a.stop .versionAsked
  | some _, _ :: _ => .error (.unwantedValue argument)

/-- An argument of one-letter options. The first that takes a value has the rest of the argument
for it, less an equals sign in front. -/
def takeLetters (argument : String) : List Char → ArgumentScan → Except UsageStop ArgumentScan
  | [], a => .ok a
  | c :: cs, a =>
    match OptionKey.ofLetter c, cs with
    | none, _ => .error (.unknownArgument argument)
    | some (.switch o), cs => do takeLetters argument cs (← a.turnOn o)
    | some .help, _ => a.stop .helpAsked
    | some .version, _ => a.stop .versionAsked
    | some (.setting o), [] => a.await o
    | some (.setting o), '=' :: value => a.assign o (String.ofList value)
    | some (.setting o), value => a.assign o (String.ofList value)

/-- An argument that is no option: the value that the pending option waits for. -/
def takePlain (a : ArgumentScan) (argument : String) : Except UsageStop ArgumentScan :=
  match a.pending with
  | some (o, none) => .ok { a with pending := some (o, some argument) }
  | _ => .error (.unknownArgument argument)

def take (a : ArgumentScan) (argument : String) : Except UsageStop ArgumentScan :=
  if a.optionsEnded then .error (.unknownArgument argument)
  else
    match argument.toList with
    | ['-', '-'] => .ok { a with optionsEnded := true }
    | '-' :: '-' :: text => a.takeLong argument text
    | '-' :: c :: cs => takeLetters argument (c :: cs) a
    | _ => a.takePlain argument

end ArgumentScan

/-- The options that the arguments give. -/
def Options.ofArguments (arguments : List String) : Except UsageStop Options := do
  let a ← arguments.foldlM ArgumentScan.take {}
  let a ← a.settle
  a.options.checked

end NamedLambda
