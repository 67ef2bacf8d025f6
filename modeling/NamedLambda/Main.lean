import NamedLambda.CommandLine

/-! The program: reads the arguments and the file they name, and prints the report. -/
namespace NamedLambda

/-- The system's number for a failure, which some calls give with the other sign. -/
def systemNumber (code : UInt32) : Nat :=
  (min code (0 - code)).toNat

/-- What the system says of a file that could not be read. -/
def fileError : IO.Error → FileError
  | .noFileOrDirectory _ code _ => .ofNumber (systemNumber code)
  | .inappropriateType _ code _ => .ofNumber (systemNumber code)
  | .permissionDenied _ code _ => .ofNumber (systemNumber code)
  | .invalidArgument _ code _ => .ofNumber (systemNumber code)
  | _ => .unreadable

/-- The bytes of a file. -/
def readBytes (path : String) : IO (Except FileError ByteArray) := do
  try
    return .ok (← IO.FS.readBinFile path)
  catch e =>
    return .error (fileError e)

/-- Ends with 0 after a report, 1 after a failure and 2 after arguments that make no sense. -/
def serve (arguments : List String) : IO UInt32 := do
  match Options.ofArguments arguments with
  | .error stop =>
    if stop.exitCode = 0 then IO.println stop.message else IO.eprintln stop.message
    return stop.exitCode.toUInt32
  | .ok options =>
    let file ← options.sourceFile.mapM readBytes
    let request := options.request file
    if options.verbose then
      if let .ok log := request.withSteps.report then IO.eprintln log
    match request.report with
    | .error e =>
      IO.eprintln e.message
      return 1
    | .ok report =>
      IO.println report
      return 0

end NamedLambda

def main (arguments : List String) : IO UInt32 :=
  NamedLambda.serve arguments
