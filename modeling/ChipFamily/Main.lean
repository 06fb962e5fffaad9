import ChipFamily.CommandLine.Run

namespace ChipFamily.CommandLine

/-- The system gives the code of an error with either sign. -/
def readError : IO.Error → ReadError
  | .noFileOrDirectory .. => .notFound
  | .permissionDenied .. => .other "Permission denied (os error 13)"
  | .inappropriateType _ code _ =>
    if code = 20 ∨ code = -20 then .notDirectory else .isDirectory
  | .invalidArgument _ 36 _ | .invalidArgument _ 4294967260 _ => .nameTooLong
  | e => .other (toString e)

def readFile (path : String) : IO (Except ReadError (List UInt8)) := do
  try
    let bytes ← IO.FS.readBinFile path
    return .ok bytes.toList
  catch e => return .error (readError e)

end ChipFamily.CommandLine

open ChipFamily.CommandLine in
/-- Reads the files that the options name before anything else. -/
def main (args : List String) : IO UInt32 := do
  let paths := (Options.ofArgs args).toOption.elim [] Options.paths
  let contents ← paths.mapM fun path => return (path, ← readFile path)
  let outcome := run (fun path => (contents.lookup path).getD (.error .notFound)) args
  (← IO.getStdout).putStr outcome.stdout
  (← IO.getStderr).putStr outcome.stderr
  return outcome.exitCode.toUInt32
