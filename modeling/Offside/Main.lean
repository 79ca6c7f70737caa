import Offside.CommandLine

/-! The program: opens what the arguments ask for, runs it and prints. -/

open Offside Offside.CommandLine

/- A directory can be opened but not read: that failure has code 21, the same kind with another code
is met on the way to the file. -/
def openFile (path : String) : IO (Except OpenError Source) := do
  try
    let bytes ← IO.FS.readBinFile path
    return .ok (.ofBytes bytes.data.toList)
  catch error =>
    match error with
    | .noFileOrDirectory .. => return .error .notFound
    | .inappropriateType _ 21 _ => return .ok .ofDirectory
    | .inappropriateType .. => return .error .notDirectory
    | .invalidArgument .. => return .error .nameTooLong
    | other => return .error (.other (toString other))

def openInput : Input → IO (Except OpenError Source)
  | .standardInput => do
    let bytes ← (← IO.getStdin).readBinToEnd
    return .ok (.ofBytes bytes.data.toList)
  | .file path => openFile path

def main (args : List String) : IO UInt32 := do
  let result ← run openInput args
  (← IO.getStdout).write ⟨result.output.toArray⟩
  (← IO.getStderr).putStr result.errors
  return UInt32.ofNat result.status
