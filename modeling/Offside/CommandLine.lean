import Offside.Execution.Run

/-! The command line: the source is the file named by the only argument, or standard input when there
is no argument. Failures are reported on standard error and give exit status 1. -/

namespace Offside.CommandLine

inductive Input where
  | standardInput
  | file (path : String)
  deriving DecidableEq, Repr

def Input.description : Input → String
  | .standardInput => "stdin"
  | .file path => path

inductive OpenError where
  | notFound
  | notDirectory
  | nameTooLong
  | other (message : String)
  deriving DecidableEq, Repr

def OpenError.message : OpenError → String
  | .notFound => "No such file or directory (os error 2)"
  | .notDirectory => "Not a directory (os error 20)"
  | .nameTooLong => "File name too long (os error 36)"
  | .other message => message

structure Result where
  status : Nat
  output : List UInt8
  errors : String

def input? : List String → Option Input
  | [] => some .standardInput
  | [path] => some (.file path)
  | _ => none

def success (output : List UInt8) : Result := ⟨0, output, ""⟩

def failure (output : List UInt8) (activity cause : String) : Result :=
  ⟨1, output, "Error: " ++ activity ++ "\n\nCaused by:\n    " ++ cause ++ "\n"⟩

def tooManyArguments : Result := ⟨1, [], "Error: Only one input file is supported\n"⟩

/- Far more nested calls than fit into memory. -/
def depthLimit : Nat := 0x100000000

def runInput (input : Input) (opened : Except OpenError Source) : Result :=
  match opened with
  | .error error => failure [] ("Opening " ++ input.description) error.message
  | .ok source =>
    let activity := "Running " ++ input.description
    match interpret depthLimit .unlimited source with
    | none => failure [] activity "Call depth exceeded"
    | some report =>
      match report.failure with
      | some error => failure report.sink.bytes activity error.message
      | none => success report.sink.bytes

def run {m : Type → Type} [Monad m] (opened : Input → m (Except OpenError Source))
    (args : List String) : m Result := do
  match input? args with
  | none => pure tooManyArguments
  | some input => return runInput input (← opened input)

end Offside.CommandLine
