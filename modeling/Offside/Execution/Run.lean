import Offside.Execution.Dispatch
import Offside.Grammar.Statement

/-! Running whole programs: once from a source, or statement by statement in a session that keeps its
variables from one source to the next. -/

namespace Offside

inductive ProgramError where
  | lexical (error : LexError)
  | parse (error : ParseError)
  | runtime (error : RuntimeError)
  deriving DecidableEq, Repr

namespace ProgramError

def ofParse : ParseError → ProgramError
  | .lexical error => .lexical error
  | error => .parse error

def message : ProgramError → String
  | lexical error => error.message
  | parse error => error.message
  | runtime error => error.message

end ProgramError

namespace Program

def run (depth : Nat) (program : Program) : Exec Unit := do
  Exec.record (.runStarted program.statements.length)
  Exec.inScope .empty do
    let _ ← execBlock program.classes (.within program.classes depth) program.statements
    let globals := (← Machine.get).scope
    Exec.record (.runFinished globals.size)

end Program

structure RunReport where
  failure : Option ProgramError
  sink : Sink
  trace : Trace

/-- Reads a program and runs it, with calls nested at most `depth` deep. There is no report for a
program that needs more. -/
def interpret (depth : Nat) (sink : Sink) (source : Source) : Option RunReport :=
  match Program.parse source with
  | .exhausted => none
  | .failed error parser => some ⟨some (.ofParse error), sink, parser.trace⟩
  | .done program parser =>
    match program.run depth { State.initial sink with trace := parser.trace } with
    | .exhausted => none
    | .failed error state => some ⟨some (.runtime error), state.sink, state.trace⟩
    | .done _ state => some ⟨none, state.sink, state.trace⟩

structure Session where
  classes : ClassTable
  state : State

namespace Session

def start (sink : Sink) : Session := ⟨.empty, .initial sink⟩

def read (session : Session) (source : Source) :
    Outcome ParseError Session (List Stmt) :=
  match Program.parseWith session.classes.hideAll source with
  | .exhausted => .exhausted
  | .failed error _ => .failed error session
  | .done program _ => .done program.statements { session with classes := program.classes }

def step (depth : Nat) (session : Session) (statement : Stmt) :
    Outcome RuntimeError Session Value :=
  (statement.exec session.classes (.within session.classes depth) session.state).mapState
    fun state => { session with state := state }

end Session

end Offside
