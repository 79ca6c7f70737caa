import Offside.Proofs.Execution.Simulation
import Offside.Proofs.Grammar.Recognition
import Offside.Proofs.Grammar.Shape

/-! Returning by a signal. Here a statement does not end a block by having a value: it raises a signal,
and `return` alone raises one, when its value is not `None`. In a program that was parsed this comes
to the same, at every depth and through every call. -/
namespace Offside

inductive Signal where
  | completed
  | returned (value : Value)
  deriving DecidableEq

namespace Signal

def ofResult (value : Value) : Signal :=
  if value = .none then .completed else .returned value

def value : Signal → Value
  | completed => .none
  | returned value => value

@[simp] theorem valueOfResult (result : Value) : (ofResult result).value = result := by
  unfold ofResult
  split
  · rename_i none
    exact none.symm
  · rfl

end Signal

mutual

/-- Executes a statement for its signal. Operands are executed for their values: no statement stands
among them. -/
def Stmt.perform (classes : ClassTable) (dispatch : Dispatch) : Stmt → Exec Signal
  | .result value => do
    let value ← value.exec classes dispatch
    pure (.ofResult value)
  | .block body => performBlock classes dispatch body
  | .branch condition yes no => do
    let condition ← condition.exec classes dispatch
    if condition.truthy then yes.perform classes dispatch else performElse classes dispatch no
  | statement => do
    let _ ← statement.exec classes dispatch
    pure .completed

def performBlock (classes : ClassTable) (dispatch : Dispatch) : List Stmt → Exec Signal
  | [] => pure .completed
  | statement :: rest => do
    match ← statement.perform classes dispatch with
    | .completed => performBlock classes dispatch rest
    | .returned value => pure (.returned value)

def performElse (classes : ClassTable) (dispatch : Dispatch) : Option Stmt → Exec Signal
  | none => pure .completed
  | some statement => statement.perform classes dispatch

end

def Stmt.answer (classes : ClassTable) (dispatch : Dispatch) (body : Stmt) : Exec Value :=
  Signal.value <$> body.perform classes dispatch

def Stmt.signalOf (statement : Stmt) (value : Value) : Signal :=
  if statement.endsBlock && value != .none then .returned value else .completed

section Agreement

variable {classes : ClassTable} {dispatch : Dispatch}

theorem performPlain {statement : Stmt} (plain : statement.endsBlock = false) :
    statement.perform classes dispatch =
      statement.signalOf <$> statement.exec classes dispatch := by
  have completed : statement.perform classes dispatch =
      (fun _ => .completed) <$> statement.exec classes dispatch := by
    cases statement with
    | result | block | branch => cases plain
    | _ => simp only [Stmt.perform, map_eq_pure_bind]
  rw [completed]
  congr 1
  funext value
  simp [Stmt.signalOf, plain]

theorem signalOfEnding {statement : Stmt} (ends : statement.endsBlock = true) :
    statement.signalOf = Signal.ofResult := by
  funext value
  unfold Stmt.signalOf Signal.ofResult
  by_cases none : value = .none <;> simp [none, ends]

theorem Stmt.Formed.signalOfBody {body : Stmt} (formed : body.Formed .body) :
    body.signalOf = Signal.ofResult := by
  cases formed
  exact signalOfEnding rfl

theorem performBlockOf {body : List Stmt}
    (each : ∀ statement ∈ body, statement.perform classes dispatch =
      statement.signalOf <$> statement.exec classes dispatch) :
    performBlock classes dispatch body = Signal.ofResult <$> execBlock classes dispatch body := by
  induction body with
  | nil => rw [performBlock, execBlock, map_pure]; rfl
  | cons statement rest ih =>
    obtain ⟨head, tail⟩ := List.forall_mem_cons.mp each
    rw [performBlock, execBlock, head, bind_map_left, map_bind]
    congr 1
    funext value
    rw [Stmt.signalOf]
    cases stops : statement.endsBlock && value != .none with
    | true =>
      have some : value ≠ .none := by simpa using (Bool.and_eq_true_iff.mp stops).2
      simp [Signal.ofResult, some]
    | false => simpa using ih tail

theorem performFormed {role : Role} {statement : Stmt} (formed : statement.Formed role)
    (performed : role ≠ .expression) : statement.perform classes dispatch =
      statement.signalOf <$> statement.exec classes dispatch := by
  induction formed with
  | @called tree _ call =>
    refine performPlain ?_
    cases tree with
    | result | block | branch => cases call
    | _ => rfl
  | assign | setField | print | define => exact performPlain rfl
  | result => rw [Stmt.perform, Stmt.exec, signalOfEnding rfl, map_eq_pure_bind]
  | branch _ suite _ positive =>
    rw [Stmt.perform, Stmt.exec, signalOfEnding rfl, map_bind, positive (by decide),
      suite.signalOfBody]
    congr 1
    funext condition
    split
    · rfl
    · rw [performElse, execElse, map_pure]
      rfl
  | branchElse _ suite other _ positive negative =>
    rw [Stmt.perform, Stmt.exec, signalOfEnding rfl, map_bind, positive (by decide),
      suite.signalOfBody]
    congr 1
    funext condition
    split
    · rfl
    · rw [performElse, execElse, negative (by decide), other.signalOfBody]
  | block _ _ inside =>
    rw [Stmt.perform, Stmt.exec, signalOfEnding rfl]
    exact performBlockOf fun statement member => inside statement member (by decide)
  | _ => exact absurd rfl performed

end Agreement

def Value.invokeBy (classes : ClassTable) (run : Stmt → Exec Value) (receiver : Value)
    (name : String) (args : List Value) : Exec Value := do
  let address ← Exec.requireObject classes "self" receiver
  let heap := (← Machine.get).heap
  let cls := heap.className classes address
  match heap.methodTaking? classes address name args.length with
  | .none => Machine.fail (.noMethod cls name args.length)
  | .some method => do
    Exec.record (.methodCalled cls name)
    Exec.inScope (callScope receiver method.params args) (run method.body)

def Dispatch.signalling (classes : ClassTable) : Nat → Dispatch
  | 0 => .within classes 0
  | depth + 1 =>
    ⟨fun receiver name args =>
        receiver.invokeBy classes (Stmt.answer classes (signalling classes depth)) name args,
      fun value => value.display classes (signalling classes depth)⟩

namespace Program

def runSignalling (depth : Nat) (program : Program) : Exec Unit :=
  program.runBy (performBlock program.classes (.signalling program.classes depth))

inductive HasBlock (program : Program) : List Stmt → Prop where
  | top : HasBlock program program.statements
  | method {id : ClassId} {cls : ClassDef} {method : Method} {body : List Stmt}
      (declared : program.classes.get? id = some cls) (member : method ∈ cls.declared)
      (held : method.body = .block body) : HasBlock program body
  | yes {outer body : List Stmt} {condition : Stmt} {no : Option Stmt}
      (block : HasBlock program outer) (member : .branch condition (.block body) no ∈ outer) :
      HasBlock program body
  | no {outer body : List Stmt} {condition yes : Stmt} (block : HasBlock program outer)
      (member : .branch condition yes (some (.block body)) ∈ outer) : HasBlock program body

end Program

theorem answerFormed {classes : ClassTable} {dispatch : Dispatch} {body : Stmt}
    (formed : body.Formed .body) : body.answer classes dispatch = body.exec classes dispatch := by
  rw [Stmt.answer, performFormed formed (by decide), formed.signalOfBody, Functor.map_map]
  simp

/- Every body that a call can come to is a block, but for the one of the added constructor, which has
nothing to return. -/
theorem answerMethod {classes : ClassTable} {dispatch : Dispatch} (made : classes.WellMade)
    {name : String} {id : ClassId} {entry : MethodEntry}
    (found : MethodEntry.find? name (classes.methodsOf id) = some entry) :
    entry.method.body.answer classes dispatch = entry.method.body.exec classes dispatch := by
  rcases made.body found with added | formed
  · rw [added]
    rfl
  · exact answerFormed formed

theorem methodTakingFind {heap : Heap} {classes : ClassTable} {address : Address} {name : String}
    {arity : Nat} {method : Method}
    (taken : heap.methodTaking? classes address name arity = some method) :
    ∃ id entry, MethodEntry.find? name (classes.methodsOf id) = some entry ∧
      entry.method = method := by
  unfold Heap.methodTaking? at taken
  cases held : heap.get? address with
  | none => simp [held] at taken
  | some object =>
    simp only [held, ClassTable.methodTaking?] at taken
    refine ⟨object.cls, ?_⟩
    unfold ClassTable.methodsOf
    cases declared : classes.get? object.cls with
    | none => simp [declared] at taken
    | some cls =>
      simp only [declared, ClassDef.methodTaking?, ClassDef.method?] at taken
      cases found : MethodEntry.find? name cls.methods with
      | none => simp [found] at taken
      | some entry =>
        simp only [found, Option.map_some] at taken
        split at taken
        · exact ⟨entry, rfl, Option.some.inj taken⟩
        · cases taken

theorem invokeSame {classes : ClassTable} {dispatch : Dispatch} {address : Address} {name : String}
    {args : List Value} {state : State} (called : Method → Exec Value)
    (same : ∀ {id entry}, MethodEntry.find? name (classes.methodsOf id) = some entry → ∀ state,
      called entry.method state = Exec.inScope (callScope (.object address) entry.method.params args)
        (entry.method.body.exec classes dispatch) state) :
    (match state.heap.methodTaking? classes address name args.length with
      | none => Machine.fail (.noMethod (state.heap.className classes address) name args.length)
      | some method => Exec.record (.methodCalled (state.heap.className classes address) name) >>=
        fun _ => called method : Exec Value) state =
      (Value.object address).invoke classes dispatch name args state := by
  rw [invokeObject]
  cases taken : state.heap.methodTaking? classes address name args.length with
  | none => rfl
  | some method =>
    obtain ⟨id, entry, found, rfl⟩ := methodTakingFind taken
    exact same found _

theorem invokeByAnswer {classes : ClassTable} {dispatch : Dispatch} (made : classes.WellMade)
    (receiver : Value) (name : String) (args : List Value) :
    receiver.invokeBy classes (Stmt.answer classes dispatch) name args =
      receiver.invoke classes dispatch name args := by
  cases receiver with
  | object address =>
    funext state
    refine invokeSame (fun method => Exec.inScope (callScope (.object address) method.params args)
      (method.body.answer classes dispatch)) fun found _ => ?_
    rw [answerMethod made found]
  | _ => rfl

theorem signallingWithin {classes : ClassTable} (made : classes.WellMade) (depth : Nat) :
    Dispatch.signalling classes depth = .within classes depth := by
  induction depth with
  | zero => rfl
  | succ depth ih =>
    rw [Dispatch.signalling, Dispatch.within, ih]
    congr 1
    funext receiver name args
    exact invokeByAnswer made receiver name args

namespace Program

theorem HasBlock.formed {program : Program} {body : List Stmt}
    (top : ∀ statement ∈ program.statements, statement.Formed .statement)
    (made : program.classes.WellMade) (block : program.HasBlock body) :
    ∀ statement ∈ body, statement.Formed .statement := by
  induction block with
  | top => exact top
  | method declared member held =>
    have formed := made.formed declared _ member
    rw [held] at formed
    cases formed
    assumption
  | yes _ member outer =>
    cases outer _ member with
    | called _ call => cases call
    | branch _ positive | branchElse _ positive _ =>
      cases positive
      assumption
  | no _ member outer =>
    cases outer _ member with
    | called _ call => cases call
    | branchElse _ _ negative =>
      cases negative
      assumption

end Program

theorem returnsBySignal {source : Source} {program : Program} {parser : ParserState}
    (parsed : Program.parse source = .done program parser) (depth : Nat) :
    program.runSignalling depth = program.run depth ∧
    (∀ body, program.HasBlock body →
      performBlock program.classes (.signalling program.classes depth) body =
        Signal.ofResult <$> execBlock program.classes (.within program.classes depth) body ∧
      ∀ statement ∈ body,
        statement.perform program.classes (.signalling program.classes depth) =
          statement.signalOf <$> statement.exec program.classes (.within program.classes depth)) ∧
    ∀ name id entry, MethodEntry.find? name (program.classes.methodsOf id) = some entry →
      entry.method.body.answer program.classes (.signalling program.classes depth) =
        entry.method.body.exec program.classes (.within program.classes depth) := by
  obtain ⟨tokens, -, parses⟩ := Program.parseSound parsed
  have made := Grammar.parsesWellMade parses
  have top : ∀ statement ∈ program.statements, statement.Formed .statement := parses.formed
  rw [signallingWithin made]
  have blocks : ∀ body, program.HasBlock body → ∀ statement ∈ body,
      statement.perform program.classes (.within program.classes depth) =
        statement.signalOf <$> statement.exec program.classes (.within program.classes depth) :=
    fun body block statement member =>
      performFormed (block.formed top made statement member) (by decide)
  refine ⟨?_, fun body block => ⟨performBlockOf (blocks body block), blocks body block⟩,
    fun name id entry found => answerMethod made found⟩
  rw [Program.runSignalling, Program.runBy, signallingWithin made,
    performBlockOf (blocks _ .top), bind_map_left]
  rfl

def returnsLate : Source :=
  ⟨["class A:", "  def m(x):", "    if x:", "      self.y = x", "      str(x)", "      return None",
    "    else:", "      return 1", "    return x", "a = A()", "print a.m(7)"].map (.ok ·.toList)⟩

theorem returnsBySignalLate :
    ∃ program parser, Program.parse returnsLate = .done program parser ∧
      ((program.runSignalling 2 (.initial .unlimited)).state?.map (·.sink.bytes)) =
        some [0x37, 0x0A] := by
  have printed : (match Program.parse returnsLate with
      | .done program _ => (program.run 2 (.initial .unlimited)).state?.map (·.sink.bytes)
      | _ => none) = some [0x37, 0x0A] := by
    decide +kernel
  cases parsed : Program.parse returnsLate with
  | done program parser =>
    rw [parsed] at printed
    refine ⟨program, parser, rfl, ?_⟩
    rw [(returnsBySignal parsed 2).1]
    exact printed
  | failed error parser =>
    rw [parsed] at printed
    cases printed
  | exhausted =>
    rw [parsed] at printed
    cases printed

end Offside
