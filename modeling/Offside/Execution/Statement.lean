import Offside.Execution.Operators

/-! The meaning of statements. Executing a statement is a recursion over its tree; what a method call
does is a parameter, `Dispatch`, because the bodies of methods are no part of the tree. -/

namespace Offside

structure Dispatch where
  invoke : Value → String → List Value → Exec Value
  display : Value → Exec String

namespace Value

def plainText (classes : ClassTable) (heap : Heap) : Value → String
  | none => "None"
  | number value => Integer.text value
  | string value => value
  | bool true => "True"
  | bool false => "False"
  | cls id => "Class " ++ classes.nameOf id
  | object address => heap.objectText Address.place classes address

def hasStringMethod (classes : ClassTable) (heap : Heap) : Value → Bool
  | object address => (heap.methodTaking? classes address Method.stringName 0).isSome
  | _ => false

def display (classes : ClassTable) (dispatch : Dispatch) (value : Value) : Exec String := do
  let heap := (← Machine.get).heap
  if value.hasStringMethod classes heap then
    let representative ← dispatch.invoke value Method.stringName []
    dispatch.display representative
  else pure (value.plainText classes heap)

end Value

namespace Exec

def arithmetic (classes : ClassTable) (dispatch : Dispatch) (op : ArithmeticOp)
    (left right : Value) : Exec Value := do
  let heap := (← Machine.get).heap
  let unsupported : Exec Value := Machine.fail
    (.operandTypes op.symbol (left.typeName classes heap) (right.typeName classes heap))
  match left, right with
  | .number a, .number b => Machine.ofExcept ((op.apply a b).map .number)
  | .string a, .string b => if op = .add then pure (.string (a ++ b)) else unsupported
  | .object address, _ =>
    if (heap.methodTaking? classes address op.methodName 1).isSome then
      dispatch.invoke left op.methodName [right]
    else unsupported
  | _, _ => unsupported

def compare (classes : ClassTable) (relation : Relation) (left right : Value) : Exec Value := do
  let heap := (← Machine.get).heap
  Machine.ofExcept ((relation.decide classes heap left right).map .bool)

def readPath (classes : ClassTable) (path : Path) : Exec Value := do
  let state ← Machine.get
  Machine.ofExcept (path.read classes state.scope state.heap)

def requireObject (classes : ClassTable) (description : String) (value : Value) :
    Exec Address := do
  match value with
  | .object address => pure address
  | _ => Machine.fail (.notAnObject description (← typeName classes value))

def define (classes : ClassTable) (cls : ClassId) : Exec Value := do
  let name := classes.nameOf cls
  if (← Machine.get).scope.contains name then Machine.fail (.nameTaken name)
  else
    record (.classDefined name)
    bindName name (.cls cls)
    pure (.cls cls)

end Exec

def Stmt.receiverName : Stmt → String
  | .path names => names.text
  | _ => "<expression>"

mutual

/-- Executes a statement and gives its value. Operands and arguments are evaluated from left to right,
and both operands always. -/
def Stmt.exec (classes : ClassTable) (dispatch : Dispatch) : Stmt → Exec Value
  | .assign name value => do
    let value ← value.exec classes dispatch
    Exec.bindName name value
    pure value
  | .setField target field value => do
    let object ← Exec.readPath classes target
    let address ← Exec.requireObject classes target.text object
    let value ← value.exec classes dispatch
    Exec.setField address field value
    pure value
  | .path names => Exec.readPath classes names
  | .number value => pure (.number value)
  | .string value => pure (.string value)
  | .bool value => pure (.bool value)
  | .none => pure .none
  | .arithmetic op left right => do
    let left ← left.exec classes dispatch
    let right ← right.exec classes dispatch
    Exec.arithmetic classes dispatch op left right
  | .both left right => do
    let left ← left.exec classes dispatch
    let right ← right.exec classes dispatch
    pure (.bool (left.truthy && right.truthy))
  | .either left right => do
    let left ← left.exec classes dispatch
    let right ← right.exec classes dispatch
    pure (.bool (left.truthy || right.truthy))
  | .negate operand => do
    let operand ← operand.exec classes dispatch
    pure (.bool (!operand.truthy))
  | .compare relation left right => do
    let left ← left.exec classes dispatch
    let right ← right.exec classes dispatch
    Exec.compare classes relation left right
  | .block body => execBlock classes dispatch body
  | .branch condition yes no => do
    let condition ← condition.exec classes dispatch
    if condition.truthy then yes.exec classes dispatch else execElse classes dispatch no
  | .result value => value.exec classes dispatch
  | .print args => do
    let texts ← execTexts classes dispatch args
    Exec.writeLine (String.intercalate " " texts)
    pure .none
  | .call receiver method args => do
    let value ← receiver.exec classes dispatch
    let _ ← Exec.requireObject classes receiver.receiverName value
    let args ← execValues classes dispatch args
    dispatch.invoke value method args
  | .create cls args => do
    let address ← Exec.create cls
    let args ← execValues classes dispatch args
    let _ ← dispatch.invoke (.object address) Method.initName args
    pure (.object address)
  | .stringify value => do
    let value ← value.exec classes dispatch
    let text ← dispatch.display value
    pure (.string text)
  | .define cls => Exec.define classes cls

def execBlock (classes : ClassTable) (dispatch : Dispatch) : List Stmt → Exec Value
  | [] => pure .none
  | statement :: rest => do
    let value ← statement.exec classes dispatch
    if statement.endsBlock && value != .none then pure value
    else execBlock classes dispatch rest

def execElse (classes : ClassTable) (dispatch : Dispatch) : Option Stmt → Exec Value
  | none => pure .none
  | some statement => statement.exec classes dispatch

def execValues (classes : ClassTable) (dispatch : Dispatch) : List Stmt → Exec (List Value)
  | [] => pure []
  | statement :: rest => do
    let value ← statement.exec classes dispatch
    let values ← execValues classes dispatch rest
    pure (value :: values)

def execTexts (classes : ClassTable) (dispatch : Dispatch) : List Stmt → Exec (List String)
  | [] => pure []
  | statement :: rest => do
    let value ← statement.exec classes dispatch
    let text ← dispatch.display value
    let texts ← execTexts classes dispatch rest
    pure (text :: texts)

end

end Offside
