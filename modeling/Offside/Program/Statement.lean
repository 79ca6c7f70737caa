/-! Program trees. The language has one kind of node: whatever can be executed has a value, so the same
type serves for expressions and for statements. A class is named by its place in the class table. -/

namespace Offside

abbrev ClassId := Nat

abbrev Path := List String

def Path.text (path : Path) : String := String.intercalate "." path

inductive ArithmeticOp where
  | add | subtract | multiply | divide
  deriving DecidableEq, Repr

namespace ArithmeticOp

def symbol : ArithmeticOp → String
  | add => "+"
  | subtract => "-"
  | multiply => "*"
  | divide => "/"

def methodName : ArithmeticOp → String
  | add => "__add__"
  | subtract => "__sub__"
  | multiply => "__mult__"
  | divide => "__div__"

end ArithmeticOp

inductive Relation where
  | equal | notEqual | less | greater | lessOrEqual | greaterOrEqual
  deriving DecidableEq, Repr

def Relation.symbol : Relation → String
  | equal => "=="
  | notEqual => "!="
  | less => "<"
  | greater => ">"
  | lessOrEqual => "<="
  | greaterOrEqual => ">="

inductive Stmt where
  | assign (name : String) (value : Stmt)
  | setField (target : Path) (field : String) (value : Stmt)
  | path (path : Path)
  | number (value : Int64)
  | string (value : String)
  | bool (value : Bool)
  | none
  | arithmetic (op : ArithmeticOp) (left right : Stmt)
  | both (left right : Stmt)
  | either (left right : Stmt)
  | negate (operand : Stmt)
  | compare (relation : Relation) (left right : Stmt)
  | block (body : List Stmt)
  | branch (condition yes : Stmt) (no : Option Stmt)
  | result (value : Stmt)
  | print (args : List Stmt)
  | call (receiver : Stmt) (method : String) (args : List Stmt)
  | create (cls : ClassId) (args : List Stmt)
  | stringify (value : Stmt)
  | define (cls : ClassId)
  deriving Repr

def Stmt.endsBlock : Stmt → Bool
  | .result _ | .branch .. | .block _ => true
  | _ => false

end Offside
