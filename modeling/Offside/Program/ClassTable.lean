import Offside.Program.Statement

/-! Classes and the table that holds them. A class carries the methods that its instances understand,
inherited ones included, so that finding a method never visits the parents. -/

namespace Offside

/- A method as written; the object it is called on is not among the parameters. -/
structure Method where
  name : String
  params : List String
  body : Stmt
  deriving Repr

namespace Method

def initName : String := "__init__"

def stringName : String := "__str__"

def defaultInit : Method := ⟨initName, [], .none⟩

end Method

structure MethodEntry where
  method : Method
  owner : ClassId
  deriving Repr

namespace MethodEntry

def find? (name : String) : List MethodEntry → Option MethodEntry
  | [] => none
  | head :: rest => if head.method.name = name then some head else find? name rest

def insert (entry : MethodEntry) : List MethodEntry → List MethodEntry
  | [] => [entry]
  | head :: rest =>
    if head.method.name = entry.method.name then entry :: rest else head :: insert entry rest

theorem findInsert (name : String) (entry : MethodEntry) (entries : List MethodEntry) :
    find? name (insert entry entries) =
      if entry.method.name = name then some entry else find? name entries := by
  induction entries with
  | nil => rfl
  | cons head rest ih =>
    by_cases same : head.method.name = entry.method.name
    · by_cases hit : entry.method.name = name <;> simp [insert, find?, same, hit]
    · by_cases hit : head.method.name = name
      · have other : entry.method.name ≠ name := fun eq => same (hit.trans eq.symm)
        rw [insert, if_neg same, find?, find?, if_pos hit, if_pos hit, if_neg other]
      · simp [insert, find?, same, hit, ih]

end MethodEntry

structure ClassDef where
  name : String
  parent : Option ClassId
  declared : List Method
  methods : List MethodEntry
  deriving Repr

namespace ClassDef

def methodsOver (inherited : List MethodEntry) (owner : ClassId) (declared : List Method) :
    List MethodEntry :=
  let table := declared.foldl (fun table method => MethodEntry.insert ⟨method, owner⟩ table) inherited
  match MethodEntry.find? Method.initName table with
  | some _ => table
  | none => MethodEntry.insert ⟨Method.defaultInit, owner⟩ table

def method? (cls : ClassDef) (name : String) : Option Method :=
  (MethodEntry.find? name cls.methods).map (·.method)

def methodTaking? (cls : ClassDef) (name : String) (arity : Nat) : Option Method :=
  match cls.method? name with
  | some method => if method.params.length = arity then some method else none
  | none => none

def sortedMethods (cls : ClassDef) : List MethodEntry :=
  cls.methods.mergeSort fun left right => decide (left.method.name ≤ right.method.name)

end ClassDef

/-- The classes of a program in the order in which their definitions end. The first `hidden` of them
are kept for the objects that have them, but can no longer be named. -/
structure ClassTable where
  classes : Array ClassDef
  hidden : Nat

namespace ClassTable

def empty : ClassTable := ⟨#[], 0⟩

def hideAll (table : ClassTable) : ClassTable := { table with hidden := table.classes.size }

def get? (table : ClassTable) (id : ClassId) : Option ClassDef := table.classes[id]?

def nameOf (table : ClassTable) (id : ClassId) : String :=
  match table.get? id with
  | some cls => cls.name
  | none => ""

def visible (table : ClassTable) : List ClassId :=
  ((List.range table.classes.size).drop table.hidden).reverse

def find? (table : ClassTable) (name : String) : Option ClassId :=
  table.visible.find? fun id => table.nameOf id == name

theorem findNamed {table : ClassTable} {name : String} {id : ClassId}
    (found : table.find? name = some id) : table.nameOf id = name := by
  simpa using List.find?_some found

def methodsOf (table : ClassTable) (id : ClassId) : List MethodEntry :=
  match table.get? id with
  | some cls => cls.methods
  | none => []

def methodTaking? (table : ClassTable) (id : ClassId) (name : String) (arity : Nat) :
    Option Method :=
  match table.get? id with
  | some cls => cls.methodTaking? name arity
  | none => none

def newClass (table : ClassTable) (name : String) (parent : Option ClassId)
    (declared : List Method) : ClassDef :=
  let inherited := match parent with
    | some id => table.methodsOf id
    | none => []
  ⟨name, parent, declared, ClassDef.methodsOver inherited table.classes.size declared⟩

def declare (table : ClassTable) (name : String) (parent : Option ClassId)
    (declared : List Method) : ClassTable :=
  { table with classes := table.classes.push (table.newClass name parent declared) }

end ClassTable

structure Program where
  statements : List Stmt
  classes : ClassTable

end Offside
