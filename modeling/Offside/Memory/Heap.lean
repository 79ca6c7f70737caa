import Offside.Memory.Value
import Offside.Program.ClassTable

/-! The heap: the objects created so far, each at an address of its own. Objects are never removed and
keep their class, so an address means the same object for the whole run. -/

namespace Offside

structure Object where
  cls : ClassId
  fields : Bindings
  deriving DecidableEq, Repr

structure Heap where
  objects : Array Object
  deriving DecidableEq, Repr

namespace Heap

def empty : Heap := ⟨#[]⟩

def size (heap : Heap) : Nat := heap.objects.size

def get? (heap : Heap) (address : Address) : Option Object := heap.objects[address]?

def fresh (heap : Heap) : Address := heap.size

def create (heap : Heap) (cls : ClassId) : Heap := ⟨heap.objects.push ⟨cls, .empty⟩⟩

def field? (heap : Heap) (address : Address) (name : String) : Option Value :=
  match heap.get? address with
  | some object => object.fields.get? name
  | none => none

def setField (heap : Heap) (address : Address) (name : String) (value : Value) : Heap :=
  ⟨heap.objects.modify address fun object =>
    { object with fields := object.fields.insert name value }⟩

def methodTaking? (heap : Heap) (classes : ClassTable) (address : Address) (name : String)
    (arity : Nat) : Option Method :=
  match heap.get? address with
  | some object => classes.methodTaking? object.cls name arity
  | none => none

def className (heap : Heap) (classes : ClassTable) (address : Address) : String :=
  match heap.get? address with
  | some object => classes.nameOf object.cls
  | none => ""

@[simp] theorem sizeCreate (heap : Heap) (cls : ClassId) :
    (heap.create cls).size = heap.size + 1 := by
  simp [create, size]

@[simp] theorem sizeSetField (heap : Heap) (address : Address) (name : String) (value : Value) :
    (heap.setField address name value).size = heap.size := by
  simp [setField, size]

theorem getCreate (heap : Heap) (cls : ClassId) (address : Address) :
    (heap.create cls).get? address =
      if address = heap.fresh then some ⟨cls, .empty⟩ else heap.get? address := by
  simp only [get?, create, fresh, size, Array.getElem?_push]
  rfl

theorem getSetField (heap : Heap) (address other : Address) (name : String) (value : Value) :
    (heap.setField address name value).get? other =
      if address = other then
        (heap.get? other).map fun object =>
          { object with fields := object.fields.insert name value }
      else heap.get? other := by
  simp only [get?, setField, Array.getElem?_modify]

end Heap

namespace Value

def typeName (classes : ClassTable) (heap : Heap) : Value → String
  | none => "NoneType"
  | number _ => "int"
  | string _ => "str"
  | bool _ => "bool"
  | cls _ => "class"
  | object address => heap.className classes address

end Value

namespace Address

def base : Nat := 0x550000000000

def stride : Nat := 0x40

def place (address : Address) : Nat := base + stride * address

end Address

def Heap.objectText (place : Address → Nat) (classes : ClassTable) (heap : Heap)
    (address : Address) : String :=
  "<" ++ heap.className classes address ++ " object at 0x" ++
    String.ofList (Nat.toDigits 16 (place address)) ++ ">"

end Offside
