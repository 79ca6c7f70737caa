import Offside.Program.Statement

/-! Values and the names bound to them. An object is known by its address; every other value stands
for itself and has no identity. -/

namespace Offside

abbrev Address := Nat

inductive Value where
  | none
  | number (value : Int64)
  | string (value : String)
  | bool (value : Bool)
  | cls (id : ClassId)
  | object (address : Address)
  deriving DecidableEq, Repr

namespace Value

def truthy : Value → Bool
  | none => false
  | number value => value != 0
  | string value => value != ""
  | bool value => value
  | cls _ | object _ => true

end Value

structure Bindings where
  entries : List (String × Value)
  deriving DecidableEq, Repr

namespace Bindings

def empty : Bindings := ⟨[]⟩

def lookup (name : String) : List (String × Value) → Option Value
  | [] => none
  | (key, value) :: rest => if key = name then some value else lookup name rest

def get? (bindings : Bindings) (name : String) : Option Value := lookup name bindings.entries

def replace (name : String) (value : Value) : List (String × Value) → List (String × Value)
  | [] => [(name, value)]
  | (key, old) :: rest =>
    if key = name then (name, value) :: rest else (key, old) :: replace name value rest

def insert (bindings : Bindings) (name : String) (value : Value) : Bindings :=
  ⟨replace name value bindings.entries⟩

def contains (bindings : Bindings) (name : String) : Bool := (bindings.get? name).isSome

def size (bindings : Bindings) : Nat := bindings.entries.length

def sorted (bindings : Bindings) : List (String × Value) :=
  bindings.entries.mergeSort fun left right => decide (left.1 ≤ right.1)

@[simp] theorem getEmpty (name : String) : empty.get? name = none := rfl

theorem lookupReplace (name key : String) (value : Value) (entries : List (String × Value)) :
    lookup key (replace name value entries) =
      if name = key then some value else lookup key entries := by
  induction entries with
  | nil => rfl
  | cons head rest ih =>
    obtain ⟨first, old⟩ := head
    by_cases same : first = name
    · subst same
      by_cases hit : first = key <;> simp [replace, lookup, hit]
    · by_cases hit : first = key
      · have other : name ≠ key := fun eq => same (hit.trans eq.symm)
        rw [replace, if_neg same, lookup, lookup, if_pos hit, if_pos hit, if_neg other]
      · simp [replace, lookup, same, hit, ih]

theorem getInsert (bindings : Bindings) (name key : String) (value : Value) :
    (bindings.insert name value).get? key =
      if name = key then some value else bindings.get? key :=
  lookupReplace name key value bindings.entries

theorem getInsertOther (bindings : Bindings) {name key : String} (value : Value)
    (differ : name ≠ key) : (bindings.insert name value).get? key = bindings.get? key := by
  simp [getInsert, differ]

end Bindings

end Offside
