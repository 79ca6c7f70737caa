import Offside.Memory.Heap

/-! Snapshots: values with the objects they lead to, free of addresses. Objects are numbered in the order
in which they are met, and an object that is met again is a reference to its number, so sharing and
cycles show. -/

namespace Offside

inductive Snapshot where
  | none
  | number (value : Int64)
  | string (value : String)
  | bool (value : Bool)
  | cls (name : String)
  | object (id : Nat) (cls : String) (fields : List (String × Snapshot))
  | reference (id : Nat)
  deriving Repr

namespace Snapshot

abbrev Met := List Address

def ofEntries (visit : Met → Value → Snapshot × Met) :
    Met → List (String × Value) → List (String × Snapshot) × Met
  | met, [] => ([], met)
  | met, (name, value) :: rest =>
    let (head, met) := visit met value
    let (tail, met) := ofEntries visit met rest
    ((name, head) :: tail, met)

/- The snapshot of a value that leads through at most `depth` objects not met before. An object is
numbered before its fields are visited, and these in the order of their names. -/
def ofValue (classes : ClassTable) (heap : Heap) : Nat → Met → Value → Snapshot × Met
  | _, met, .none => (none, met)
  | _, met, .number value => (number value, met)
  | _, met, .string value => (string value, met)
  | _, met, .bool value => (bool value, met)
  | _, met, .cls id => (cls (classes.nameOf id), met)
  | depth, met, .object address =>
    match met.idxOf? address, depth with
    | some id, _ => (reference id, met)
    | .none, 0 => (reference met.length, met)
    | .none, depth + 1 =>
      let entries := match heap.get? address with
        | some found => found.fields.sorted
        | .none => []
      let (fields, after) :=
        ofEntries (fun met value => ofValue classes heap depth met value) (met ++ [address]) entries
      (object met.length (heap.className classes address) fields, after)

end Snapshot

namespace Heap

def snapshot (heap : Heap) (classes : ClassTable) (met : Snapshot.Met) (value : Value) :
    Snapshot × Snapshot.Met :=
  Snapshot.ofValue classes heap (heap.size + 1) met value

def snapshotBindings (heap : Heap) (classes : ClassTable) (met : Snapshot.Met)
    (bindings : Bindings) : List (String × Snapshot) × Snapshot.Met :=
  Snapshot.ofEntries (heap.snapshot classes) met bindings.sorted

end Heap

end Offside
