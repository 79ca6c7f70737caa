import Mathlib.Data.List.Infix
import Offside.Proofs.Execution.Fields

/-! Dotted names. A path is walked from left to right: its first name is looked up in the scope, and each
further name is a field of the object reached so far. Reading a path gives the value that the walk ends
with. Where the walk stops, the failure names the longest part of the path that leads to a value. -/
namespace Offside

def Value.field? (heap : Heap) (value : Value) (name : String) : Option Value :=
  match value with
  | .object address => heap.field? address name
  | _ => Option.none

namespace Path

def walkFrom (heap : Heap) (start : Value) (fields : Path) : Option Value :=
  fields.foldlM (Value.field? heap) start

def walk (scope : Bindings) (heap : Heap) : Path → Option Value
  | [] => none
  | name :: fields => (scope.get? name).bind fun start => walkFrom heap start fields

/- The longest part at the start of a path that leads to a value, and this value. -/
structure Reaches (scope : Bindings) (heap : Heap) (path front : Path) (value : Value) : Prop where
  begins : front <+: path
  reached : front.walk scope heap = some value
  longest : ∀ other : Path, other <+: path → (other.walk scope heap).isSome = true →
    other.length ≤ front.length

inductive Stops (classes : ClassTable) (scope : Bindings) (heap : Heap) (path : Path) :
    RuntimeError → Prop where
  | unbound {name : String} (first : path.head? = some name) (absent : scope.get? name = none) :
      Stops classes scope heap path (.unbound name)
  | notAnObject {front back : Path} {field : String} {value : Value}
      (reaches : Reaches scope heap path front value) (next : path = front ++ field :: back)
      (plain : ∀ address, value ≠ .object address) :
      Stops classes scope heap path (.notAnObject front.text (value.typeName classes heap))
  | noField {front back : Path} {field : String} {address : Address}
      (reaches : Reaches scope heap path front (.object address))
      (next : path = front ++ field :: back) :
      Stops classes scope heap path (.noField front.text field (heap.className classes address))

variable {classes : ClassTable} {scope : Bindings} {heap : Heap}

theorem walkFromCons (start : Value) (field : String) (rest : Path) :
    walkFrom heap start (field :: rest) =
      (start.field? heap field).bind fun next => walkFrom heap next rest := List.foldlM_cons

theorem walkAppend {path : Path} (named : path ≠ []) (rest : Path) :
    (path ++ rest).walk scope heap =
      (path.walk scope heap).bind fun value => walkFrom heap value rest := by
  cases path with
  | nil => exact absurd rfl named
  | cons name fields =>
    rw [List.cons_append, walk, walk, Option.bind_assoc]
    congr 1
    funext start
    exact List.foldlM_append

def blame (classes : ClassTable) (heap : Heap) (front : Path) (field : String) : Value → RuntimeError
  | .object address => .noField front.text field (heap.className classes address)
  | value => .notAnObject front.text (value.typeName classes heap)

theorem followStep (walked : Path) (value : Value) (field : String) (rest : Path) :
    follow classes heap walked value (field :: rest) =
      match value.field? heap field with
      | some next => follow classes heap (walked ++ [field]) next rest
      | none => .error (blame classes heap walked field value) := by
  cases value with
  | object address =>
    rw [follow, Value.field?]
    cases heap.field? address field <;> rfl
  | _ => rfl

theorem followWalk (walked : Path) (value found : Value) (fields : Path) :
    follow classes heap walked value fields = .ok found ↔ walkFrom heap value fields = some found := by
  induction fields generalizing walked value with
  | nil =>
    change Except.ok value = .ok found ↔ some value = some found
    rw [Except.ok.injEq, Option.some.injEq]
  | cons field rest ih =>
    rw [followStep, walkFromCons]
    cases value.field? heap field with
    | none => simp only [reduceCtorEq, Option.bind_none]
    | some next => exact ih (walked ++ [field]) next

theorem followStops {walked fields : Path} {value : Value} {error : RuntimeError}
    (stopped : follow classes heap walked value fields = .error error) :
    ∃ front field back reached, fields = front ++ field :: back ∧
      walkFrom heap value front = some reached ∧ reached.field? heap field = none ∧
      error = blame classes heap (walked ++ front) field reached := by
  induction fields generalizing walked value with
  | nil => cases stopped
  | cons field rest ih =>
    rw [followStep] at stopped
    cases step : value.field? heap field with
    | none =>
      rw [step] at stopped
      cases stopped
      exact ⟨[], field, rest, value, rfl, rfl, step, by rw [List.append_nil]⟩
    | some next =>
      rw [step] at stopped
      obtain ⟨front, last, back, reached, split, led, missing, same⟩ := ih stopped
      refine ⟨field :: front, last, back, reached, by rw [split]; rfl, ?_, missing, ?_⟩
      · rw [walkFromCons, step]
        exact led
      · rw [same, List.append_assoc]
        rfl

theorem readWalk (path : Path) (found : Value) :
    path.read classes scope heap = .ok found ↔ path.walk scope heap = some found := by
  cases path with
  | nil => simp only [read, walk, reduceCtorEq]
  | cons name fields =>
    rw [read, walk]
    cases scope.get? name with
    | none => simp only [reduceCtorEq, Option.bind_none]
    | some start => exact followWalk [name] start found fields

theorem walkNamed {path : Path} {value : Value} (led : path.walk scope heap = some value) :
    path ≠ [] := by
  rintro rfl
  cases led

theorem reachesMissing {path front back : Path} {field : String} {value : Value}
    (next : path = front ++ field :: back) (led : front.walk scope heap = some value) :
    Reaches scope heap path front value ↔ value.field? heap field = none := by
  have onward : ∀ rest, (front ++ field :: rest).walk scope heap =
      (value.field? heap field).bind fun next => walkFrom heap next rest := by
    intro rest
    rw [walkAppend (walkNamed led), led, Option.bind_some, walkFromCons]
  constructor
  · intro reaches
    cases found : value.field? heap field with
    | none => rfl
    | some more =>
      have begins : front ++ [field] <+: path := ⟨back, by rw [next, List.append_assoc]; rfl⟩
      have longer := reaches.longest (front ++ [field]) begins (by rw [onward, found]; rfl)
      rw [List.length_append, List.length_singleton] at longer
      omega
  · intro missing
    refine ⟨⟨field :: back, next.symm⟩, led, fun other begins resolves => ?_⟩
    by_contra longer
    have inside : front ++ [field] <+: other := by
      have begun : front ++ [field] <+: path := ⟨back, by rw [next, List.append_assoc]; rfl⟩
      refine List.prefix_of_prefix_length_le begun begins ?_
      rw [List.length_append, List.length_singleton]
      omega
    obtain ⟨rest, rfl⟩ := inside
    rw [List.append_assoc, List.singleton_append, onward, missing] at resolves
    cases resolves

theorem stopsBlamed {path front back : Path} {field : String} {value : Value}
    (reaches : Reaches scope heap path front value) (next : path = front ++ field :: back) :
    Stops classes scope heap path (blame classes heap front field value) := by
  cases value with
  | object address => exact .noField reaches next
  | _ => exact .notAnObject reaches next nofun

theorem readBlamed {path front back : Path} {field : String} {value : Value}
    (reaches : Reaches scope heap path front value) (next : path = front ++ field :: back) :
    path.read classes scope heap = .error (blame classes heap front field value) := by
  have led : front.read classes scope heap = .ok value := (readWalk front value).mpr reaches.reached
  have missing := (reachesMissing next reaches.reached).mp reaches
  rw [next, readAppend led, followStep, missing]

theorem readStops (path : Path) (named : path ≠ []) (error : RuntimeError) :
    path.read classes scope heap = .error error ↔ Stops classes scope heap path error := by
  constructor
  · intro stopped
    cases path with
    | nil => exact absurd rfl named
    | cons name fields =>
      rw [read] at stopped
      cases bound : scope.get? name with
      | none =>
        rw [bound] at stopped
        cases stopped
        exact .unbound rfl bound
      | some start =>
        rw [bound] at stopped
        obtain ⟨front, field, back, value, rfl, led, missing, rfl⟩ := followStops stopped
        have walked : walk scope heap (name :: front) = some value := by
          rw [walk, bound]
          exact led
        exact stopsBlamed ((reachesMissing rfl walked).mpr missing) rfl
  · intro stops
    cases stops with
    | unbound first absent =>
      cases path with
      | nil => exact absurd rfl named
      | cons name fields =>
        cases first
        rw [read, absent]
    | @notAnObject front back field value reaches next plain =>
      have stopped : path.read classes scope heap = .error (blame classes heap front field value) :=
        readBlamed reaches next
      cases value with
      | object address => exact absurd rfl (plain address)
      | _ => exact stopped
    | noField reaches next => exact readBlamed reaches next

theorem pathRun (classes : ClassTable) (dispatch : Dispatch) (path : Path) (state : State) :
    (Stmt.path path).exec classes dispatch state =
      match path.read classes state.scope state.heap with
      | .ok value => .done value state
      | .error error => .failed error state := by
  rw [Stmt.exec]
  change Machine.ofExcept (path.read classes state.scope state.heap) state = _
  cases path.read classes state.scope state.heap <;> rfl

theorem readExactly (classes : ClassTable) (dispatch : Dispatch) (state : State) (name : String)
    (fields : Path) :
    (Stmt.path (name :: fields)).exec classes dispatch state =
      (match read classes state.scope state.heap (name :: fields) with
      | .ok value => .done value state
      | .error error => .failed error state) ∧
    (∀ value, read classes state.scope state.heap (name :: fields) = .ok value ↔
      walk state.scope state.heap (name :: fields) = some value) ∧
    (∀ error, read classes state.scope state.heap (name :: fields) = .error error ↔
      Stops classes state.scope state.heap (name :: fields) error) ∧
    ∀ rest,
      read classes state.scope state.heap (name :: fields ++ rest) =
        (read classes state.scope state.heap (name :: fields)).bind (fun value =>
          follow classes state.heap (name :: fields) value rest) ∧
      walk state.scope state.heap (name :: fields ++ rest) =
        (walk state.scope state.heap (name :: fields)).bind fun value =>
          walkFrom state.heap value rest := by
  have named : name :: fields ≠ [] := List.cons_ne_nil name fields
  exact ⟨pathRun classes dispatch _ state, readWalk _, readStops _ named, fun rest =>
    ⟨readJoined classes state.scope state.heap named rest, walkAppend named rest⟩⟩

end Path

end Offside
