import Offside.Proofs.Execution.References

/-! Setting a field. The object is found before the value is evaluated, and it is this object that gets
the field, wherever the path leads by then. Nothing else of what the evaluation has left is changed. So
the field is seen along every path that leads to the object, and other fields are as they were. -/
namespace Offside

theorem Heap.fieldSet {heap : Heap} {address : Address} (present : address < heap.size)
    (name : String) (value : Value) (other : Address) (key : String) :
    (heap.setField address name value).field? other key =
      if address = other ∧ name = key then some value else heap.field? other key := by
  unfold field?
  rw [getSetField]
  by_cases same : address = other
  · subst same
    obtain ⟨object, found⟩ : ∃ object, heap.get? address = some object :=
      ⟨_, Array.getElem?_eq_getElem present⟩
    rw [if_pos rfl, found, Option.map_some]
    dsimp only
    rw [Bindings.getInsert]
    simp only [true_and]
  · rw [if_neg same, if_neg fun both => same both.1]

theorem Heap.clsSet (heap : Heap) (address : Address) (name : String) (value : Value)
    (other : Address) : ((heap.setField address name value).get? other).map Object.cls =
      (heap.get? other).map Object.cls := by
  rw [getSetField]
  split
  · rw [Option.map_map]
    rfl
  · rfl

namespace Path

def object? (classes : ClassTable) (scope : Bindings) (heap : Heap) (path : Path) :
    Except RuntimeError Address :=
  match path.read classes scope heap with
  | .ok (.object address) => .ok address
  | .ok value => .error (.notAnObject path.text (value.typeName classes heap))
  | .error error => .error error

theorem objectRead {classes : ClassTable} {scope : Bindings} {heap : Heap} {path : Path}
    {address : Address} : path.object? classes scope heap = .ok address ↔
      path.read classes scope heap = .ok (.object address) := by
  unfold object?
  cases path.read classes scope heap with
  | error error => exact ⟨nofun, nofun⟩
  | ok value =>
    cases value with
    | object other => simp only [Except.ok.injEq, Value.object.injEq]
    | _ => exact ⟨nofun, nofun⟩

theorem followAppend (classes : ClassTable) (heap : Heap) (walked : Path) (value : Value)
    (fields rest : Path) : follow classes heap walked value (fields ++ rest) =
      (follow classes heap walked value fields).bind fun next =>
        follow classes heap (walked ++ fields) next rest := by
  induction fields generalizing walked value with
  | nil =>
    rw [List.append_nil]
    rfl
  | cons field more ih =>
    cases value with
    | object address =>
      rw [List.cons_append, follow, follow]
      cases heap.field? address field with
      | none => rfl
      | some next =>
        dsimp only
        rw [ih, List.append_assoc]
        rfl
    | _ => rfl

theorem readJoined (classes : ClassTable) (scope : Bindings) (heap : Heap) {path : Path}
    (named : path ≠ []) (rest : Path) : (path ++ rest).read classes scope heap =
      (path.read classes scope heap).bind fun value => follow classes heap path value rest := by
  cases path with
  | nil => exact absurd rfl named
  | cons name fields =>
    rw [List.cons_append, read, read]
    cases scope.get? name with
    | none => rfl
    | some first => exact followAppend classes heap [name] first fields rest

theorem readAppend {classes : ClassTable} {scope : Bindings} {heap : Heap} {path : Path} {value : Value}
    (found : path.read classes scope heap = .ok value) (rest : Path) :
    (path ++ rest).read classes scope heap = follow classes heap path value rest := by
  have named : path ≠ [] := fun empty => by
    rw [empty] at found
    cases found
  rw [readJoined classes scope heap named, found]
  rfl

theorem readField {classes : ClassTable} {scope : Bindings} {heap : Heap} {path : Path}
    {address : Address} (found : path.read classes scope heap = .ok (.object address))
    (field : String) (value : Value) : (path ++ [field]).read classes scope heap = .ok value ↔
      heap.field? address field = some value := by
  rw [readAppend found, follow]
  cases heap.field? address field with
  | none => simp only [reduceCtorEq]
  | some next => simp only [follow, Except.ok.injEq, Option.some.injEq]

theorem followAllocated {classes : ClassTable} {state : State} {walked fields : Path}
    {value found : Value} (referring : state.Referring) (start : value.Allocated state.heap)
    (led : follow classes state.heap walked value fields = .ok found) :
    found.Allocated state.heap := by
  induction fields generalizing walked value with
  | nil =>
    cases led
    exact start
  | cons field rest ih =>
    cases value with
    | object address =>
      rw [follow] at led
      cases held : state.heap.field? address field with
      | none =>
        simp only [held] at led
        cases led
      | some next =>
        simp only [held] at led
        exact ih (referring.fields held) led
    | _ => cases led

theorem readAllocated {classes : ClassTable} {state : State} {path : Path} {found : Value}
    (referring : state.Referring) (led : path.read classes state.scope state.heap = .ok found) :
    found.Allocated state.heap := by
  cases path with
  | nil => cases led
  | cons name fields =>
    rw [read] at led
    cases bound : state.scope.get? name with
    | none =>
      rw [bound] at led
      cases led
    | some first =>
      rw [bound] at led
      exact followAllocated referring (referring.scope bound) led

end Path

theorem setFieldRun (classes : ClassTable) (dispatch : Dispatch) (target : Path) (field : String)
    (value : Stmt) (state : State) :
    (Stmt.setField target field value).exec classes dispatch state =
      match target.object? classes state.scope state.heap with
      | .error error => .failed error state
      | .ok address =>
        match value.exec classes dispatch state with
        | .done result between =>
          .done result { between with heap := between.heap.setField address field result }
        | .failed error after => .failed error after
        | .exhausted => .exhausted := by
  rw [Stmt.exec]
  have looked : Exec.readPath classes target state =
      Machine.ofExcept (target.read classes state.scope state.heap) state := rfl
  unfold Path.object?
  cases led : target.read classes state.scope state.heap with
  | error error =>
    rw [led] at looked
    rw [Machine.bindRun, looked]
    rfl
  | ok found =>
    rw [led] at looked
    rw [Machine.bindOf looked]
    cases found with
    | object address =>
      change (value.exec classes dispatch >>= _) state = _
      rw [Machine.bindRun]
      cases value.exec classes dispatch state <;> rfl
    | _ => rfl

structure Heap.SetsOnly (before : Heap) (address : Address) (field : String) (value : Value)
    (after : Heap) : Prop where
  classes : ∀ other, (after.get? other).map Object.cls = (before.get? other).map Object.cls
  fields : ∀ other name, after.field? other name =
    if address = other ∧ field = name then some value else before.field? other name

theorem Heap.setsOnly {heap : Heap} {address : Address} (present : address < heap.size)
    (field : String) (value : Value) :
    heap.SetsOnly address field value (heap.setField address field value) :=
  ⟨heap.clsSet address field value, heap.fieldSet present field value⟩

theorem setFieldExactly (classes : ClassTable) (depth : Nat) (target : Path) (field : String)
    (value : Stmt) (state : State) :
    (∀ error, target.object? classes state.scope state.heap = .error error → ∀ any : Stmt,
      (Stmt.setField target field any).exec classes (.within classes depth) state =
        .failed error state) ∧
    ∀ address, target.object? classes state.scope state.heap = .ok address →
      (value.exec classes (.within classes depth) state = .exhausted →
        (Stmt.setField target field value).exec classes (.within classes depth) state = .exhausted) ∧
      (∀ error after, value.exec classes (.within classes depth) state = .failed error after →
        (Stmt.setField target field value).exec classes (.within classes depth) state =
          .failed error after) ∧
      (∀ result between, value.exec classes (.within classes depth) state = .done result between →
        (Value.object address).Allocated state.heap → ∃ final,
          (Stmt.setField target field value).exec classes (.within classes depth) state =
            .done result final ∧
          between.heap.SetsOnly address field result final.heap ∧
          final = { between with heap := final.heap } ∧
          (∀ path : Path, path.read classes final.scope final.heap = .ok (.object address) →
            Path.read classes final.scope final.heap (path ++ [field]) = .ok result) ∧
          ∀ path : Path, ∀ other name found,
            path.read classes final.scope final.heap = .ok (.object other) →
            ¬ (address = other ∧ field = name) →
            (Path.read classes final.scope final.heap (path ++ [name]) = .ok found ↔
              between.heap.field? other name = some found)) ∧
      (state.Referring → (Value.object address).Allocated state.heap) := by
  refine ⟨fun error lost any => ?_, fun address led => ⟨fun cut => ?_, fun error after failed => ?_,
    fun result between evaluated there => ?_, fun referring => ?_⟩⟩
  · rw [setFieldRun, lost]
  · rw [setFieldRun, led, cut]
  · rw [setFieldRun, led, failed]
  · have ended : (value.exec classes (.within classes depth) state).state? = some between := by
      rw [evaluated]
      rfl
    -- the object is still there after the evaluation
    have kept := Value.natureGrows (growth.movesExec classes depth value ended).heap there
    have present : address < between.heap.size := by
      rw [← Value.allocatedObject, Value.Allocated, kept]
      exact there
    have only := Heap.setsOnly present field result
    refine ⟨{ between with heap := between.heap.setField address field result }, ?_, only, rfl, ?_, ?_⟩
    · rw [setFieldRun, led, evaluated]
    · intro path reached
      rw [Path.readField reached, only.fields, if_pos ⟨rfl, rfl⟩]
    · intro path other name found reached differ
      rw [Path.readField reached, only.fields, if_neg differ]
  · exact Path.readAllocated referring (Path.objectRead.mp led)

def chains : ClassTable := ClassTable.empty.declare "Link" none
  [⟨"cut", [], .block [.setField ["self"] "next" .none, .result (.number 5)]⟩]

def twoLinks : State :=
  ⟨Bindings.empty.insert "x" (.object 0),
    ((Heap.empty.create 0).create 0).setField 0 "next" (.object 1), .unlimited, .empty⟩

/- The second one gets the field, though nothing leads to it any more. -/
theorem setFieldExactlyCut : ∃ final,
    (Stmt.setField ["x", "next"] "size" (.call (.path ["x"]) "cut" [])).exec chains
      (.within chains 1) twoLinks = .done (.number 5) final ∧
    final.heap.field? 1 "size" = some (.number 5) ∧ final.heap.field? 0 "next" = some .none := by
  obtain ⟨-, led⟩ := setFieldExactly chains 1 ["x", "next"] "size" (.call (.path ["x"]) "cut" []) twoLinks
  obtain ⟨-, -, done, -⟩ := led 1 rfl
  obtain ⟨final, ran, only, -⟩ := done (.number 5) _ rfl rfl
  exact ⟨final, ran, only.fields 1 "size", (only.fields 0 "next").trans rfl⟩

end Offside
