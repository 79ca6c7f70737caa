import Offside.Proofs.Execution.Independence
import Offside.Proofs.Execution.References

/-! Objects at other addresses. Put behind the objects of another heap, with every reference following,
the objects of a state serve a statement as they did where they were. It ends alike, having bound the
same names and printed the same, as long as no text tells an address. -/
namespace Offside

def Value.moved (offset : Nat) : Value → Value
  | .object address => .object (offset + address)
  | value => value

namespace Bindings

def moved (offset : Nat) (bindings : Bindings) : Bindings :=
  ⟨bindings.entries.map fun entry => (entry.1, entry.2.moved offset)⟩

theorem getMoved (offset : Nat) (bindings : Bindings) (name : String) :
    (bindings.moved offset).get? name = (bindings.get? name).map (Value.moved offset) := by
  obtain ⟨entries⟩ := bindings
  unfold get? moved
  induction entries with
  | nil => rfl
  | cons head rest ih =>
    rw [List.map_cons, lookup, lookup]
    split
    · rfl
    · exact ih

end Bindings

def Object.moved (offset : Nat) (object : Object) : Object :=
  { object with fields := object.fields.moved offset }

def State.behind (others : Heap) (state : State) : State :=
  { state with
    scope := state.scope.moved others.size
    heap := ⟨others.objects ++ state.heap.objects.map (Object.moved others.size)⟩ }

section Nothing

theorem Value.movedNowhere (value : Value) : value.moved 0 = value := by
  cases value with
  | object address => exact congrArg Value.object (Nat.zero_add address)
  | _ => rfl

theorem Bindings.movedNowhere (bindings : Bindings) : bindings.moved 0 = bindings := by
  have entries : (fun entry : String × Value => (entry.1, entry.2.moved 0)) = id := by
    funext entry
    rw [Value.movedNowhere]
    rfl
  rw [Bindings.moved, entries, List.map_id]

theorem State.behindNothing (state : State) : state.behind .empty = state := by
  have objects : Object.moved 0 = id := by
    funext object
    simp only [Object.moved, Bindings.movedNowhere, id]
  simp only [State.behind, Heap.empty, Heap.size, Array.size_empty, Bindings.movedNowhere, objects,
    Array.map_id, Array.empty_append]

end Nothing

theorem Value.alikeOf {value left right : Value} (first : Value.Alike value left)
    (second : Value.Alike value right) : Value.Alike left right := by
  cases first with
  | plain plain =>
    cases second with
    | plain plain => exact .plain plain
    | objects => cases plain
  | objects address other =>
    cases second with
    | plain plain => cases plain
    | objects address another => exact .objects other another

namespace Independence

variable {state : State}

theorem counterpartMoved {others : Heap} {value : Value} (allocated : value.Allocated state.heap) :
    Counterpart { state with heap := .empty } { state with heap := others } state.heap.size value
      (value.moved others.size) := by
  cases value with
  | object address =>
    have same : Counterpart { state with heap := .empty } { state with heap := others }
        state.heap.size (.object (0 + address)) (.object (others.size + address)) :=
      .object (Value.allocatedObject.mp allocated)
    rw [Nat.zero_add] at same
    exact same
  | _ => exact .plain rfl

theorem relatedMoved {others : Heap} {bindings : Bindings}
    (allocated : ∀ {name value}, bindings.get? name = some value → value.Allocated state.heap) :
    Bindings.Related (Counterpart { state with heap := .empty } { state with heap := others }
      state.heap.size) bindings (bindings.moved others.size) := by
  constructor
  · intro name
    rw [Bindings.getMoved]
    cases bound : bindings.get? name with
    | none => exact .none
    | some value => exact .some (counterpartMoved (allocated bound))
  · simp [Bindings.size, Bindings.moved]

theorem twinBehind (referring : state.Referring) (others : Heap) :
    Twin { state with heap := .empty } { state with heap := others } state.heap.size state
      (state.behind others) where
  scope := relatedMoved referring.scope
  left := (Nat.zero_add state.heap.size).symm
  right := by simp [State.behind, Heap.size]
  objects := by
    intro place below
    obtain ⟨object, found⟩ : ∃ object, state.heap.get? place = some object :=
      ⟨_, Array.getElem?_eq_getElem below⟩
    refine ⟨object, object.moved others.size, ?_, ?_, rfl, relatedMoved fun held => ?_⟩
    · change state.heap.get? (0 + place) = some object
      rw [Nat.zero_add, found]
    · have moved : (state.heap.objects.map (Object.moved others.size))[place]? =
          some (object.moved others.size) := by
        rw [Array.getElem?_map]
        exact congrArg (Option.map (Object.moved others.size)) found
      rw [State.behind, Heap.get?, Heap.size, Array.getElem?_append_right (Nat.le_add_right _ _),
        Nat.add_sub_cancel_left]
      exact moved
    · exact referring.fields (by rw [Heap.field?, found]; exact held)
  kept below := Array.getElem?_append_left below
  sinks := ⟨rfl, rfl, [], (List.append_nil _).symm, (List.append_nil _).symm⟩

theorem Twin.seen {first second s t : State} {made : Nat} (twin : Twin first second made s t)
    (start : second.sink.bytes = first.sink.bytes) :
    t.sink.bytes = s.sink.bytes ∧ ∀ name, t.scope.contains name = s.scope.contains name := by
  obtain ⟨data, left, right⟩ := twin.sinks.written
  refine ⟨?_, fun name => (twin.scope.contains name).symm⟩
  rw [left, right, start]

end Independence

theorem execElsewhere {classes : ClassTable} {depth : Nat} {statement : Stmt} {state : State}
    (referring : state.Referring)
    (portable : statement.exec classes (.portable classes depth) state ≠ .exhausted)
    (others : Heap) : ∃ result other after final,
      (statement.exec classes (.within classes depth) state).ending? = some (result, after) ∧
      (statement.exec classes (.within classes depth) (state.behind others)).ending? =
        some (other, final) ∧
      Except.Matched Value.Alike result other ∧ final.sink.bytes = after.sink.bytes ∧
      ∀ name, final.scope.contains name = after.scope.contains name := by
  let first : State := { state with heap := .empty }
  have beside : ∀ others : Heap, Independence.Ends first { state with heap := others }
      state.heap.size (Independence.Counterpart first { state with heap := others })
      (statement.exec classes (.portable classes depth) state)
      (statement.exec classes (.within classes depth) (state.behind others)) := by
    intro others
    have agree := Independence.portableAgree first { state with heap := others } classes depth
    exact (Independence.correspondence _ _ classes).runExec agree statement state.heap.size state _
      (Independence.twinBehind referring others)
  have alike : ∀ {others : Heap} {made : Nat} {value other : Value},
      Independence.Counterpart first { state with heap := others } made value other →
        Value.Alike value other :=
    fun same => (Independence.correspondence _ _ classes).sameAlike same
  -- the portable run is a twin of the run from the state itself, and of the run elsewhere
  have here := beside .empty
  have there := beside others
  rw [State.behindNothing] at here
  generalize statement.exec classes (.portable classes depth) state = left at here there portable
  generalize statement.exec classes (.within classes depth) state = ran at here ⊢
  generalize statement.exec classes (.within classes depth) (state.behind others) = moved at there ⊢
  cases here with
  | exhausted => exact absurd rfl portable
  | done _ twin related =>
    obtain ⟨bytes, names⟩ := twin.seen rfl
    cases there with
    | done _ twin same =>
      obtain ⟨also, still⟩ := twin.seen rfl
      refine ⟨_, _, _, _, rfl, rfl, Value.alikeOf (alike related) (alike same), ?_, fun name => ?_⟩
      · rw [also, bytes]
      · rw [still, names]
  | failed _ twin =>
    obtain ⟨bytes, names⟩ := twin.seen rfl
    cases there with
    | failed _ twin =>
      obtain ⟨also, still⟩ := twin.seen rfl
      refine ⟨_, _, _, _, rfl, rfl, rfl, ?_, fun name => ?_⟩
      · rw [also, bytes]
      · rw [still, names]

end Offside
