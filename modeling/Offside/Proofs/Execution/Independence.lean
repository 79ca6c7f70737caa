import Offside.Proofs.Execution.Output

/-! Runs that do not depend on what came before them. A run creates its objects one after another, behind
those that are there already, so the objects of two runs correspond by the order in which they were
created. The address of an object shows in its text only when its class has no method for it; a
portable run is one in which this text is never asked for. -/
namespace Offside

def Value.displayPortable (classes : ClassTable) (dispatch : Dispatch) (value : Value) :
    Exec String := do
  let heap := (← Machine.get).heap
  if value.hasStringMethod classes heap then
    let representative ← dispatch.invoke value Method.stringName []
    dispatch.display representative
  else if value.isPlain then pure (value.plainText classes heap)
  else Machine.exhaust

/-- The dispatch that is cut short where a text would tell an address. -/
def Dispatch.portable (classes : ClassTable) : Nat → Dispatch
  | 0 => ⟨fun _ _ _ => Machine.exhaust, fun value => value.displayPortable classes stuck⟩
  | depth + 1 =>
    ⟨fun receiver name args => receiver.invoke classes (portable classes depth) name args,
      fun value => value.displayPortable classes (portable classes depth)⟩

namespace Program

def runPortable (depth : Nat) (program : Program) : Exec Unit :=
  program.runBy (execBlock program.classes (.portable program.classes depth))

def runTimes (depth : Nat) (program : Program) :
    Nat → State → Option (List (Except RuntimeError Unit) × State)
  | 0, state => some ([], state)
  | times + 1, state => do
    let (result, after) ← (program.run depth state).ending?
    let (results, final) ← program.runTimes depth times after
    pure (result :: results, final)

end Program

namespace Sink

def room (sink : Sink) : Option Nat := sink.limit.map (· - sink.bytes.length)

theorem acceptedRoom (sink : Sink) (data : List UInt8) :
    sink.accepted data = match sink.room with
      | some room => data.take room
      | none => data := by
  unfold accepted room
  cases sink.limit <;> rfl

theorem roomWrite (sink : Sink) (data : List UInt8) :
    (sink.write data).2.room = sink.room.map (· - (sink.accepted data).length) := by
  unfold room write
  cases sink.limit with
  | none => rfl
  | some limit => simp only [Option.map_some, List.length_append, Nat.sub_add_eq]

@[simp] theorem limitWrite (sink : Sink) (data : List UInt8) :
    (sink.write data).2.limit = sink.limit := rfl

structure Wrote (first second left right : Sink) : Prop where
  room : left.room = right.room
  limit : right.limit = second.limit
  written : ∃ data, left.bytes = first.bytes ++ data ∧ right.bytes = second.bytes ++ data

variable {first second left right : Sink}

theorem Wrote.write (wrote : Wrote first second left right) (data : List UInt8) :
    (left.write data).1 = (right.write data).1 ∧
      Wrote first second (left.write data).2 (right.write data).2 := by
  have same : left.accepted data = right.accepted data := by
    rw [acceptedRoom, acceptedRoom, wrote.room]
  obtain ⟨before, atLeft, atRight⟩ := wrote.written
  refine ⟨?_, ?_, ?_, before ++ right.accepted data, ?_, ?_⟩
  · simp only [Sink.write, same]
  · rw [roomWrite, roomWrite, wrote.room, same]
  · rw [limitWrite, wrote.limit]
  · simp only [Sink.write, same, atLeft, List.append_assoc]
  · simp only [Sink.write, atRight, List.append_assoc]

theorem Wrote.writeLine (wrote : Wrote first second left right) (text : String) :
    (left.writeLine text).1 = (right.writeLine text).1 ∧
      Wrote first second (left.writeLine text).2 (right.writeLine text).2 := by
  obtain ⟨fits, written⟩ := wrote.write (utf8 text)
  unfold Sink.writeLine
  cases one : left.write (utf8 text) with
  | mk taken after =>
    cases two : right.write (utf8 text) with
    | mk other behind =>
      rw [one, two] at fits written
      obtain rfl : taken = other := fits
      cases taken with
      | true => exact written.write [0x0A]
      | false => exact ⟨rfl, written⟩

end Sink

namespace Independence

variable {first second : State} {α β γ δ : Type}

inductive Counterpart (first second : State) (made : Nat) : Value → Value → Prop where
  | plain {value : Value} (plain : value.isPlain = true) : Counterpart first second made value value
  | object {place : Nat} (below : place < made) : Counterpart first second made
      (.object (first.heap.size + place)) (.object (second.heap.size + place))

theorem Counterpart.later {made after : Nat} {left right : Value}
    (same : Counterpart first second made left right) (later : made ≤ after) :
    Counterpart first second after left right := by
  cases same with
  | plain plain => exact .plain plain
  | object below => exact .object (Nat.lt_of_lt_of_le below later)

theorem Counterpart.place {made : Nat} {left right : Address}
    (same : Counterpart first second made (.object left) (.object right)) :
    ∃ place < made, left = first.heap.size + place ∧ right = second.heap.size + place := by
  cases same with
  | plain plain => cases plain
  | object below => exact ⟨_, below, rfl, rfl⟩

structure Twin (first second : State) (made : Nat) (s t : State) : Prop where
  scope : Bindings.Related (Counterpart first second made) s.scope t.scope
  left : s.heap.size = first.heap.size + made
  right : t.heap.size = second.heap.size + made
  objects : ∀ {place}, place < made → ∃ a b,
    s.heap.get? (first.heap.size + place) = some a ∧
    t.heap.get? (second.heap.size + place) = some b ∧ a.cls = b.cls ∧
    Bindings.Related (Counterpart first second made) a.fields b.fields
  kept : ∀ {address}, address < second.heap.size →
    t.heap.get? address = second.heap.get? address
  sinks : Sink.Wrote first.sink second.sink s.sink t.sink

namespace Twin

variable {made : Nat} {s t : State}

theorem field {left right : Address} (twin : Twin first second made s t)
    (same : Counterpart first second made (.object left) (.object right)) (name : String) :
    Option.Rel (Counterpart first second made) (s.heap.field? left name)
      (t.heap.field? right name) := by
  obtain ⟨place, below, rfl, rfl⟩ := same.place
  obtain ⟨a, b, here, there, -, fields⟩ := twin.objects below
  unfold Heap.field?
  rw [here, there]
  exact fields.values name

theorem cls {left right : Address} (twin : Twin first second made s t)
    (same : Counterpart first second made (.object left) (.object right)) :
    (s.heap.get? left).map Object.cls = (t.heap.get? right).map Object.cls := by
  obtain ⟨place, below, rfl, rfl⟩ := same.place
  obtain ⟨a, b, here, there, alike, -⟩ := twin.objects below
  rw [here, there, Option.map_some, Option.map_some, alike]

theorem withScope {left right : Bindings} (twin : Twin first second made s t)
    (scopes : Bindings.Related (Counterpart first second made) left right) :
    Twin first second made { s with scope := left } { t with scope := right } :=
  ⟨scopes, twin.left, twin.right, twin.objects, twin.kept, twin.sinks⟩

theorem withField {a b : Address} {value other : Value} (twin : Twin first second made s t)
    (same : Counterpart first second made (.object a) (.object b))
    (values : Counterpart first second made value other) (name : String) :
    Twin first second made { s with heap := s.heap.setField a name value }
      { t with heap := t.heap.setField b name other } where
  scope := twin.scope
  left := by rw [Heap.sizeSetField, twin.left]
  right := by rw [Heap.sizeSetField, twin.right]
  sinks := twin.sinks
  objects := by
    intro place below
    obtain ⟨target, -, rfl, rfl⟩ := same.place
    obtain ⟨x, y, here, there, alike, fields⟩ := twin.objects below
    rw [Heap.getSetField, Heap.getSetField, here, there]
    by_cases hit : target = place
    · subst hit
      rw [if_pos rfl, if_pos rfl]
      exact ⟨_, _, rfl, rfl, alike, fields.insert values name⟩
    · rw [if_neg (hit ∘ Nat.add_left_cancel), if_neg (hit ∘ Nat.add_left_cancel)]
      exact ⟨x, y, rfl, rfl, alike, fields⟩
  kept := by
    intro address old
    obtain ⟨target, -, -, rfl⟩ := same.place
    have above : address < second.heap.size + target := Nat.lt_add_right target old
    rw [Heap.getSetField, if_neg (Nat.ne_of_gt above)]
    exact twin.kept old

theorem withObject (twin : Twin first second made s t) (cls : ClassId) :
    Twin first second (made + 1) { s with heap := s.heap.create cls }
      { t with heap := t.heap.create cls } where
  scope := twin.scope.imp fun same => same.later (Nat.le_succ made)
  left := by rw [Heap.sizeCreate, twin.left]; rfl
  right := by rw [Heap.sizeCreate, twin.right]; rfl
  sinks := twin.sinks
  objects := by
    intro place below
    rw [Heap.getCreate, Heap.getCreate, Heap.fresh, Heap.fresh, twin.left, twin.right]
    by_cases last : place = made
    · rw [if_pos (by rw [last]), if_pos (by rw [last])]
      exact ⟨_, _, rfl, rfl, rfl, Bindings.emptyRelated _⟩
    · rw [if_neg (last ∘ Nat.add_left_cancel), if_neg (last ∘ Nat.add_left_cancel)]
      have old := Nat.lt_of_le_of_ne (Nat.le_of_lt_succ below) last
      obtain ⟨a, b, atLeft, atRight, alike, fields⟩ := twin.objects old
      exact ⟨a, b, atLeft, atRight, alike, fields.imp fun same => same.later (Nat.le_succ made)⟩
  kept := by
    intro address old
    have above : address < second.heap.size + made := Nat.lt_add_right made old
    rw [Heap.getCreate, Heap.fresh, twin.right, if_neg (Nat.ne_of_lt above)]
    exact twin.kept old

end Twin

/- How the two runs end: alike, unless the first one is cut short. -/
inductive Ends (first second : State) (made : Nat) (R : Nat → α → β → Prop) :
    Outcome RuntimeError State α → Outcome RuntimeError State β → Prop where
  | done {after : Nat} {a : α} {b : β} {s t : State} (later : made ≤ after)
      (twin : Twin first second after s t) (related : R after a b) :
      Ends first second made R (.done a s) (.done b t)
  | failed {after : Nat} {error : RuntimeError} {s t : State} (later : made ≤ after)
      (twin : Twin first second after s t) :
      Ends first second made R (.failed error s) (.failed error t)
  | exhausted {right : Outcome RuntimeError State β} : Ends first second made R .exhausted right

theorem Ends.later {made after : Nat} {R : Nat → α → β → Prop}
    {left : Outcome RuntimeError State α} {right : Outcome RuntimeError State β}
    (ends : Ends first second after R left right) (later : made ≤ after) :
    Ends first second made R left right := by
  cases ends with
  | done more twin related => exact .done (Nat.le_trans later more) twin related
  | failed more twin => exact .failed (Nat.le_trans later more) twin
  | exhausted => exact .exhausted

def Paired (first second : State) (made : Nat) (R : Nat → α → β → Prop) (m : Exec α)
    (n : Exec β) : Prop :=
  ∀ s t, Twin first second made s t → Ends first second made R (m s) (n t)

theorem pairedBind {made : Nat} {R : Nat → α → β → Prop} {S : Nat → γ → δ → Prop} {m : Exec α}
    {n : Exec β} {f : α → Exec γ} {g : β → Exec δ} (before : Paired first second made R m n)
    (next : ∀ {after a b}, made ≤ after → R after a b →
      Paired first second after S (f a) (g b)) :
    Paired first second made S (m >>= f) (n >>= g) := by
  intro s t twin
  have ends := before s t twin
  rw [Machine.bindRun, Machine.bindRun]
  generalize m s = left at ends
  generalize n t = right at ends
  cases ends with
  | done later twin related => exact (next later related _ _ twin).later later
  | failed later twin => exact .failed later twin
  | exhausted => exact .exhausted

theorem pairedInScope {made : Nat} {R : Nat → α → β → Prop} {left right : Bindings} {m : Exec α}
    {n : Exec β} (scopes : Bindings.Related (Counterpart first second made) left right)
    (body : Paired first second made R m n) :
    Paired first second made R (Exec.inScope left m) (Exec.inScope right n) := by
  intro s t twin
  have ends := body _ _ (twin.withScope scopes)
  -- the scopes that are come back to hold objects that were made before
  have back : ∀ {after : Nat} {inner other : State}, made ≤ after →
      Twin first second after inner other →
      Twin first second after { inner with scope := s.scope } { other with scope := t.scope } :=
    fun later inside => inside.withScope (twin.scope.imp fun same => same.later later)
  unfold Exec.inScope
  generalize m { s with scope := left } = inside at ends
  generalize n { t with scope := right } = outside at ends
  cases ends with
  | done later twin related => exact .done later (back later twin) related
  | failed later twin => exact .failed later (back later twin)
  | exhausted => exact .exhausted

theorem pairedWriteLine {made : Nat} (text : String) :
    Paired first second made (fun _ _ _ => True) (Exec.writeLine text) (Exec.writeLine text) := by
  intro s t twin
  obtain ⟨fits, written⟩ := twin.sinks.writeLine text
  unfold Exec.writeLine
  cases one : s.sink.writeLine text with
  | mk taken after =>
    cases two : t.sink.writeLine text with
    | mk other behind =>
      rw [one, two] at fits written
      obtain rfl : taken = other := fits
      have kept : Twin first second made { s with sink := after } { t with sink := behind } :=
        ⟨twin.scope, twin.left, twin.right, twin.objects, twin.kept, written⟩
      cases taken with
      | true => exact .done (Nat.le_refl made) kept trivial
      | false => exact .failed (Nat.le_refl made) kept

def correspondence (first second : State) (classes : ClassTable) : Correspondence classes where
  World := Nat
  Later := Nat.le
  Same := Counterpart first second
  View := Twin first second
  Run := Paired first second
  sameLater later same := same.later later
  samePlain plain := .plain plain
  sameAlike same := by
    cases same with
    | plain plain => exact .plain plain
    | object below => exact .objects _ _
  viewScope twin := twin.scope
  viewField twin same name := twin.field same name
  viewClass twin same := twin.cls same
  runPure related := fun _ _ twin => .done (Nat.le_refl _) twin related
  runFail _ := fun _ _ twin => .failed (Nat.le_refl _) twin
  runExhaust := fun _ _ _ => .exhausted
  runBind before next := pairedBind before next
  runGet := fun _ _ twin => .done (Nat.le_refl _) twin twin
  runBindName same := fun _ _ twin =>
    .done (Nat.le_refl _) (twin.withScope (twin.scope.insert same _)) trivial
  runSetField same values := fun _ _ twin =>
    .done (Nat.le_refl _) (twin.withField same values _) trivial
  runCreate cls := by
    intro s t twin
    refine .done (Nat.le_succ _) (twin.withObject cls) ?_
    rw [Heap.fresh, Heap.fresh, twin.left, twin.right]
    exact .object (Nat.lt_succ_self _)
  runRecord _ := fun _ _ twin => .done (Nat.le_refl _)
    ⟨twin.scope, twin.left, twin.right, twin.objects, twin.kept, twin.sinks⟩ trivial
  runWriteLine text := pairedWriteLine text
  runInScope scopes body := pairedInScope scopes body

variable {classes : ClassTable}

theorem pairedDisplay {d e : Dispatch} (agree : (correspondence first second classes).Agree d e)
    {made : Nat} {left right : Value} (same : Counterpart first second made left right) :
    Paired first second made (fun _ => Eq) (left.displayPortable classes d)
      (right.display classes e) := by
  refine pairedBind (correspondence first second classes).runGet fun {after s t} later twin => ?_
  have same := same.later later
  have methods := (correspondence first second classes).sameStringMethod twin same
  dsimp only
  rw [← methods]
  split
  · exact pairedBind (agree.invoke _ same .nil) fun _ same => agree.display same
  · cases same with
    | plain plain =>
      rw [if_pos plain]
      refine (correspondence first second classes).runPure ?_
      cases left with
      | object => cases plain
      | bool value => cases value <;> rfl
      | _ => rfl
    | object below => exact fun _ _ _ => .exhausted

theorem portableAgree (first second : State) (classes : ClassTable) (depth : Nat) :
    (correspondence first second classes).Agree (.portable classes depth)
      (.within classes depth) := by
  have stuck : (correspondence first second classes).Agree .stuck .stuck :=
    ⟨fun _ _ _ _ _ _ => .exhausted, fun _ _ _ _ => .exhausted⟩
  induction depth with
  | zero => exact ⟨fun _ _ _ _ _ _ => .exhausted, fun same => pairedDisplay stuck same⟩
  | succ depth ih =>
    exact ⟨fun name same values =>
        (correspondence first second classes).runInvoke ih name same values,
      fun same => pairedDisplay ih same⟩

theorem pairedRun (first second : State) (depth : Nat) (program : Program) :
    Paired first second 0 (fun _ _ _ => True) (program.runPortable depth) (program.run depth) :=
  (correspondence first second program.classes).runProgramBy
    (portableAgree first second program.classes depth) (0 : Nat)

theorem Ends.ending {made : Nat} {R : Nat → Unit → Unit → Prop}
    {left right : Outcome RuntimeError State Unit} (ends : Ends first second made R left right)
    (ran : left ≠ .exhausted) :
    ∃ result s t after, left.ending? = some (result, s) ∧ right.ending? = some (result, t) ∧
      Twin first second after s t := by
  cases ends with
  | done _ twin _ => exact ⟨_, _, _, _, rfl, rfl, twin⟩
  | failed _ twin => exact ⟨_, _, _, _, rfl, rfl, twin⟩
  | exhausted => exact absurd rfl ran

theorem twinStart {first second : State} (scope : first.scope = .empty)
    (other : second.scope = .empty) (room : second.sink.room = first.sink.room) :
    Twin first second 0 first second where
  scope := by rw [scope, other]; exact Bindings.emptyRelated _
  left := rfl
  right := rfl
  objects below := absurd below (Nat.not_lt_zero _)
  kept _ := rfl
  sinks := ⟨room.symm, rfl, [], by simp, by simp⟩

end Independence

theorem Exec.inScopeOuter {α : Type} (scope outer : Bindings) (body : Exec α) (state : State) :
    inScope scope body { state with scope := outer } =
      (inScope scope body state).mapState fun after => { after with scope := outer } := by
  unfold inScope
  cases body { state with scope := scope } <;> rfl

theorem Program.runByOuter {α : Type} (program : Program) (perform : List Stmt → Exec α)
    (state : State) (outer : Bindings) : program.runBy perform { state with scope := outer } =
      (program.runBy perform state).mapState fun after => { after with scope := outer } :=
  Exec.inScopeOuter .empty outer _ { state with trace := state.trace.push _ }

theorem Outcome.endingMap {ε σ α : Type} (outcome : Outcome ε σ α) (change : σ → σ) :
    (outcome.mapState change).ending? =
      outcome.ending?.map fun ending => (ending.1, change ending.2) := by
  cases outcome <;> rfl

theorem Program.runBesidePortable {depth : Nat} {program : Program} {state : State}
    (portable : program.runPortable depth state ≠ .exhausted) :
    ∃ result written, ∀ other : State, other.sink.room = state.sink.room →
      ∃ final, (program.run depth other).ending? = some (result, final) ∧
        final.sink.bytes = other.sink.bytes ++ written ∧ final.sink.limit = other.sink.limit ∧
        ∀ address < other.heap.size, final.heap.get? address = other.heap.get? address := by
  let start : State := { state with scope := .empty }
  have ran : program.runPortable depth start ≠ .exhausted := by
    intro cut
    rw [runPortable, program.runByOuter] at cut
    unfold runPortable at portable
    generalize program.runBy _ state = outcome at cut portable
    cases outcome with
    | exhausted => exact portable rfl
    | done | failed => cases cut
  have beside := fun other : State =>
    Independence.pairedRun start { other with scope := .empty } depth program start
      { other with scope := .empty }
  obtain ⟨result, s, t, _, ended, -, twin⟩ :=
    (beside state (Independence.twinStart rfl rfl rfl)).ending ran
  obtain ⟨written, bytes, -⟩ := twin.sinks.written
  refine ⟨result, written, fun other room => ?_⟩
  obtain ⟨_, _, t, _, again, final, twin⟩ :=
    (beside other (Independence.twinStart rfl rfl room)).ending ran
  rw [ended] at again
  cases again
  obtain ⟨data, same, more⟩ := twin.sinks.written
  obtain rfl : written = data := List.append_cancel_left (bytes.symm.trans same)
  have back : program.run depth other =
      (program.run depth { other with scope := .empty }).mapState
        fun after => { after with scope := other.scope } :=
    program.runByOuter _ { other with scope := .empty } other.scope
  refine ⟨{ t with scope := other.scope }, ?_, more, twin.sinks.limit, fun address => twin.kept⟩
  rw [back, Outcome.endingMap, final]
  rfl

theorem runIndependent (depth : Nat) (program : Program) (state : State)
    (result : Except RuntimeError Unit) (after : State)
    (ended : (program.run depth state).ending? = some (result, after))
    (portable : program.runPortable depth state ≠ .exhausted) :
    ∃ written,
      (∀ other : State, other.sink.room = state.sink.room →
        ∃ final, (program.run depth other).ending? = some (result, final) ∧
          final.sink.bytes = other.sink.bytes ++ written ∧
          ∀ address < other.heap.size, final.heap.get? address = other.heap.get? address) ∧
      (state.sink.limit = none → ∀ times, ∃ final,
        program.runTimes depth times state = some (List.replicate times result, final) ∧
          final.sink.bytes = state.sink.bytes ++ (List.replicate times written).flatten) := by
  obtain ⟨same, written, beside⟩ := Program.runBesidePortable portable
  obtain ⟨_, again, -, -⟩ := beside state rfl
  rw [ended] at again
  cases again
  refine ⟨written, fun other room => ?_, fun unlimited times => ?_⟩
  · obtain ⟨final, run, bytes, -, kept⟩ := beside other room
    exact ⟨final, run, bytes, kept⟩
  · have free : state.sink.room = none := by rw [Sink.room, unlimited]; rfl
    -- each run starts on the sink that the one before it left, which is unlimited still
    have each : ∀ other : State, other.sink.limit = none → ∃ final,
        program.runTimes depth times other = some (List.replicate times result, final) ∧
          final.sink.bytes = other.sink.bytes ++ (List.replicate times written).flatten := by
      induction times with
      | zero => exact fun other _ => ⟨other, rfl, by simp⟩
      | succ times ih =>
        intro other limit
        obtain ⟨between, run, bytes, still, -⟩ := beside other (by rw [free, Sink.room, limit]; rfl)
        obtain ⟨final, rest, more⟩ := ih between (still.trans limit)
        refine ⟨final, ?_, ?_⟩
        · simp only [Program.runTimes, run, rest, Option.bind_eq_bind, Option.bind_some]
          rfl
        · rw [more, bytes, List.replicate_succ, List.flatten_cons, List.append_assoc]
    exact each state unlimited

def spoken : Program :=
  ⟨[.assign "x" (.create 0 []), .print [.path ["x"]]],
    ClassTable.empty.declare "A" none
      [⟨"__str__", [], .block [.print [.string "a"], .result (.string "b")]⟩]⟩

theorem runIndependentSpoken :
    ∃ final, spoken.runTimes 2 2 (.initial .unlimited) = some ([.ok (), .ok ()], final) ∧
      final.sink.bytes = [0x61, 0x0A, 0x62, 0x0A, 0x61, 0x0A, 0x62, 0x0A] := by
  obtain ⟨written, once, often⟩ := runIndependent 2 spoken (.initial .unlimited) (.ok ()) _ rfl
    (by intro cut; cases cut)
  obtain ⟨final, ran, bytes⟩ := often rfl 2
  obtain ⟨_, single, output, -⟩ := once (.initial .unlimited) rfl
  cases single
  obtain rfl : written = [0x61, 0x0A, 0x62, 0x0A] := output.symm.trans (by decide)
  exact ⟨final, ran, bytes⟩

end Offside
