import Offside.Execution.Dispatch

/-! Inheritance. The table of a class is made once, over the table of its parent; what it holds under a
name is what a walk from the class to the root of its chain finds. A call is taken or refused by
that walk, before anything is executed. -/
namespace Offside

namespace Method

def lastNamed (name : String) (methods : List Method) : Option Method :=
  (methods.filter fun method => method.name = name).getLast?

theorem lastNamedCons (name : String) (first : Method) (rest : List Method) :
    lastNamed name (first :: rest) =
      (lastNamed name rest).or (if first.name = name then some first else none) := by
  unfold lastNamed
  by_cases named : first.name = name
  · simp only [named, decide_true, List.filter_cons_of_pos, List.getLast?_cons, if_true]
    cases (rest.filter fun method => method.name = name).getLast? <;> rfl
  · simp [named]

end Method

namespace ClassDef

theorem findOverlaid (name : String) (owner : ClassId) (declared : List Method)
    (inherited : List MethodEntry) :
    MethodEntry.find? name
        (declared.foldl (fun table method => MethodEntry.insert ⟨method, owner⟩ table) inherited) =
      ((Method.lastNamed name declared).map (⟨·, owner⟩)).or (MethodEntry.find? name inherited) := by
  induction declared generalizing inherited with
  | nil => rfl
  | cons first rest ih =>
    rw [List.foldl_cons, ih, MethodEntry.findInsert, Method.lastNamedCons]
    cases Method.lastNamed name rest with
    | some last => rfl
    | none => by_cases named : first.name = name <;> simp [named]

/- A constructor is only added where none has been declared or inherited. -/
theorem findMethodsOver (name : String) (owner : ClassId) (declared : List Method)
    (inherited : List MethodEntry) :
    MethodEntry.find? name (methodsOver inherited owner declared) =
      (((Method.lastNamed name declared).map (⟨·, owner⟩)).or
        (MethodEntry.find? name inherited)).or
          (if name = Method.initName then some ⟨Method.defaultInit, owner⟩ else none) := by
  have overlaid := fun key => findOverlaid key owner declared inherited
  unfold methodsOver
  dsimp only
  cases found : MethodEntry.find? Method.initName
      (declared.foldl (fun table method => MethodEntry.insert ⟨method, owner⟩ table) inherited) with
  | some entry =>
    dsimp only
    by_cases constructor : name = Method.initName
    · rw [constructor, ← overlaid, found]
      rfl
    · rw [if_neg constructor, Option.or_none, overlaid]
  | none =>
    dsimp only
    rw [MethodEntry.findInsert, ← overlaid]
    by_cases constructor : name = Method.initName
    · rw [constructor, found, if_pos rfl]
      rfl
    · have other : Method.defaultInit.name ≠ name := fun same => constructor same.symm
      rw [if_neg other, if_neg constructor, Option.or_none]

end ClassDef

namespace ClassTable

inductive Built : ClassTable → Prop where
  | empty : Built .empty
  | hidden {table : ClassTable} (built : Built table) : Built table.hideAll
  | declared {table : ClassTable} {parent : Option ClassId} (built : Built table)
      (known : ∀ id, parent = some id → id < table.classes.size) (name : String)
      (methods : List Method) : Built (table.declare name parent methods)

/-- Looks for a method in a class, then in its parent and so on: the last one that a class declares
under the name. At the root there is a constructor in any case. -/
def walk (table : ClassTable) (name : String) (id : ClassId) : Option MethodEntry :=
  match table.get? id with
  | none => none
  | some cls =>
    match Method.lastNamed name cls.declared with
    | some method => some ⟨method, id⟩
    | none =>
      match cls.parent with
      -- parents come before their children, and a table where they do not is never built
      | some parent => if parent < id then table.walk name parent else none
      | none => if name = Method.initName then some ⟨Method.defaultInit, id⟩ else none
termination_by id

theorem walkSame {left right : ClassTable} {name : String} {id : ClassId}
    (same : ∀ other ≤ id, left.get? other = right.get? other) :
    left.walk name id = right.walk name id := by
  induction id using Nat.strongRecOn with
  | ind id ih =>
    rw [walk, walk, same id (Nat.le_refl id)]
    cases right.get? id with
    | none => rfl
    | some cls =>
      dsimp only
      cases Method.lastNamed name cls.declared with
      | some method => rfl
      | none =>
        cases cls.parent with
        | none => rfl
        | some parent =>
          by_cases below : parent < id
          · simp only [if_pos below]
            exact ih parent below fun other within =>
              same other (Nat.le_trans within (Nat.le_of_lt below))
          · simp only [if_neg below]

theorem getDeclare (table : ClassTable) (name : String) (parent : Option ClassId)
    (declared : List Method) (id : ClassId) :
    (table.declare name parent declared).get? id =
      if id = table.classes.size then some (table.newClass name parent declared)
      else table.get? id := by
  simp only [get?, declare, Array.getElem?_push]

theorem findNew (table : ClassTable) (name : String) (parent : Option ClassId)
    (declared : List Method) (key : String) :
    MethodEntry.find? key ((table.declare name parent declared).methodsOf table.classes.size) =
      (((Method.lastNamed key declared).map (⟨·, table.classes.size⟩)).or
        (parent.bind fun id => MethodEntry.find? key (table.methodsOf id))).or
          (if key = Method.initName then some ⟨Method.defaultInit, table.classes.size⟩ else none) := by
  rw [methodsOf, getDeclare, if_pos rfl]
  cases parent <;> exact ClassDef.findMethodsOver key _ declared _

theorem methodsOfOld {table : ClassTable} {id : ClassId} (old : id ≠ table.classes.size)
    (name : String) (parent : Option ClassId) (declared : List Method) :
    (table.declare name parent declared).methodsOf id = table.methodsOf id := by
  rw [methodsOf, methodsOf, getDeclare, if_neg old]

theorem constructorFound {table : ClassTable} (built : table.Built) {id : ClassId}
    (known : id < table.classes.size) :
    ∃ entry, MethodEntry.find? Method.initName (table.methodsOf id) = some entry := by
  induction built with
  | empty => exact absurd known (Nat.not_lt_zero id)
  | hidden _ ih => exact ih known
  | @declared table parent _ _ name methods ih =>
    by_cases last : id = table.classes.size
    · rw [last, findNew, if_pos rfl]
      cases (Option.map _ _).or _ <;> exact ⟨_, rfl⟩
    · rw [methodsOfOld last]
      rw [declare, Array.size_push] at known
      exact ih (Nat.lt_of_le_of_ne (Nat.le_of_lt_succ known) last)

theorem walkOld {table : ClassTable} {id : ClassId} (known : id < table.classes.size)
    (name : String) (parent : Option ClassId) (declared : List Method) (key : String) :
    (table.declare name parent declared).walk key id = table.walk key id := by
  refine walkSame fun other within => ?_
  rw [getDeclare, if_neg (Nat.ne_of_lt (Nat.lt_of_le_of_lt within known))]

theorem findWalk {table : ClassTable} (built : table.Built) (name : String) (id : ClassId) :
    MethodEntry.find? name (table.methodsOf id) = table.walk name id := by
  induction built generalizing id with
  | empty => rw [walk]; rfl
  | @hidden table _ ih =>
    have same : table.hideAll.walk name id = table.walk name id := walkSame fun _ _ => rfl
    rw [same, ← ih id]
    rfl
  | @declared table parent built known key methods ih =>
    by_cases last : id = table.classes.size
    · subst last
      rw [findNew, walk, getDeclare, if_pos rfl]
      dsimp only [newClass]
      cases Method.lastNamed name methods with
      | some method => rfl
      | none =>
        cases parent with
        | none => rfl
        | some parent =>
          have below := known parent rfl
          simp only [if_pos below, walkOld below, ← ih parent, Option.map_none, Option.none_or,
            Option.bind_some]
          -- the parent has a constructor, so none is added here
          by_cases constructor : name = Method.initName
          · obtain ⟨entry, found⟩ := constructorFound built below
            rw [constructor, found]
            rfl
          · rw [if_neg constructor, Option.or_none]
    · rw [methodsOfOld last, ih id]
      by_cases known : id < table.classes.size
      · rw [walkOld known]
      · have absent : table.get? id = none := Array.getElem?_eq_none (Nat.not_lt.mp known)
        rw [walk, walk, getDeclare, if_neg last, absent]

theorem methodTakingWalk {table : ClassTable} (built : table.Built) (id : ClassId) (name : String)
    (arity : Nat) : table.methodTaking? id name arity =
      (table.walk name id).bind fun entry =>
        if entry.method.params.length = arity then some entry.method else none := by
  rw [← findWalk built, methodTaking?, methodsOf]
  cases table.get? id with
  | none => rfl
  | some cls =>
    simp only [ClassDef.methodTaking?, ClassDef.method?]
    cases MethodEntry.find? name cls.methods <;> rfl

end ClassTable

theorem callScopeGet (receiver : Value) (params : List String) (args : List Value) (name : String) :
    (callScope receiver params args).get? name =
      ((params.zip args).reverse.lookup name).or (if name = "self" then some receiver else none) := by
  have bound : ∀ (pairs : List (String × Value)) (scope : Bindings),
      (pairs.foldl (fun scope binding => scope.insert binding.1 binding.2) scope).get? name =
        (pairs.reverse.lookup name).or (scope.get? name) := by
    intro pairs
    induction pairs with
    | nil => intro scope; rfl
    | cons first rest ih =>
      intro scope
      obtain ⟨key, value⟩ := first
      rw [List.foldl_cons, ih, List.reverse_cons, List.lookup_append, Option.or_assoc,
        Bindings.getInsert]
      by_cases same : key = name
      · simp [same]
      · have differ : (name == key) = false := by simpa using fun eq => same eq.symm
        simp [List.lookup_cons, same, differ]
  rw [callScope, bound, Bindings.getInsert]
  by_cases self : name = "self"
  · simp [self]
  · simp [self, Ne.symm self]

theorem invokeObject (classes : ClassTable) (dispatch : Dispatch) (address : Address) (name : String)
    (args : List Value) (state : State) :
    (Value.object address).invoke classes dispatch name args state =
      match state.heap.methodTaking? classes address name args.length with
      | none => .failed (.noMethod (state.heap.className classes address) name args.length) state
      | some method =>
        Exec.inScope (callScope (.object address) method.params args)
          (method.body.exec classes dispatch)
          { state with
            trace := state.trace.push (.methodCalled (state.heap.className classes address) name) } := by
  change (match state.heap.methodTaking? classes address name args.length with
    | none => Machine.fail _
    | some method => Exec.record _ >>= fun _ => Exec.inScope _ _ : Exec Value) state = _
  cases state.heap.methodTaking? classes address name args.length <;> rfl

theorem invokeByWalk {classes : ClassTable} (built : classes.Built) (dispatch : Dispatch)
    (state : State) (address : Address) (object : Object)
    (present : state.heap.get? address = some object) (name : String) (args : List Value) :
    MethodEntry.find? name (classes.methodsOf object.cls) = classes.walk name object.cls ∧
    ((∀ entry, classes.walk name object.cls = some entry →
        entry.method.params.length ≠ args.length) →
      ∀ caller, (Value.object address).invoke classes dispatch name args
          { state with scope := caller } =
        .failed (.noMethod (classes.nameOf object.cls) name args.length)
          { state with scope := caller }) ∧
    ∀ entry, classes.walk name object.cls = some entry →
      entry.method.params.length = args.length →
      ∃ scope : Bindings,
        (∀ key, scope.get? key = ((entry.method.params.zip args).reverse.lookup key).or
          (if key = "self" then some (.object address) else none)) ∧
        ∀ caller, (Value.object address).invoke classes dispatch name args
            { state with scope := caller } =
          (entry.method.body.exec classes dispatch
            { state with
              scope := scope
              trace := state.trace.push (.methodCalled (classes.nameOf object.cls) name) }).mapState
            fun after => { after with scope := caller } := by
  have taken : state.heap.methodTaking? classes address name args.length =
      (classes.walk name object.cls).bind fun entry =>
        if entry.method.params.length = args.length then some entry.method else none := by
    rw [Heap.methodTaking?, present, ← ClassTable.methodTakingWalk built]
  have named : state.heap.className classes address = classes.nameOf object.cls := by
    rw [Heap.className, present]
  refine ⟨ClassTable.findWalk built name object.cls, fun refused caller => ?_,
    fun entry found fits => ?_⟩
  · have missing : state.heap.methodTaking? classes address name args.length = none := by
      rw [taken]
      cases found : classes.walk name object.cls with
      | none => rfl
      | some entry => exact if_neg (refused entry found)
    rw [invokeObject]
    simp only [missing, named]
  · have chosen : state.heap.methodTaking? classes address name args.length =
        some entry.method := by
      rw [taken, found, Option.bind_some, if_pos fits]
    refine ⟨callScope (.object address) entry.method.params args,
      callScopeGet (.object address) entry.method.params args, fun caller => ?_⟩
    rw [invokeObject]
    simp only [chosen, named]
    rfl

def overridden : ClassTable :=
  (ClassTable.empty.declare "A" none [⟨"m", ["x"], .result (.path ["x"])⟩]).declare "B" (some 0)
    [⟨"m", ["x", "y"], .none⟩, ⟨"m", [], .result (.path ["self"])⟩]

theorem invokeByWalkOverridden :
    overridden.Built ∧
    overridden.walk Method.initName 1 = some ⟨Method.defaultInit, 0⟩ ∧
    (Value.object 0).invoke overridden .stuck "m" [.number 1]
        ⟨.empty, Heap.empty.create 1, .unlimited, .empty⟩ =
      .failed (.noMethod "B" "m" 1) ⟨.empty, Heap.empty.create 1, .unlimited, .empty⟩ := by
  have built : overridden.Built := by
    refine .declared (.declared .empty ?_ "A" _) ?_ "B" _
    · simp
    · rintro id ⟨⟩
      exact Nat.zero_lt_one
  let state : State := ⟨.empty, Heap.empty.create 1, .unlimited, .empty⟩
  have called := fun name args => invokeByWalk built .stuck state 0 ⟨1, .empty⟩ rfl name args
  refine ⟨built, (called Method.initName []).1.symm, (called "m" [.number 1]).2.1 ?_ .empty⟩
  intro entry found
  rw [← (called "m" []).1] at found
  cases found
  decide

end Offside
