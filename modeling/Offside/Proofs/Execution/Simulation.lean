import Mathlib.Data.List.Forall2
import Offside.Execution.Run

/-! Two executions of one statement, side by side. What is said of them is left open: a correspondence
is any way to relate computations that goes through the steps of the machine, and a simulation one
under which the two sides show objects alike. What it says then holds of every statement, because
statements are made of these steps, and of every depth of calls. -/
namespace Offside

namespace Value

def isPlain : Value → Bool
  | .object _ => false
  | _ => true

inductive Alike : Value → Value → Prop where
  | plain {value : Value} (same : value.isPlain = true) : Alike value value
  | objects (left right : Address) : Alike (.object left) (.object right)

theorem alikeSelf (value : Value) : Alike value value := by
  cases value with
  | object address => exact .objects address address
  | _ => exact .plain rfl

end Value

theorem relatedCases {α β : Type} {R : α → β → Prop} {left : Option α} {right : Option β}
    (related : Option.Rel R left right) :
    left = none ∧ right = none ∨ ∃ a b, left = some a ∧ right = some b ∧ R a b := by
  cases related with
  | none => exact .inl ⟨rfl, rfl⟩
  | some same => exact .inr ⟨_, _, rfl, rfl, same⟩

namespace Bindings

structure Related (R : Value → Value → Prop) (left right : Bindings) : Prop where
  values : ∀ name, Option.Rel R (left.get? name) (right.get? name)
  size : left.size = right.size

theorem sizeInsert (bindings : Bindings) (name : String) (value : Value) :
    (bindings.insert name value).size = bindings.size + if bindings.contains name then 0 else 1 := by
  have entries : ∀ entries : List (String × Value), (replace name value entries).length =
      entries.length + if (lookup name entries).isSome then 0 else 1 := by
    intro entries
    induction entries with
    | nil => rfl
    | cons head rest ih =>
      obtain ⟨key, old⟩ := head
      by_cases same : key = name
      · simp [replace, lookup, same]
      · simp only [replace, lookup, if_neg same, List.length_cons, ih]
        omega
  exact entries bindings.entries

theorem Related.contains {R : Value → Value → Prop} {left right : Bindings}
    (related : Related R left right) (name : String) : left.contains name = right.contains name := by
  unfold Bindings.contains
  rcases relatedCases (related.values name) with ⟨first, second⟩ | ⟨a, b, first, second, -⟩
  · rw [first, second]
  · rw [first, second]
    rfl

theorem Related.insert {R : Value → Value → Prop} {left right : Bindings} {value other : Value}
    (related : Related R left right) (same : R value other) (name : String) :
    Related R (left.insert name value) (right.insert name other) := by
  constructor
  · intro key
    rw [getInsert, getInsert]
    split
    · exact .some same
    · exact related.values key
  · rw [sizeInsert, sizeInsert, related.size, related.contains name]

theorem Related.imp {R S : Value → Value → Prop} {left right : Bindings}
    (related : Related R left right) (implied : ∀ {value other}, R value other → S value other) :
    Related S left right := by
  refine ⟨fun name => ?_, related.size⟩
  rcases relatedCases (related.values name) with ⟨first, second⟩ | ⟨a, b, first, second, same⟩
  · rw [first, second]
    exact .none
  · rw [first, second]
    exact .some (implied same)

theorem Related.refl (bindings : Bindings) : Related Eq bindings bindings := by
  refine ⟨fun name => ?_, rfl⟩
  cases bindings.get? name with
  | none => exact .none
  | some value => exact .some rfl

theorem emptyRelated (R : Value → Value → Prop) : Related R .empty .empty :=
  ⟨fun _ => .none, rfl⟩

end Bindings

def Except.Matched {ε α β : Type} (R : α → β → Prop) : Except ε α → Except ε β → Prop
  | .ok a, .ok b => R a b
  | .error first, .error second => first = second
  | _, _ => False

namespace Heap

theorem classNameOf (heap : Heap) (classes : ClassTable) (address : Address) :
    heap.className classes address =
      ((heap.get? address).map Object.cls).elim "" classes.nameOf := by
  unfold className
  cases heap.get? address <;> rfl

theorem methodTakingOf (heap : Heap) (classes : ClassTable) (address : Address) (name : String)
    (arity : Nat) : heap.methodTaking? classes address name arity =
      ((heap.get? address).map Object.cls).bind (classes.methodTaking? · name arity) := by
  unfold methodTaking?
  cases heap.get? address <;> rfl

end Heap

/- A world is what has been learned so far about the two executions, and later worlds hold what
earlier ones do. `View` is about the scope and the heap of the two sides, which they may look at;
`Run` is about computations that start where the world is right, and it takes a relation for
their values. -/
structure Correspondence (classes : ClassTable) where
  World : Type
  Later : World → World → Prop
  Same : World → Value → Value → Prop
  View : World → State → State → Prop
  Run : {α β : Type} → World → (World → α → β → Prop) → Exec α → Exec β → Prop
  sameLater : ∀ {w after left right}, Later w after → Same w left right → Same after left right
  samePlain : ∀ {w value}, value.isPlain = true → Same w value value
  sameAlike : ∀ {w left right}, Same w left right → left.Alike right
  viewScope : ∀ {w s t}, View w s t → Bindings.Related (Same w) s.scope t.scope
  viewField : ∀ {w s t left right}, View w s t → Same w (.object left) (.object right) →
    ∀ name, Option.Rel (Same w) (s.heap.field? left name) (t.heap.field? right name)
  viewClass : ∀ {w s t left right}, View w s t → Same w (.object left) (.object right) →
    (s.heap.get? left).map Object.cls = (t.heap.get? right).map Object.cls
  runPure : ∀ {α β w} {R : World → α → β → Prop} {a b}, R w a b → Run w R (pure a) (pure b)
  runFail : ∀ {α β w} {R : World → α → β → Prop} error,
    Run w R (Machine.fail error) (Machine.fail error)
  runExhaust : ∀ {α β w} {R : World → α → β → Prop}, Run w R Machine.exhaust Machine.exhaust
  runBind : ∀ {α β γ δ w} {R : World → α → β → Prop} {S : World → γ → δ → Prop} {m n f g},
    Run w R m n → (∀ {after a b}, Later w after → R after a b → Run after S (f a) (g b)) →
    Run w S (m >>= f) (n >>= g)
  runGet : ∀ {w}, Run w View Machine.get Machine.get
  runBindName : ∀ {w name left right}, Same w left right →
    Run w (fun _ _ _ => True) (Exec.bindName name left) (Exec.bindName name right)
  runSetField : ∀ {w a b field left right}, Same w (.object a) (.object b) → Same w left right →
    Run w (fun _ _ _ => True) (Exec.setField a field left) (Exec.setField b field right)
  runCreate : ∀ {w} cls,
    Run w (fun after a b => Same after (.object a) (.object b)) (Exec.create cls) (Exec.create cls)
  runRecord : ∀ {w} event, Run w (fun _ _ _ => True) (Exec.record event) (Exec.record event)
  runWriteLine : ∀ {w} text, Run w (fun _ _ _ => True) (Exec.writeLine text) (Exec.writeLine text)
  runInScope : ∀ {α β w} {R : World → α → β → Prop} {left right : Bindings} {m n},
    Bindings.Related (Same w) left right → Run w R m n →
    Run w R (Exec.inScope left m) (Exec.inScope right n)

/- An object whose class has no method for its text has the same text on both sides. -/
structure Simulation (classes : ClassTable) extends Correspondence classes where
  runPlainText : ∀ {w s t left right}, View w s t → Same w left right →
    left.hasStringMethod classes s.heap = false →
    Run w (fun _ => Eq) (pure (left.plainText classes s.heap))
      (pure (right.plainText classes t.heap))

namespace Correspondence

variable {classes : ClassTable} (sim : Correspondence classes)

theorem sameTruthy {w : sim.World} {left right : Value} (same : sim.Same w left right) :
    left.truthy = right.truthy := by
  cases sim.sameAlike same <;> rfl

theorem sameNone {w : sim.World} {left right : Value} (same : sim.Same w left right) :
    (left != .none) = (right != .none) := by
  cases sim.sameAlike same <;> rfl

theorem runExcept {α β : Type} {w : sim.World} {R : sim.World → α → β → Prop}
    {left : Except RuntimeError α} {right : Except RuntimeError β}
    (same : Except.Matched (R w) left right) :
    sim.Run w R (Machine.ofExcept left) (Machine.ofExcept right) := by
  cases left with
  | error error =>
    cases right with
    | error other =>
      obtain rfl : error = other := same
      exact sim.runFail error
    | ok b => cases same
  | ok a =>
    cases right with
    | error other => cases same
    | ok b => exact sim.runPure same

theorem sameClassName {w : sim.World} {s t : State} {left right : Address} (view : sim.View w s t)
    (same : sim.Same w (.object left) (.object right)) :
    s.heap.className classes left = t.heap.className classes right := by
  rw [Heap.classNameOf, Heap.classNameOf, sim.viewClass view same]

theorem sameMethod {w : sim.World} {s t : State} {left right : Address} (view : sim.View w s t)
    (same : sim.Same w (.object left) (.object right)) (name : String) (arity : Nat) :
    s.heap.methodTaking? classes left name arity = t.heap.methodTaking? classes right name arity := by
  rw [Heap.methodTakingOf, Heap.methodTakingOf, sim.viewClass view same]

theorem sameType {w : sim.World} {s t : State} {left right : Value} (view : sim.View w s t)
    (same : sim.Same w left right) :
    left.typeName classes s.heap = right.typeName classes t.heap := by
  cases sim.sameAlike same with
  | plain plain => cases left <;> first | rfl | cases plain
  | objects a b => exact sim.sameClassName view same

theorem runTypeName {w : sim.World} {left right : Value} (same : sim.Same w left right) :
    sim.Run w (fun _ => Eq) (Exec.typeName classes left) (Exec.typeName classes right) := by
  change sim.Run w (fun _ => Eq) (Machine.get >>= fun s => pure (left.typeName classes s.heap))
    (Machine.get >>= fun t => pure (right.typeName classes t.heap))
  refine sim.runBind sim.runGet fun later view => sim.runPure ?_
  exact sim.sameType view (sim.sameLater later same)

theorem sameStringMethod {w : sim.World} {s t : State} {left right : Value} (view : sim.View w s t)
    (same : sim.Same w left right) :
    left.hasStringMethod classes s.heap = right.hasStringMethod classes t.heap := by
  cases sim.sameAlike same with
  | plain plain => cases left <;> first | rfl | cases plain
  | objects a b => exact congrArg Option.isSome (sim.sameMethod view same _ _)

structure Agree (left right : Dispatch) : Prop where
  invoke : ∀ {w receiver other args others} name, sim.Same w receiver other →
    List.Forall₂ (sim.Same w) args others →
    sim.Run w sim.Same (left.invoke receiver name args) (right.invoke other name others)
  display : ∀ {w value other}, sim.Same w value other →
    sim.Run w (fun _ => Eq) (left.display value) (right.display other)

variable {d e : Dispatch}

theorem runArithmetic (agree : sim.Agree d e) (op : ArithmeticOp) {w : sim.World}
    {a b x y : Value} (first : sim.Same w a x) (second : sim.Same w b y) :
    sim.Run w sim.Same (Exec.arithmetic classes d op a b) (Exec.arithmetic classes e op x y) := by
  refine sim.runBind sim.runGet fun {after s t} later view => ?_
  have first := sim.sameLater later first
  have second := sim.sameLater later second
  have methods : ∀ {left right}, a = .object left → x = .object right →
      s.heap.methodTaking? classes left op.methodName 1 =
        t.heap.methodTaking? classes right op.methodName 1 := by
    rintro left right rfl rfl
    exact sim.sameMethod view first _ _
  dsimp only
  rw [sim.sameType view first, sim.sameType view second]
  -- objects choose by their class, which is the same; other values are equal on the two sides
  cases sim.sameAlike first with
  | objects left right =>
    simp only [methods rfl rfl]
    split
    · exact agree.invoke _ first (.cons second .nil)
    · exact sim.runFail _
  | plain plain =>
    cases sim.sameAlike second with
    | objects left right => cases a <;> first | exact sim.runFail _ | cases plain
    | plain other =>
      cases a with
      | number left =>
        cases b with
        | number right =>
          refine sim.runExcept ?_
          cases op.apply left right with
          | error error => rfl
          | ok result => exact sim.samePlain rfl
        | _ => exact sim.runFail _
      | string left =>
        cases b with
        | string right =>
          dsimp only
          split
          · exact sim.runPure (sim.samePlain rfl)
          · exact sim.runFail _
        | _ => exact sim.runFail _
      | object => cases plain
      | _ => exact sim.runFail _

theorem sameHolds (relation : Relation) {w : sim.World} {a b x y : Value}
    (first : sim.Same w a x) (second : sim.Same w b y) :
    relation.holds? a b = relation.holds? x y := by
  cases sim.sameAlike first with
  | objects left right => cases relation <;> rfl
  | plain plain =>
    cases sim.sameAlike second with
    | objects left right => cases a <;> cases relation <;> rfl
    | plain other => rfl

theorem runCompare (relation : Relation) {w : sim.World} {a b x y : Value}
    (first : sim.Same w a x) (second : sim.Same w b y) :
    sim.Run w sim.Same (Exec.compare classes relation a b) (Exec.compare classes relation x y) := by
  refine sim.runBind sim.runGet fun {after s t} later view => sim.runExcept ?_
  have first := sim.sameLater later first
  have second := sim.sameLater later second
  unfold Relation.decide
  rw [sim.sameHolds relation first second]
  cases relation.holds? x y with
  | some verdict => exact sim.samePlain rfl
  | none => simp only [sim.sameType view first, sim.sameType view second]; rfl

theorem sameFollow {w : sim.World} {s t : State} (view : sim.View w s t) (walked fields : Path)
    {left right : Value} (same : sim.Same w left right) :
    Except.Matched (sim.Same w) (Path.follow classes s.heap walked left fields)
      (Path.follow classes t.heap walked right fields) := by
  induction fields generalizing walked left right with
  | nil => exact same
  | cons field rest ih =>
    have types := sim.sameType view same
    cases sim.sameAlike same with
    | plain plain =>
      cases left with
      | object => cases plain
      | _ => rfl
    | objects a b =>
      rw [Path.follow, Path.follow]
      rcases relatedCases (sim.viewField view same field) with
        ⟨first, second⟩ | ⟨value, other, first, second, next⟩
      · simp only [first, second, types, Except.Matched]
      · simp only [first, second]
        exact ih _ next

theorem runReadPath (path : Path) {w : sim.World} :
    sim.Run w sim.Same (Exec.readPath classes path) (Exec.readPath classes path) := by
  refine sim.runBind sim.runGet fun {after s t} _ view => sim.runExcept ?_
  cases path with
  | nil => rfl
  | cons name fields =>
    rw [Path.read, Path.read]
    rcases relatedCases ((sim.viewScope view).values name) with
      ⟨first, second⟩ | ⟨value, other, first, second, same⟩
    · simp only [first, second, Except.Matched]
    · simp only [first, second]
      exact sim.sameFollow view _ _ same

theorem runRequireObject (description : String) {w : sim.World} {left right : Value}
    (same : sim.Same w left right) :
    sim.Run w (fun after a b => sim.Same after (.object a) (.object b))
      (Exec.requireObject classes description left) (Exec.requireObject classes description right) := by
  cases sim.sameAlike same with
  | objects a b => exact sim.runPure same
  | plain plain =>
    cases left with
    | object => cases plain
    | _ =>
      refine sim.runBind (sim.runTypeName same) fun _ names => ?_
      rw [names]
      exact sim.runFail _

theorem runDefine (cls : ClassId) {w : sim.World} :
    sim.Run w sim.Same (Exec.define classes cls) (Exec.define classes cls) := by
  refine sim.runBind sim.runGet fun {after s t} _ view => ?_
  rw [(sim.viewScope view).contains]
  split
  · exact sim.runFail _
  · refine sim.runBind (sim.runRecord _) fun _ _ => ?_
    refine sim.runBind (sim.runBindName (sim.samePlain rfl)) fun _ _ => ?_
    exact sim.runPure (sim.samePlain rfl)

mutual

theorem runExec (agree : sim.Agree d e) (statement : Stmt) (w : sim.World) :
    sim.Run w sim.Same (statement.exec classes d) (statement.exec classes e) := by
  cases statement with
  | assign name value =>
    rw [Stmt.exec, Stmt.exec]
    refine sim.runBind (runExec agree value w) fun _ same => ?_
    refine sim.runBind (sim.runBindName same) fun later _ => ?_
    exact sim.runPure (sim.sameLater later same)
  | setField target field value =>
    rw [Stmt.exec, Stmt.exec]
    refine sim.runBind (sim.runReadPath target) fun _ object => ?_
    refine sim.runBind (sim.runRequireObject _ object) fun {u a b} _ address => ?_
    refine sim.runBind (runExec agree value u) fun later same => ?_
    refine sim.runBind (sim.runSetField (sim.sameLater later address) same) fun later _ => ?_
    exact sim.runPure (sim.sameLater later same)
  | path names =>
    rw [Stmt.exec, Stmt.exec]
    exact sim.runReadPath names
  | number value =>
    rw [Stmt.exec, Stmt.exec]
    exact sim.runPure (sim.samePlain rfl)
  | string value =>
    rw [Stmt.exec, Stmt.exec]
    exact sim.runPure (sim.samePlain rfl)
  | bool value =>
    rw [Stmt.exec, Stmt.exec]
    exact sim.runPure (sim.samePlain rfl)
  | none =>
    rw [Stmt.exec, Stmt.exec]
    exact sim.runPure (sim.samePlain rfl)
  | arithmetic op left right =>
    rw [Stmt.exec, Stmt.exec]
    refine sim.runBind (runExec agree left w) fun {u a b} _ first => ?_
    refine sim.runBind (runExec agree right u) fun later second => ?_
    exact sim.runArithmetic agree op (sim.sameLater later first) second
  | both left right =>
    rw [Stmt.exec, Stmt.exec]
    refine sim.runBind (runExec agree left w) fun {u a b} _ first => ?_
    refine sim.runBind (runExec agree right u) fun _ second => ?_
    rw [sim.sameTruthy first, sim.sameTruthy second]
    exact sim.runPure (sim.samePlain rfl)
  | either left right =>
    rw [Stmt.exec, Stmt.exec]
    refine sim.runBind (runExec agree left w) fun {u a b} _ first => ?_
    refine sim.runBind (runExec agree right u) fun _ second => ?_
    rw [sim.sameTruthy first, sim.sameTruthy second]
    exact sim.runPure (sim.samePlain rfl)
  | negate operand =>
    rw [Stmt.exec, Stmt.exec]
    refine sim.runBind (runExec agree operand w) fun _ same => ?_
    rw [sim.sameTruthy same]
    exact sim.runPure (sim.samePlain rfl)
  | compare relation left right =>
    rw [Stmt.exec, Stmt.exec]
    refine sim.runBind (runExec agree left w) fun {u a b} _ first => ?_
    refine sim.runBind (runExec agree right u) fun later second => ?_
    exact sim.runCompare relation (sim.sameLater later first) second
  | block body =>
    rw [Stmt.exec, Stmt.exec]
    exact runBlock agree body w
  | branch condition yes no =>
    rw [Stmt.exec, Stmt.exec]
    refine sim.runBind (runExec agree condition w) fun {u a b} _ same => ?_
    rw [sim.sameTruthy same]
    split
    · exact runExec agree yes u
    · exact runElse agree no u
  | result value =>
    rw [Stmt.exec, Stmt.exec]
    exact runExec agree value w
  | print args =>
    rw [Stmt.exec, Stmt.exec]
    refine sim.runBind (runTexts agree args w) fun _ texts => ?_
    rw [texts]
    refine sim.runBind (sim.runWriteLine _) fun _ _ => ?_
    exact sim.runPure (sim.samePlain rfl)
  | call receiver method args =>
    rw [Stmt.exec, Stmt.exec]
    refine sim.runBind (runExec agree receiver w) fun {u a b} _ same => ?_
    refine sim.runBind (sim.runRequireObject _ same) fun {v x y} before _ => ?_
    refine sim.runBind (runValues agree args v) fun later values => ?_
    exact agree.invoke method (sim.sameLater later (sim.sameLater before same)) values
  | create cls args =>
    rw [Stmt.exec, Stmt.exec]
    refine sim.runBind (sim.runCreate cls) fun {u a b} _ same => ?_
    refine sim.runBind (runValues agree args u) fun later values => ?_
    have same := sim.sameLater later same
    refine sim.runBind (agree.invoke _ same values) fun later _ => ?_
    exact sim.runPure (sim.sameLater later same)
  | stringify value =>
    rw [Stmt.exec, Stmt.exec]
    refine sim.runBind (runExec agree value w) fun _ same => ?_
    refine sim.runBind (agree.display same) fun _ texts => ?_
    rw [texts]
    exact sim.runPure (sim.samePlain rfl)
  | define cls =>
    rw [Stmt.exec, Stmt.exec]
    exact sim.runDefine cls

theorem runBlock (agree : sim.Agree d e) (body : List Stmt) (w : sim.World) :
    sim.Run w sim.Same (execBlock classes d body) (execBlock classes e body) := by
  cases body with
  | nil =>
    rw [execBlock, execBlock]
    exact sim.runPure (sim.samePlain rfl)
  | cons statement rest =>
    rw [execBlock, execBlock]
    refine sim.runBind (runExec agree statement w) fun {u a b} _ same => ?_
    rw [sim.sameNone same]
    split
    · exact sim.runPure same
    · exact runBlock agree rest u

theorem runElse (agree : sim.Agree d e) (no : Option Stmt) (w : sim.World) :
    sim.Run w sim.Same (execElse classes d no) (execElse classes e no) := by
  cases no with
  | none =>
    rw [execElse, execElse]
    exact sim.runPure (sim.samePlain rfl)
  | some statement =>
    rw [execElse, execElse]
    exact runExec agree statement w

theorem runValues (agree : sim.Agree d e) (args : List Stmt) (w : sim.World) :
    sim.Run w (fun after => List.Forall₂ (sim.Same after)) (execValues classes d args)
      (execValues classes e args) := by
  cases args with
  | nil =>
    rw [execValues, execValues]
    exact sim.runPure .nil
  | cons statement rest =>
    rw [execValues, execValues]
    refine sim.runBind (runExec agree statement w) fun {u a b} _ same => ?_
    refine sim.runBind (runValues agree rest u) fun later values => ?_
    exact sim.runPure (.cons (sim.sameLater later same) values)

theorem runTexts (agree : sim.Agree d e) (args : List Stmt) (w : sim.World) :
    sim.Run w (fun _ => Eq) (execTexts classes d args) (execTexts classes e args) := by
  cases args with
  | nil =>
    rw [execTexts, execTexts]
    exact sim.runPure rfl
  | cons statement rest =>
    rw [execTexts, execTexts]
    refine sim.runBind (runExec agree statement w) fun _ same => ?_
    refine sim.runBind (agree.display same) fun {u a b} _ first => ?_
    refine sim.runBind (runTexts agree rest u) fun _ others => ?_
    rw [first, others]
    exact sim.runPure rfl

end

theorem sameCallScope {w : sim.World} {receiver other : Value} {args others : List Value}
    (same : sim.Same w receiver other) (values : List.Forall₂ (sim.Same w) args others)
    (params : List String) :
    Bindings.Related (sim.Same w) (callScope receiver params args)
      (callScope other params others) := by
  unfold callScope
  have first := (Bindings.emptyRelated (sim.Same w)).insert same "self"
  generalize Bindings.empty.insert "self" receiver = left at first ⊢
  generalize Bindings.empty.insert "self" other = right at first ⊢
  induction params generalizing args others left right with
  | nil => exact first
  | cons name rest ih =>
    cases values with
    | nil => exact first
    | cons head tail => exact ih tail _ _ (first.insert head name)

theorem runInvoke (agree : sim.Agree d e) {w : sim.World} {receiver other : Value}
    {args others : List Value} (name : String) (same : sim.Same w receiver other)
    (values : List.Forall₂ (sim.Same w) args others) :
    sim.Run w sim.Same (receiver.invoke classes d name args) (other.invoke classes e name others) := by
  refine sim.runBind (sim.runRequireObject _ same) fun {u a b} before address => ?_
  refine sim.runBind sim.runGet fun {v s t} later view => ?_
  have address := sim.sameLater later address
  have same := sim.sameLater later (sim.sameLater before same)
  have values := (values.imp fun _ _ => sim.sameLater before).imp fun _ _ => sim.sameLater later
  dsimp only
  rw [sim.sameClassName view address, sim.sameMethod view address, values.length_eq]
  cases t.heap.methodTaking? classes b name others.length with
  | none => exact sim.runFail _
  | some method =>
    refine sim.runBind (sim.runRecord _) fun {x _ _} later _ => ?_
    have scopes := sim.sameCallScope (sim.sameLater later same)
      (values.imp fun _ _ => sim.sameLater later) method.params
    exact sim.runInScope scopes (sim.runExec agree method.body x)

end Correspondence

namespace Program

def runBy {α : Type} (program : Program) (perform : List Stmt → Exec α) : Exec Unit := do
  Exec.record (.runStarted program.statements.length)
  Exec.inScope .empty do
    let _ ← perform program.statements
    let globals := (← Machine.get).scope
    Exec.record (.runFinished globals.size)

end Program

theorem Correspondence.runProgramBy {program : Program} (sim : Correspondence program.classes)
    {d e : Dispatch} (agree : sim.Agree d e) (w : sim.World) :
    sim.Run w (fun _ _ _ => True) (program.runBy (execBlock program.classes d))
      (program.runBy (execBlock program.classes e)) := by
  refine sim.runBind (sim.runRecord _) fun {u _ _} _ _ => ?_
  refine sim.runInScope (Bindings.emptyRelated _) ?_
  refine sim.runBind (sim.runBlock agree program.statements u) fun _ _ => ?_
  refine sim.runBind sim.runGet fun _ view => ?_
  dsimp only
  rw [(sim.viewScope view).size]
  exact sim.runRecord _

namespace Simulation

variable {classes : ClassTable} (sim : Simulation classes) {d e : Dispatch}

theorem runDisplay (agree : sim.Agree d e) {w : sim.World} {left right : Value}
    (same : sim.Same w left right) :
    sim.Run w (fun _ => Eq) (left.display classes d) (right.display classes e) := by
  refine sim.runBind sim.runGet fun {after s t} later view => ?_
  have same := sim.sameLater later same
  have methods := sim.sameStringMethod view same
  dsimp only
  cases has : left.hasStringMethod classes s.heap with
  | true =>
    rw [if_pos rfl, if_pos (methods.symm.trans has)]
    exact sim.runBind (agree.invoke _ same .nil) fun _ same => agree.display same
  | false =>
    rw [if_neg (by decide), if_neg (by rw [← methods, has]; decide)]
    exact sim.runPlainText view same has

theorem withinAgree (depth : Nat) :
    sim.Agree (Dispatch.within classes depth) (Dispatch.within classes depth) := by
  have stuck : sim.Agree .stuck .stuck :=
    ⟨fun _ _ _ => sim.runExhaust, fun _ => sim.runExhaust⟩
  induction depth with
  | zero => exact ⟨fun _ _ _ => sim.runExhaust, fun same => sim.runDisplay stuck same⟩
  | succ depth ih =>
    exact ⟨fun name same values => sim.runInvoke ih name same values,
      fun same => sim.runDisplay ih same⟩

theorem runProgram (depth : Nat) {program : Program} (sim : Simulation program.classes)
    (w : sim.World) : sim.Run w (fun _ _ _ => True) (program.run depth) (program.run depth) :=
  sim.runProgramBy (sim.withinAgree depth) w

end Simulation

end Offside
