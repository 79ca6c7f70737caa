import Offside.Proofs.Execution.Discipline
import Offside.Proofs.Execution.Growth
import Offside.Proofs.Grammar.Outline
import Offside.Proofs.Grammar.Recognition

/-! Construction ends. A constructor belongs to the class of the new object or to one that its chain leads
to, which comes earlier in the table; and its body creates objects of classes that ended before its own
class did, which come earlier still. Where nothing else is ever called, calls nest no deeper than there
are classes. -/
namespace Offside

namespace Node

def site? (node : Node) : Option Site :=
  match node.tree with
  | .create cls _ => some (.creation cls)
  | .stringify _ => some .conversion
  | .define cls => some (.definition cls)
  | _ => none

end Node

namespace Stmt

theorem sitesAppend {left right : List Site} {first second : List Node}
    (one : left = first.filterMap Node.site?) (other : right = second.filterMap Node.site?) :
    left ++ right = (first ++ second).filterMap Node.site? := by
  rw [one, other, List.filterMap_append]

mutual

theorem sitesNodes (slot : Slot) (tree : Stmt) : tree.sites = (tree.nodes slot).filterMap Node.site? := by
  cases tree with
  | path | number | string | bool | none | define => rfl
  | assign _ value | setField _ _ value | negate value | result value =>
    exact sitesNodes .operand value
  | stringify value => exact congrArg (Site.conversion :: ·) (sitesNodes .operand value)
  | arithmetic _ left right | both left right | either left right | compare _ left right =>
    exact sitesAppend (sitesNodes .operand left) (sitesNodes _ right)
  | block body => exact sitesAllNodes .member body
  | branch condition yes no =>
    exact sitesAppend (sitesAppend (sitesNodes .operand condition) (sitesNodes .suite yes))
      (sitesElseNodes no)
  | print args => exact sitesAllNodes .operand args
  | create cls args => exact congrArg (Site.creation cls :: ·) (sitesAllNodes .operand args)
  | call receiver _ args =>
    exact sitesAppend (sitesNodes .receiver receiver) (sitesAllNodes .operand args)

theorem sitesAllNodes (slot : Slot) (trees : List Stmt) :
    sitesAll trees = (partsAll slot trees).filterMap Node.site? := by
  cases trees with
  | nil => rfl
  | cons first rest => exact sitesAppend (sitesNodes slot first) (sitesAllNodes slot rest)

theorem sitesElseNodes (no : Option Stmt) : sitesElse no = (partsElse no).filterMap Node.site? := by
  cases no with
  | none => rfl
  | some tree => exact sitesNodes .suite tree

end

theorem siteListed {slot : Slot} {tree : Stmt} {node : Node} {site : Site}
    (inside : node ∈ tree.nodes slot) (stands : node.site? = some site) : site ∈ tree.sites := by
  rw [sitesNodes slot tree]
  exact List.mem_filterMap.mpr ⟨node, inside, stands⟩

theorem siteListedAll {trees : List Stmt} {tree : Stmt} {site : Site} (member : tree ∈ trees)
    (listed : site ∈ tree.sites) : site ∈ sitesAll trees := by
  induction trees with
  | nil => cases member
  | cons first rest ih =>
    rcases List.mem_cons.mp member with rfl | later
    · exact List.mem_append_left _ listed
    · exact List.mem_append_right _ (ih later)

end Stmt

namespace Grammar
open ClassTable

theorem Ordered.created {count last : Nat} {sites : List Site} {cls : ClassId}
    (ordered : Ordered count sites last) (member : .creation cls ∈ sites) : cls < last := by
  induction ordered with
  | nil => cases member
  | creation known more ih =>
    rcases List.mem_cons.mp member with same | later
    · cases same
      exact Nat.lt_of_lt_of_le known more.defined.1
    · exact ih later
  | conversion _ ih | definition _ _ ih =>
    rcases List.mem_cons.mp member with same | later
    · cases same
    · exact ih later

theorem Entered.creates {table : ClassTable} {id other : ClassId} {tokens : List Token}
    {cls : ClassDef} {method : Method} (entered : Entered table id tokens)
    (held : table.get? id = some cls) (declared : method ∈ cls.declared)
    (creates : .creation other ∈ method.body.sites) : other < id := by
  cases entered with
  | definition _ _ derived _ _ found =>
    rw [found] at held
    cases held
    have listed : .creation other ∈ Method.sites _ := List.mem_flatMap.mpr ⟨method, declared, creates⟩
    have below := derived.ordered.created listed
    rw [sizeUpTo] at below
    exact (Nat.lt_min.mp below).1

end Grammar

theorem MethodEntry.findNamed {name : String} {entries : List MethodEntry} {entry : MethodEntry}
    (found : find? name entries = some entry) : entry.method.name = name := by
  induction entries with
  | nil => cases found
  | cons head rest ih =>
    rw [find?] at found
    split at found
    · cases found
      assumption
    · exact ih found

def Stmt.callsMethod : Stmt → Bool
  | .call .. => true
  | _ => false

def Method.implicitNames : List String := ["__str__", "__add__", "__sub__", "__mult__", "__div__"]

namespace Construction

def Plain (classes : ClassTable) : Prop :=
  ∀ id cls, classes.get? id = some cls → ∀ method ∈ cls.declared, method.name ∉ Method.implicitNames

theorem Plain.none {classes : ClassTable} (plain : Plain classes) (built : classes.Built)
    {name : String} (implicit : name ∈ Method.implicitNames) (heap : Heap) (address : Address)
    (arity : Nat) : heap.methodTaking? classes address name arity = none := by
  cases taken : heap.methodTaking? classes address name arity with
  | none => rfl
  | some method =>
    obtain ⟨id, entry, found, rfl⟩ := methodTakingFind taken
    have named := MethodEntry.findNamed found
    rw [ClassTable.findWalk built] at found
    rcases ClassTable.walkDeclared found with added | ⟨owner, -, cls, held, declared⟩
    · rw [added] at named
      subst named
      exact absurd implicit (by decide)
    · rw [← named] at implicit
      exact absurd implicit (plain owner cls held entry.method declared)

variable {α β : Type}

def Ends (machine : Exec α) : Prop := ∀ state, ∃ after, (machine state).state? = some after

theorem endsAfter {machine : Exec α} {next : α → Exec β} {state : State}
    (first : ∃ after, (machine state).state? = some after)
    (second : ∀ value between, machine state = .done value between →
      ∃ after, (next value between).state? = some after) :
    ∃ after, ((machine >>= next) state).state? = some after := by
  obtain ⟨after, ended⟩ := first
  rw [Machine.bindRun]
  cases ran : machine state with
  | done value between => exact second value between ran
  | failed error between => exact ⟨between, rfl⟩
  | exhausted =>
    rw [ran] at ended
    cases ended

theorem endsBind {machine : Exec α} {next : α → Exec β} (first : Ends machine)
    (second : ∀ value, Ends (next value)) : Ends (machine >>= next) :=
  fun state => endsAfter (first state) fun value between _ => second value between

theorem endsInScope {body : Exec α} (ends : Ends body) (scope : Bindings) :
    Ends (Exec.inScope scope body) := by
  intro state
  obtain ⟨after, ended⟩ := ends { state with scope := scope }
  unfold Exec.inScope
  cases ran : body { state with scope := scope } with
  | done value final | failed error final => exact ⟨_, rfl⟩
  | exhausted =>
    rw [ran] at ended
    cases ended

theorem endsGet : Ends (Machine.get : Exec State) := fun state => ⟨state, rfl⟩

theorem endsSteps (classes : ClassTable) : Steps classes (fun _ => True) Ends where
  pure _ := fun state => ⟨state, rfl⟩
  fail _ := fun state => ⟨state, rfl⟩
  bind := endsBind
  look _ each := endsBind endsGet each
  setField _ _ _ := fun _ => ⟨_, rfl⟩
  record _ := fun _ => ⟨_, rfl⟩
  writeLine text := fun state => by
    unfold Exec.writeLine
    split <;> exact ⟨_, rfl⟩

structure Builds (depth : Nat) (tree : Stmt) : Prop where
  creates : ∀ {cls args}, tree = .create cls args → cls < depth
  uncalled : tree.callsMethod = false

theorem Builds.deeper {depth more : Nat} {tree : Stmt} (builds : Builds depth tree)
    (within : depth ≤ more) : Builds more tree :=
  ⟨fun same => Nat.lt_of_lt_of_le (builds.creates same) within, builds.uncalled⟩

theorem buildsNodes {depth : Nat} {tree : Stmt} (slot : Slot)
    (uncalled : ∀ node ∈ tree.nodes slot, node.tree.callsMethod = false)
    (creates : ∀ {cls}, .creation cls ∈ tree.sites → cls < depth) : tree.Only (Builds depth) := by
  refine (Stmt.onlyNodes slot).mp fun node inside => ⟨fun {cls args} same => ?_, uncalled node inside⟩
  have stands : node.site? = some (.creation cls) := by rw [Node.site?, same]
  exact creates (Stmt.siteListed inside stands)

structure Classes (classes : ClassTable) : Prop where
  built : classes.Built
  plain : Plain classes
  bodies : ∀ {id cls}, classes.get? id = some cls → ∀ method ∈ cls.declared, method.body.Only (Builds id)

variable {classes : ClassTable}

theorem Classes.constructed (made : Classes classes) {depth : Nat}
    (rules : Discipline classes (.within classes depth) (Builds depth) (fun _ => True) Ends)
    {state : State} {address : Address} {object : Object} (held : state.heap.get? address = some object)
    (room : object.cls ≤ depth) (args : List Value) :
    ∃ after, ((Value.object address).invoke classes (.within classes depth) Method.initName args
      state).state? = some after := by
  rw [invokeObject]
  cases taken : state.heap.methodTaking? classes address Method.initName args.length with
  | none => exact ⟨state, rfl⟩
  | some method =>
    refine endsInScope ?_ _ _
    rw [Heap.methodTakingOf, held, Option.map_some, Option.bind_some,
      ClassTable.methodTakingWalk made.built] at taken
    obtain ⟨entry, found, fits⟩ := Option.bind_eq_some_iff.mp taken
    split at fits
    · cases fits
      rcases ClassTable.walkDeclared found with added | ⟨owner, within, cls, there, declared⟩
      · rw [added]
        exact rules.pure _
      · have only := (made.bodies there _ declared).imp fun builds =>
          builds.deeper (Nat.le_trans within room)
        exact rules.holdsExec _ only
    · cases fits

theorem Classes.discipline (made : Classes classes) (depth : Nat)
    (create : ∀ {cls args}, cls < depth → Ends (execValues classes (.within classes depth) args) →
      Ends ((Stmt.create cls args).exec classes (.within classes depth))) :
    Discipline classes (.within classes depth) (Builds depth) (fun _ => True) Ends where
  toSteps := endsSteps classes
  bindName _ _ := fun _ => ⟨_, rfl⟩
  define {cls} _ := (endsSteps classes).define endsGet (fun _ _ _ => ⟨_, rfl⟩) cls
  readPath _ _ :=
    ⟨endsBind endsGet fun _ => (endsSteps classes).except fun _ _ _ _ => trivial, trivial⟩
  call builds := nomatch builds.uncalled
  operate {_ _ op _} has := by
    have implicit : op.methodName ∈ Method.implicitNames := by cases op <;> decide
    rw [made.plain.none made.built implicit] at has
    cases has
  shown value := by
    have shown : ∀ dispatch, Ends (value.display classes dispatch) := by
      refine fun dispatch => (endsSteps classes).display fun has => ?_
      cases value with
      | object address =>
        rw [Value.hasStringMethod, made.plain.none made.built (by decide)] at has
        cases has
      | _ => cases has
    cases depth with
    | zero => exact shown _
    | succ depth => exact shown _
  create builds given := create (builds.creates rfl) given

/- The object keeps its class while the arguments are evaluated. -/
theorem Classes.rules (made : Classes classes) (depth : Nat) :
    Discipline classes (.within classes depth) (Builds depth) (fun _ => True) Ends := by
  induction depth with
  | zero => exact made.discipline 0 fun below => absurd below (Nat.not_lt_zero _)
  | succ depth ih =>
    refine made.discipline (depth + 1) fun {cls args} below given state => ?_
    have created : Exec.create cls state =
      .done state.heap.fresh { state with heap := state.heap.create cls } := rfl
    rw [Stmt.exec, Machine.bindOf created]
    refine endsAfter (given _) fun values between ran => ?_
    have there : (state.heap.create cls).get? state.heap.fresh = some ⟨cls, .empty⟩ := by
      rw [Heap.getCreate, if_pos rfl]
    obtain ⟨object, held, becomes⟩ := (growth.movesValues ran).heap there
    have room : object.cls ≤ depth := by
      rw [becomes.cls]
      exact Nat.le_of_lt_succ below
    exact endsAfter (made.constructed ih held room values) fun _ final _ => ⟨final, rfl⟩

theorem parsedClasses {tokens : List Token} {program : Program} (parses : Grammar.Parses tokens program)
    (uncalled : ∀ node ∈ program.nodes, node.tree.callsMethod = false)
    (plain : Plain program.classes) : Classes program.classes where
  built := (Grammar.parsesWellMade parses).built
  plain := plain
  bodies {id cls} held method declared := by
    obtain ⟨part, -, entered⟩ := parses.accounts.entered (Nat.zero_le id) (ClassTable.getKnown held)
    exact buildsNodes .suite (fun node inside => uncalled node (Program.nodeMethod held declared inside))
      (entered.creates held declared)

end Construction

/-- A program that is parsed from a source, calls no methods and has none that would be called without a
call ends, with calls nested no deeper than it has classes. -/
theorem constructionEnds {source : Source} {program : Program} {parser : ParserState}
    (parsed : Program.parse source = .done program parser)
    (uncalled : ∀ node ∈ program.nodes, node.tree.callsMethod = false)
    (plain : ∀ id cls, program.classes.get? id = some cls → ∀ method ∈ cls.declared,
      method.name ∉ ["__str__", "__add__", "__sub__", "__mult__", "__div__"])
    (depth : Nat) (enough : program.classes.classes.size ≤ depth) :
    (∀ state, ∃ after, (program.run depth state).state? = some after) ∧
    ∀ sink, ∃ report, interpret depth sink source = some report := by
  obtain ⟨tokens, -, parses⟩ := Program.parseSound parsed
  have made := Construction.parsedClasses parses uncalled plain
  have steps := Construction.endsSteps program.classes
  have top : ∀ tree ∈ program.statements, tree.Only (Construction.Builds depth) := by
    intro tree member
    refine Construction.buildsNodes .member
      (fun node inside => uncalled node (Program.nodeTop member inside)) fun listed => ?_
    exact Nat.lt_of_lt_of_le (parses.ordered.created (Stmt.siteListedAll member listed)) enough
  have ends : Construction.Ends (program.run depth) := by
    refine steps.bind (steps.record _) fun _ => Construction.endsInScope ?_ _
    refine steps.bind ((made.rules depth).holdsBlock program.statements top) fun _ => ?_
    exact Construction.endsBind Construction.endsGet fun _ => steps.record _
  refine ⟨ends, fun sink => ?_⟩
  obtain ⟨after, ended⟩ := ends { State.initial sink with trace := parser.trace }
  unfold interpret
  rw [parsed]
  dsimp only
  cases ran : program.run depth { State.initial sink with trace := parser.trace } with
  | done value final | failed error final => exact ⟨_, rfl⟩
  | exhausted =>
    rw [ran] at ended
    cases ended

def chained : Source :=
  ⟨["class A:", "  def __init__(x):", "    self.x = x", "class B(A):", "  def make():",
    "    class D(A):", "      def make():", "        return A(0)", "    return D(1)", "class C(B):",
    "  def __init__():", "    self.b = B(A(2))", "print C()"].map (.ok ·.toList)⟩

theorem constructionEndsChained : ∃ program parser,
    Program.parse chained = .done program parser ∧ program.classes.classes.size = 4 ∧
    ∀ sink, ∃ report, interpret 4 sink chained = some report := by
  have checked : (match Program.parse chained with
      | .done program _ => program.nodes.all (fun node => !node.tree.callsMethod) &&
        program.classes.classes.all (fun cls => cls.declared.all fun method =>
          decide (method.name ∉ ["__str__", "__add__", "__sub__", "__mult__", "__div__"])) &&
        decide (program.classes.classes.size = 4)
      | _ => false) = true := by
    decide +kernel
  cases parsed : Program.parse chained with
  | done program parser =>
    rw [parsed] at checked
    simp only [Bool.and_eq_true, List.all_eq_true, Array.all_eq_true', decide_eq_true_eq,
      Bool.not_eq_true'] at checked
    obtain ⟨⟨uncalled, plain⟩, size⟩ := checked
    refine ⟨program, parser, rfl, size, ?_⟩
    refine (constructionEnds parsed uncalled ?_ 4 (Nat.le_of_eq size)).2
    exact fun id cls held => plain cls (Array.mem_of_getElem? held)
  | failed error parser =>
    rw [parsed] at checked
    cases checked
  | exhausted =>
    rw [parsed] at checked
    cases checked

end Offside
