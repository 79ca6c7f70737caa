import Offside.Proofs.Execution.Discipline
import Offside.Proofs.Grammar.Fitting
import Offside.Proofs.Grammar.Recognition

/-! Failures that describe a variable or an object describe it as the text does. A path begins with a name,
and what is called has a path in front of it, so no failure of a parsed program is about a variable
without a name or about an object that goes by no path. -/
namespace Offside

namespace Path

theorem textStarts {names : Path} (named : names.startsName = true) :
    Text.startsName names.text = true := by
  cases names with
  | nil => cases named
  | cons first rest =>
    have begins : ∃ c tail, first.toList = c :: tail ∧ Text.isNameStart c = true := by
      rw [startsName, Text.startsName] at named
      cases letters : first.toList with
      | nil => simp [letters] at named
      | cons c tail => exact ⟨c, tail, rfl, by simpa [letters] using named⟩
    obtain ⟨c, tail, letters, start⟩ := begins
    cases rest with
    | nil => simp [Text.startsName, text, letters, start]
    | cons second more =>
      simp [Text.startsName, text, String.toList_intercalate, letters, start]

theorem followNames {classes : ClassTable} {heap : Heap} {fields walked : Path} {value : Value}
    {error : RuntimeError} (named : walked.startsName = true)
    (failed : follow classes heap walked value fields = .error error) :
    ∀ text ∈ error.described?, Text.startsName text = true := by
  induction fields generalizing walked value with
  | nil => cases failed
  | cons field rest ih =>
    cases value with
    | object address =>
      rw [follow] at failed
      split at failed
      · have longer : startsName (walked ++ [field]) = true := by
          cases walked with
          | nil => cases named
          | cons first others => exact named
        exact ih longer failed
      · cases failed
        simp [RuntimeError.described?]
    | _ =>
      cases failed
      simpa [RuntimeError.described?] using textStarts named

theorem readNames {classes : ClassTable} {scope : Bindings} {heap : Heap} {names : Path}
    {error : RuntimeError} (named : names.startsName = true)
    (failed : names.read classes scope heap = .error error) :
    ∀ text ∈ error.described?, Text.startsName text = true := by
  cases names with
  | nil => cases named
  | cons first rest =>
    have start : startsName [first] = true := named
    rw [read] at failed
    split at failed
    · exact followNames start failed
    · cases failed
      simpa [RuntimeError.described?, startsName] using start

end Path

namespace Naming

variable {α β : Type}

def Fair (machine : Exec α) : Prop :=
  ∀ ⦃state error after⦄, machine state = .failed error after →
    ∀ text ∈ error.described?, Text.startsName text = true

theorem fairBind {machine : Exec α} {next : α → Exec β} (first : Fair machine)
    (second : ∀ value, Fair (next value)) : Fair (machine >>= next) := by
  intro state error after failed
  rw [Machine.bindRun] at failed
  cases ran : machine state with
  | done value between =>
    rw [ran] at failed
    exact second value failed
  | failed other between =>
    rw [ran] at failed
    cases failed
    exact first ran
  | exhausted =>
    rw [ran] at failed
    cases failed

theorem fairGet : Fair (Machine.get : Exec State) := by
  intro state error after failed
  cases failed

theorem fairInScope {body : Exec α} (fair : Fair body) (scope : Bindings) :
    Fair (Exec.inScope scope body) := by
  intro state error after failed
  unfold Exec.inScope at failed
  cases ran : body { state with scope := scope } with
  | failed other final =>
    rw [ran] at failed
    cases failed
    exact fair ran
  | done | exhausted =>
    rw [ran] at failed
    cases failed

theorem fairSteps (classes : ClassTable) :
    Steps classes (fun text => Text.startsName text = true) Fair where
  pure _ := fun _ _ _ failed => by cases failed
  fail fair := fun _ _ _ failed => by
    cases failed
    exact fair
  bind := fairBind
  look _ each := fairBind fairGet each
  setField _ _ _ := fun _ _ _ failed => by cases failed
  record _ := fun _ _ _ failed => by cases failed
  writeLine text := fun state error after failed => by
    unfold Exec.writeLine at failed
    split at failed <;> cases failed
    simp [RuntimeError.described?]

theorem fairReadPath {classes : ClassTable} {names : Path} (named : names.startsName = true) :
    Fair (Exec.readPath classes names) :=
  fairBind fairGet fun _ => (fairSteps classes).except fun _ failed => Path.readNames named failed

structure Names (tree : Stmt) : Prop where
  path : ∀ {names}, tree.path? = some names → names.startsName = true
  receiver : ∀ {receiver method args}, tree = .call receiver method args →
    Text.startsName receiver.receiverName = true

theorem fairDiscipline {classes : ClassTable} {dispatch : Dispatch} (keeps : dispatch.Keeps Fair) :
    Discipline classes dispatch Names (fun text => Text.startsName text = true) Fair where
  toSteps := fairSteps classes
  bindName value _ := fun _ _ _ failed => by cases failed
  define {cls} _ := (fairSteps classes).define fairGet (fun _ _ _ _ _ failed => by cases failed) cls
  readPath names path := ⟨fairReadPath (names.path path), Path.textStarts (names.path path)⟩
  call names := ⟨names.receiver rfl, fun value values => keeps.invoke value _ values⟩
  operate _ := keeps.invoke _ _ _
  shown := keeps.display
  create {cls _} _ given := by
    have steps := fairSteps classes
    have created : Fair (Exec.create cls) := fun _ _ _ failed => by cases failed
    rw [Stmt.exec]
    refine steps.bind created fun address => steps.bind given fun values => ?_
    exact steps.bind (keeps.invoke _ _ values) fun _ => steps.pure _

variable {program : Program}

theorem fairWithin (made : program.classes.WellMade) (all : ∀ node ∈ program.nodes, Names node.tree)
    (depth : Nat) : (Dispatch.within program.classes depth).Keeps Fair := by
  have steps := fairSteps program.classes
  refine steps.within (fun failed => by cases failed) (by decide) ?_ depth
  intro dispatch name id entry keeps found scope
  rw [ClassTable.findWalk made.built] at found
  rcases ClassTable.walkDeclared found with added | ⟨owner, -, cls, held, declared⟩
  · rw [added]
    exact fairInScope (steps.pure _) scope
  · have only := Program.onlyMethod all held declared
    exact fairInScope ((fairDiscipline keeps).holdsExec _ only) scope

theorem fairRun (made : program.classes.WellMade) (all : ∀ node ∈ program.nodes, Names node.tree)
    (depth : Nat) : Fair (program.run depth) := by
  have steps := fairSteps program.classes
  have rules : Discipline program.classes _ _ _ _ := fairDiscipline (fairWithin made all depth)
  have body := rules.holdsBlock program.statements fun tree member => Program.onlyTop all member
  refine steps.bind (steps.record _) fun _ => fairInScope ?_ _
  exact steps.bind body fun _ => fairBind fairGet fun _ => steps.record _

theorem namesOfFits (fits : ∀ node ∈ program.nodes, node.fits = true) :
    ∀ node ∈ program.nodes, Names node.tree := by
  have path : ∀ node ∈ program.nodes, ∀ names, node.tree.path? = some names →
      names.startsName = true := by
    intro node member names same
    have fit := fits node member
    rw [Node.fits] at fit
    cases tree : node.tree with
    | path _ | setField _ _ _ =>
      rw [tree] at fit same
      cases same
      exact (Bool.and_eq_true_iff.mp fit).2
    | _ =>
      rw [tree] at same
      cases same
  intro node member
  refine ⟨path node member _, ?_⟩
  intro receiver method args call
  have fit := fits node member
  rw [Node.fits, call] at fit
  cases receiver with
  | path names =>
    have below : ⟨.receiver, .path names⟩ ∈ node.tree.parts := by simp [call, Stmt.parts]
    have listed := program.nodesClosed node member _ below
    exact Path.textStarts (path _ listed names rfl)
  | _ => cases fit

end Naming

/-- The trees of a parsed program stand where they belong, at every depth, and a run of it never fails for
a variable without a name or for an object that is not reached by a path. -/
theorem Program.parseFits {source : Source} {program : Program} {parser : ParserState}
    (parsed : Program.parse source = .done program parser) :
    (∀ node ∈ program.nodes,
      (∀ names, node.tree.path? = some names → names ≠ []) ∧
      (∀ receiver method args, node.tree = .call receiver method args →
        ∃ names, receiver = .path names) ∧
      (node.slot = .suite → ∃ body, node.tree = .block body ∧ body ≠ []) ∧
      (∀ body, node.tree = .block body → node.slot = .suite) ∧
      (node.tree.isStatement = true → node.slot = .member) ∧
      ∀ value, node.tree = .number value →
        0 ≤ value.toInt ∨ value = -1 ∧ node.slot = .multiplier) ∧
    ∀ depth state error after, program.run depth state = .failed error after →
      error ≠ .unbound "" ∧ ∀ typeName, error ≠ .notAnObject "<expression>" typeName := by
  obtain ⟨tokens, read, parses⟩ := Program.parseSound parsed
  have proper := (List.forall_mem_append.mp (Source.tokensProper read)).1
  have fits := Grammar.parsesFit parses proper
  have names := Naming.namesOfFits fits
  constructor
  · intro node member
    have fit := fits node member
    refine ⟨fun path same empty => ?_, fun receiver method args => Node.fitsReceiver fit,
      Node.fitsSuite fit, fun body => Node.fitsBlock fit, Node.fitsStatement fit,
      fun value => Node.fitsNumber fit⟩
    have named := (names node member).path same
    rw [empty] at named
    cases named
  · intro depth state error after failed
    have fair := Naming.fairRun (Grammar.parsesWellMade parses) names depth failed
    constructor
    · rintro rfl
      cases fair "" rfl
    · rintro typeName rfl
      cases fair "<expression>" rfl

def opposites : Source :=
  ⟨["class A:", "  def m(x):", "    if x < -1:", "      return -x", "    else:", "      self.y = -2 * x",
    "    return self.y", "a = A()", "print a.m(-3)", "b.m(1)"].map (.ok ·.toList)⟩

theorem Program.parseFitsOpposites : ∃ program parser,
    Program.parse opposites = .done program parser ∧
    (∃ node ∈ program.nodes, node.tree = .number (-1) ∧ node.slot = .multiplier) ∧
    ∃ name after, program.run 2 (.initial .unlimited) = .failed (.unbound name) after ∧ name ≠ "" := by
  have checked : (match Program.parse opposites with
      | .done program _ =>
        (program.nodes.any fun node => match node.tree with
          | .number value => value == -1
          | _ => false) &&
        match program.run 2 (.initial .unlimited) with
        | .failed (.unbound _) _ => true
        | _ => false
      | _ => false) = true := by
    decide +kernel
  cases parsed : Program.parse opposites with
  | done program parser =>
    rw [parsed] at checked
    obtain ⟨negative, failed⟩ := Bool.and_eq_true_iff.mp checked
    obtain ⟨trees, runs⟩ := Program.parseFits parsed
    refine ⟨program, parser, rfl, ?_, ?_⟩
    · obtain ⟨node, member, found⟩ := List.any_eq_true.mp negative
      split at found
      · rename_i value number
        cases eq_of_beq found
        obtain ⟨-, -, -, -, -, numbers⟩ := trees node member
        rcases numbers (-1) number with positive | ⟨-, slot⟩
        · exact absurd positive (by decide)
        · exact ⟨node, member, number, slot⟩
      · cases found
    · split at failed
      · rename_i name after ran
        refine ⟨name, after, ran, fun empty => ?_⟩
        exact (runs 2 _ _ after ran).1 (by rw [empty])
      · cases failed
  | failed error parser =>
    rw [parsed] at checked
    cases checked
  | exhausted =>
    rw [parsed] at checked
    cases checked

end Offside
