import Mathlib.Data.List.Nodup
import Offside.Proofs.Execution.Scope
import Offside.Proofs.Grammar.Outline

/-! How the names of a scope come to be bound. Here a scope is executed with a ledger of the names that
were bound in it and of what bound them, and the execution is cut short at a class definition that
the ledger does not excuse. Nothing is ever cut short in a program that was parsed: each class is
defined at most once in a scope, and refused only where something else has taken its name. -/
namespace Offside

inductive Origin where
  | assignment | parameter | receiver | definition
  deriving DecidableEq

abbrev Ledger := List (String × Origin)

namespace Ledger

def ofCall (params : List String) : Ledger :=
  params.map (·, .parameter) ++ [("self", .receiver)]

def hasDefined (ledger : Ledger) (name : String) : Bool := ledger.contains (name, .definition)

def hasTaken (ledger : Ledger) (name : String) : Bool :=
  ledger.any fun entry => entry.1 == name && entry.2 != .definition

end Ledger

namespace Exec

/-- Defines a class in a scope with a ledger. This is cut short if a class of that name has been
defined in the scope before, and if the name is taken and nothing else has taken it. -/
def defineOnce (classes : ClassTable) (ledger : Ledger) (cls : ClassId) : Exec Value := do
  let name := classes.nameOf cls
  let taken := (← Machine.get).scope.contains name
  if ledger.hasDefined name || taken && !ledger.hasTaken name then Machine.exhaust
  else define classes cls

end Exec

namespace Site

def defined? : Site → Option ClassId
  | .definition cls => some cls
  | _ => none

def definitions (sites : List Site) : List ClassId := sites.filterMap defined?

end Site

def Stmt.operate (classes : ClassTable) (dispatch : Dispatch) (operand : Stmt) : Exec Value :=
  if Site.definitions operand.sites = [] then operand.exec classes dispatch else Machine.exhaust

mutual

def Stmt.watch (classes : ClassTable) (dispatch : Dispatch) (ledger : Ledger) :
    Stmt → Exec (Value × Ledger)
  | .assign name value => do
    let value ← value.operate classes dispatch
    Exec.bindName name value
    pure (value, (name, .assignment) :: ledger)
  | .define cls => do
    let value ← Exec.defineOnce classes ledger cls
    pure (value, (classes.nameOf cls, .definition) :: ledger)
  | .block body => watchBlock classes dispatch ledger body
  | .branch condition yes no => do
    let condition ← condition.operate classes dispatch
    if condition.truthy then yes.watch classes dispatch ledger
    else watchElse classes dispatch ledger no
  | statement => do
    let value ← statement.operate classes dispatch
    pure (value, ledger)

def watchBlock (classes : ClassTable) (dispatch : Dispatch) (ledger : Ledger) :
    List Stmt → Exec (Value × Ledger)
  | [] => pure (.none, ledger)
  | statement :: rest => do
    let (value, after) ← statement.watch classes dispatch ledger
    if statement.endsBlock && value != .none then pure (value, after)
    else watchBlock classes dispatch after rest

def watchElse (classes : ClassTable) (dispatch : Dispatch) (ledger : Ledger) :
    Option Stmt → Exec (Value × Ledger)
  | none => pure (.none, ledger)
  | some statement => statement.watch classes dispatch ledger

end

def Value.invokeWatched (classes : ClassTable) (dispatch : Dispatch) (receiver : Value)
    (name : String) (args : List Value) : Exec Value := do
  let address ← Exec.requireObject classes "self" receiver
  let heap := (← Machine.get).heap
  let cls := heap.className classes address
  match heap.methodTaking? classes address name args.length with
  | .none => Machine.fail (.noMethod cls name args.length)
  | .some method => do
    Exec.record (.methodCalled cls name)
    Exec.inScope (callScope receiver method.params args)
      (Prod.fst <$> method.body.watch classes dispatch (.ofCall method.params))

def Dispatch.watched (classes : ClassTable) : Nat → Dispatch
  | 0 => .within classes 0
  | depth + 1 =>
    ⟨fun receiver name args => receiver.invokeWatched classes (watched classes depth) name args,
      fun value => value.display classes (watched classes depth)⟩

def Program.runWatched (depth : Nat) (program : Program) : Exec Unit :=
  program.runBy (watchBlock program.classes (.watched program.classes depth) [])

/- No source has this tree. Without a ledger the second definition would be refused. -/
example : (Program.runWatched 0 ⟨[.define 0, .define 0], ClassTable.empty.declare "A" none []⟩
    (.initial .unlimited)).state?.isNone = true := by
  decide +kernel

def interpretWatched (depth : Nat) (sink : Sink) (source : Source) : Option RunReport :=
  match Program.parse source with
  | .exhausted => none
  | .failed error parser => some ⟨some (.ofParse error), sink, parser.trace⟩
  | .done program parser =>
    match program.runWatched depth { State.initial sink with trace := parser.trace } with
    | .exhausted => none
    | .failed error state => some ⟨some (.runtime error), state.sink, state.trace⟩
    | .done _ state => some ⟨none, state.sink, state.trace⟩

namespace Ledger

variable {classes : ClassTable} {dispatch : Dispatch} {depth : Nat}

theorem definitionsAppend (first second : List Site) :
    Site.definitions (first ++ second) = Site.definitions first ++ Site.definitions second :=
  List.filterMap_append

theorem definitionsAll {statements : List Stmt}
    (each : ∀ statement ∈ statements, Site.definitions statement.sites = []) :
    Site.definitions (Stmt.sitesAll statements) = [] := by
  induction statements with
  | nil => rfl
  | cons first rest ih =>
    obtain ⟨head, tail⟩ := List.forall_mem_cons.mp each
    rw [Stmt.sitesAll, definitionsAppend, head, ih tail, List.append_nil]

theorem noDefinitions {role : Role} {tree : Stmt} (formed : tree.Formed role)
    (only : role = .expression) : Site.definitions tree.sites = [] := by
  induction formed with
  | path | number | string | bool | none => rfl
  | arithmetic _ _ _ first second | both _ _ first second | either _ _ first second
  | compare _ _ _ first second =>
    rw [Stmt.sites, definitionsAppend, first only, second only, List.append_nil]
  | negate _ operand | stringify _ operand => exact operand only
  | call _ _ _ given | create _ _ given =>
    exact definitionsAll fun arg member => given arg member only
  | _ => cases only

def Covers (ledger : Ledger) (scope : Bindings) : Prop :=
  ∀ name, scope.contains name = true → ∃ origin, (name, origin) ∈ ledger

def definedNames (classes : ClassTable) (sites : List Site) : List String :=
  (Site.definitions sites).map classes.nameOf

structure Fresh (classes : ClassTable) (ledger : Ledger) (sites : List Site) : Prop where
  once : (definedNames classes sites).Nodup
  never : ∀ name ∈ definedNames classes sites, (name, .definition) ∉ ledger

/- How the execution of a statement with these sites goes, beside the one without a ledger: the same
way, and the ledger still covers the scope. -/
inductive Watched (classes : ClassTable) (ledger : Ledger) (sites : List Site) :
    Outcome RuntimeError State (Value × Ledger) → Outcome RuntimeError State Value → Prop where
  | done {value : Value} {after : Ledger} {state : State} (covers : Covers after state.scope)
      (known : ∀ name, (name, .definition) ∈ after →
        (name, .definition) ∈ ledger ∨ name ∈ definedNames classes sites) :
      Watched classes ledger sites (.done (value, after) state) (.done value state)
  | failed {error : RuntimeError} {state : State} :
      Watched classes ledger sites (.failed error state) (.failed error state)
  | exhausted : Watched classes ledger sites .exhausted .exhausted

def Keeps (classes : ClassTable) (dispatch : Dispatch) (statement : Stmt) : Prop :=
  ∀ ledger state, Covers ledger state.scope → Fresh classes ledger statement.sites →
    Watched classes ledger statement.sites (statement.watch classes dispatch ledger state)
      (statement.exec classes dispatch state)

theorem Covers.stays {ledger : Ledger} {state after : State} {statement : Stmt} {value : Value}
    (covers : Covers ledger state.scope) (quiet : statement.Only (Stmt.Quiet classes))
    (ran : statement.exec classes (.within classes depth) state = .done value after) :
    Covers ledger after.scope := by
  rw [Scope.stays quiet (by rw [ran]; rfl)]
  exact covers

theorem keepsPlain {statement : Stmt} (quiet : statement.Only (Stmt.Quiet classes))
    (plain : Site.definitions statement.sites = [])
    (left : ∀ ledger, statement.watch classes (.within classes depth) ledger =
      statement.operate classes (.within classes depth) >>= fun value => pure (value, ledger)) :
    Keeps classes (.within classes depth) statement := by
  intro ledger state covers fresh
  rw [left, Stmt.operate, if_pos plain, Machine.bindRun]
  cases ran : statement.exec classes (.within classes depth) state with
  | done value after => exact .done (covers.stays quiet ran) fun name defined => .inl defined
  | failed error after => exact .failed
  | exhausted => exact .exhausted

theorem Covers.insert {ledger : Ledger} {scope : Bindings} (covers : Covers ledger scope)
    (name : String) (value : Value) (origin : Origin) :
    Covers ((name, origin) :: ledger) (scope.insert name value) := by
  intro other bound
  rw [Bindings.contains, Bindings.getInsert] at bound
  split at bound
  · rename_i same
    exact ⟨origin, by rw [same]; exact List.mem_cons_self⟩
  · obtain ⟨found, member⟩ := covers other bound
    exact ⟨found, List.mem_cons_of_mem _ member⟩

theorem keepsAssign {name : String} {value : Stmt} (quiet : value.Only (Stmt.Quiet classes))
    (plain : Site.definitions value.sites = []) :
    Keeps classes (.within classes depth) (.assign name value) := by
  intro ledger state covers fresh
  rw [Stmt.watch, Stmt.exec, Stmt.operate, if_pos plain, Machine.bindRun, Machine.bindRun]
  cases ran : value.exec classes (.within classes depth) state with
  | done found after =>
    refine .done ((covers.stays quiet ran).insert name found .assignment) fun other defined => ?_
    exact .inl (by simpa using defined)
  | failed error after => exact .failed
  | exhausted => exact .exhausted

theorem defineOnceRun (classes : ClassTable) (ledger : Ledger) (cls : ClassId) (state : State) :
    Exec.defineOnce classes ledger cls state =
      if ledger.hasDefined (classes.nameOf cls) ||
        state.scope.contains (classes.nameOf cls) && !ledger.hasTaken (classes.nameOf cls) then
        .exhausted
      else Exec.define classes cls state := by
  show (if _ then Machine.exhaust else _ : Exec Value) state = _
  split <;> rfl

theorem defineOnceFailed {ledger : Ledger} {cls : ClassId} {state after : State}
    {error : RuntimeError}
    (refused : Exec.defineOnce classes ledger cls state = .failed error after) :
    error = .nameTaken (classes.nameOf cls) ∧
      ledger.hasDefined (classes.nameOf cls) = false ∧
      ledger.hasTaken (classes.nameOf cls) = true := by
  rw [defineOnceRun, Exec.defineRun] at refused
  split at refused
  · cases refused
  · rename_i passes
    split at refused
    · rename_i bound
      cases refused
      simpa [bound] using passes
    · cases refused

theorem defineExcused {ledger : Ledger} {cls : ClassId} {state : State}
    (covers : Covers ledger state.scope)
    (never : (classes.nameOf cls, .definition) ∉ ledger) :
    Exec.defineOnce classes ledger cls state = Exec.define classes cls state := by
  have undefined : ledger.hasDefined (classes.nameOf cls) = false := by
    simpa [Ledger.hasDefined] using never
  have excused : state.scope.contains (classes.nameOf cls) = true →
      ledger.hasTaken (classes.nameOf cls) = true := by
    intro taken
    obtain ⟨origin, member⟩ := covers _ taken
    have other : origin ≠ .definition := by
      rintro rfl
      exact never member
    exact List.any_eq_true.mpr ⟨_, member, by simpa using other⟩
  have passes : ¬ (ledger.hasDefined (classes.nameOf cls) ||
      state.scope.contains (classes.nameOf cls) && !ledger.hasTaken (classes.nameOf cls)) = true := by
    cases taken : state.scope.contains (classes.nameOf cls) with
    | false => simp [undefined]
    | true => simp [undefined, excused taken]
  rw [defineOnceRun, if_neg passes]

theorem keepsDefine (cls : ClassId) : Keeps classes dispatch (.define cls) := by
  intro ledger state covers fresh
  have named : definedNames classes (Stmt.define cls).sites = [classes.nameOf cls] := rfl
  have never : (classes.nameOf cls, .definition) ∉ ledger :=
    fresh.never _ (by rw [named]; exact List.mem_singleton_self _)
  rw [Stmt.watch, Stmt.exec, Machine.bindRun, defineExcused covers never, Exec.defineRun]
  by_cases taken : state.scope.contains (classes.nameOf cls) = true
  · rw [if_pos taken]
    exact .failed
  · rw [if_neg taken]
    refine .done (covers.insert _ _ .definition) fun name defined => ?_
    rw [named]
    simpa [or_comm] using defined

theorem definedAppend (first second : List Site) :
    definedNames classes (first ++ second) =
      definedNames classes first ++ definedNames classes second := by
  rw [definedNames, definitionsAppend, List.map_append, definedNames, definedNames]

namespace Fresh

variable {ledger after : Ledger} {first second : List Site}

theorem left (fresh : Fresh classes ledger (first ++ second)) : Fresh classes ledger first := by
  obtain ⟨once, never⟩ := fresh
  rw [definedAppend] at once never
  exact ⟨(List.nodup_append.mp once).1, fun name member =>
    never name (List.mem_append_left _ member)⟩

theorem right (fresh : Fresh classes ledger (first ++ second))
    (known : ∀ name, (name, .definition) ∈ after →
      (name, .definition) ∈ ledger ∨ name ∈ definedNames classes first) :
    Fresh classes after second := by
  obtain ⟨once, never⟩ := fresh
  rw [definedAppend] at once never
  obtain ⟨-, apart, differ⟩ := List.nodup_append.mp once
  refine ⟨apart, fun name member defined => ?_⟩
  rcases known name defined with before | among
  · exact never name (List.mem_append_right _ member) before
  · exact differ name among name member rfl

end Fresh

namespace Watched

variable {ledger after : Ledger} {first second : List Site}
  {left : Outcome RuntimeError State (Value × Ledger)} {right : Outcome RuntimeError State Value}

theorem ofFirst (watched : Watched classes ledger first left right) :
    Watched classes ledger (first ++ second) left right := by
  cases watched with
  | done covers known =>
    refine .done covers fun name defined => (known name defined).imp_right fun member => ?_
    rw [definedAppend]
    exact List.mem_append_left _ member
  | failed => exact .failed
  | exhausted => exact .exhausted

theorem ofSecond (watched : Watched classes after second left right)
    (earlier : ∀ name, (name, .definition) ∈ after →
      (name, .definition) ∈ ledger ∨ name ∈ definedNames classes first) :
    Watched classes ledger (first ++ second) left right := by
  cases watched with
  | done covers known =>
    refine .done covers fun name defined => ?_
    rw [definedAppend, List.mem_append]
    rcases known name defined with before | among
    · exact (earlier name before).imp_right .inl
    · exact .inr (.inr among)
  | failed => exact .failed
  | exhausted => exact .exhausted

end Watched

theorem keepsAll {body : List Stmt} (each : ∀ statement ∈ body, Keeps classes dispatch statement)
    (ledger : Ledger) (state : State) (covers : Covers ledger state.scope)
    (fresh : Fresh classes ledger (Stmt.sitesAll body)) :
    Watched classes ledger (Stmt.sitesAll body) (watchBlock classes dispatch ledger body state)
      (execBlock classes dispatch body state) := by
  induction body generalizing ledger state with
  | nil =>
    rw [watchBlock, execBlock]
    exact .done covers fun name defined => .inl defined
  | cons statement rest ih =>
    obtain ⟨head, tail⟩ := List.forall_mem_cons.mp each
    rw [watchBlock, execBlock, Machine.bindRun, Machine.bindRun, Stmt.sitesAll]
    have step := head ledger state covers fresh.left
    revert step
    generalize statement.watch classes dispatch ledger state = watched
    generalize statement.exec classes dispatch state = executed
    intro step
    cases step with
    | done covers known =>
      dsimp only
      split
      · exact (Watched.done covers known).ofFirst
      · exact (ih tail _ _ covers (fresh.right known)).ofSecond known
    | failed => exact .failed
    | exhausted => exact .exhausted

theorem keepsBranch {condition yes : Stmt} {no : Option Stmt}
    (quiet : condition.Only (Stmt.Quiet classes)) (plain : Site.definitions condition.sites = [])
    (positive : Keeps classes (.within classes depth) yes)
    (negative : ∀ other, no = some other → Keeps classes (.within classes depth) other) :
    Keeps classes (.within classes depth) (.branch condition yes no) := by
  intro ledger state covers fresh
  rw [Stmt.sites] at fresh ⊢
  rw [Stmt.watch, Stmt.exec, Stmt.operate, if_pos plain, Machine.bindRun, Machine.bindRun]
  have tested : ∀ name, (name, Origin.definition) ∈ ledger →
      (name, Origin.definition) ∈ ledger ∨ name ∈ definedNames classes condition.sites :=
    fun name defined => .inl defined
  cases ran : condition.exec classes (.within classes depth) state with
  | done found after =>
    have covers := covers.stays quiet ran
    dsimp only
    split
    · exact ((positive ledger after covers (fresh.left.right tested)).ofSecond tested).ofFirst
    · have other : Fresh classes ledger (Stmt.sitesElse no) :=
        fresh.right fun name defined => .inl defined
      refine Watched.ofSecond ?_ fun name defined => .inl defined
      cases no with
      | none =>
        rw [watchElse, execElse]
        exact .done covers fun name defined => .inl defined
      | some statement => exact negative statement rfl ledger after covers other
  | failed error after => exact .failed
  | exhausted => exact .exhausted

theorem keepsFormed {role : Role} {statement : Stmt} (formed : statement.Formed role)
    (performed : role ≠ .expression) : Keeps classes (.within classes depth) statement := by
  induction formed with
  | @called tree made call =>
    refine keepsPlain (made.quiet classes) (noDefinitions made rfl) fun ledger => ?_
    cases tree with
    | call | create | stringify => rw [Stmt.watch] <;> simp
    | _ => cases call
  | assign name given => exact keepsAssign (given.quiet classes) (noDefinitions given rfl)
  | setField qualified field given =>
    have plain := noDefinitions given rfl
    exact keepsPlain ⟨rfl, (Stmt.onlyNodes .operand).mpr (given.quiet classes)⟩ plain
      fun ledger => by rw [Stmt.watch] <;> simp
  | result given =>
    have plain := noDefinitions given rfl
    exact keepsPlain ⟨rfl, (Stmt.onlyNodes .operand).mpr (given.quiet classes)⟩ plain
      fun ledger => by rw [Stmt.watch] <;> simp
  | print given =>
    have plain := definitionsAll fun arg member => noDefinitions (given arg member) rfl
    refine keepsPlain ⟨rfl, Stmt.allParts.mpr fun arg member => ?_⟩ plain
      fun ledger => by rw [Stmt.watch] <;> simp
    exact (Stmt.onlyNodes _).mpr ((given arg member).quiet classes)
  | branch tested _ _ positive =>
    exact keepsBranch (tested.quiet classes) (noDefinitions tested rfl) (positive (by decide))
      fun other same => by cases same
  | branchElse tested _ _ _ positive negative =>
    refine keepsBranch (tested.quiet classes) (noDefinitions tested rfl) (positive (by decide))
      fun other same => ?_
    cases same
    exact negative (by decide)
  | define cls => exact keepsDefine cls
  | block _ _ inside =>
    intro ledger state covers fresh
    exact keepsAll (fun statement member => inside statement member (by decide)) ledger state covers
      fresh
  | _ => exact absurd rfl performed

end Ledger

section Calls
open Ledger

variable {classes : ClassTable}

theorem Ledger.Watched.erase {ledger : Ledger} {sites : List Site} {machine : Exec (Value × Ledger)}
    {state : State} {outcome : Outcome RuntimeError State Value}
    (watched : Watched classes ledger sites (machine state) outcome) :
    (Prod.fst <$> machine) state = outcome := by
  rw [map_eq_pure_bind, Machine.bindRun]
  generalize machine state = left at watched
  cases watched <;> rfl

theorem coversCall (receiver : Value) (params : List String) (args : List Value) :
    Covers (.ofCall params) (callScope receiver params args) := by
  intro name bound
  rw [Bindings.contains, callScopeGet] at bound
  cases given : (params.zip args).reverse.lookup name with
  | some value =>
    obtain ⟨front, back, split, -⟩ := List.lookup_eq_some_iff.mp given
    have paired : (name, value) ∈ params.zip args := by
      rw [← List.mem_reverse, split]
      simp
    exact ⟨.parameter, List.mem_append_left _ (List.mem_map_of_mem (List.of_mem_zip paired).1)⟩
  | none =>
    rw [given, Option.none_or] at bound
    split at bound
    · rename_i self
      exact ⟨.receiver, by rw [self]; exact List.mem_append_right _ (List.mem_singleton_self _)⟩
    · cases bound

theorem freshCall {params : List String} {sites : List Site}
    (once : (definedNames classes sites).Nodup) : Fresh classes (.ofCall params) sites :=
  ⟨once, fun name _ defined => by simp [Ledger.ofCall] at defined⟩

def ClassTable.DefinesOnce (table : ClassTable) : Prop :=
  ∀ {id cls}, table.get? id = some cls → ∀ method ∈ cls.declared,
    (definedNames table method.body.sites).Nodup

theorem methodWatched (made : classes.WellMade) (once : classes.DefinesOnce) (depth : Nat)
    {name : String} {id : ClassId} {entry : MethodEntry}
    (found : MethodEntry.find? name (classes.methodsOf id) = some entry) (receiver : Value)
    (args : List Value) (state : State) :
    Exec.inScope (callScope receiver entry.method.params args)
        (Prod.fst <$> entry.method.body.watch classes (.within classes depth)
          (.ofCall entry.method.params)) state =
      Exec.inScope (callScope receiver entry.method.params args)
        (entry.method.body.exec classes (.within classes depth)) state := by
  rw [ClassTable.findWalk made.built] at found
  unfold Exec.inScope
  rcases ClassTable.walkDeclared found with added | ⟨owner, -, cls, held, member⟩
  · rw [added]
    rfl
  · have keeps : Keeps classes (.within classes depth) entry.method.body :=
      keepsFormed (made.formed held _ member) (by decide)
    have watched := keeps (.ofCall entry.method.params)
      { state with scope := callScope receiver entry.method.params args }
      (coversCall receiver entry.method.params args) (freshCall (once held _ member))
    rw [watched.erase]

theorem invokeWatchedSame (made : classes.WellMade) (once : classes.DefinesOnce) (depth : Nat)
    (receiver : Value) (name : String) (args : List Value) :
    receiver.invokeWatched classes (.within classes depth) name args =
      receiver.invoke classes (.within classes depth) name args := by
  cases receiver with
  | object address =>
    funext state
    exact invokeSame (fun method => Exec.inScope (callScope (.object address) method.params args)
      (Prod.fst <$> method.body.watch classes (.within classes depth) (.ofCall method.params)))
      fun found after => methodWatched made once depth found _ args after
  | _ => rfl

theorem watchedWithin (made : classes.WellMade) (once : classes.DefinesOnce) (depth : Nat) :
    Dispatch.watched classes depth = .within classes depth := by
  induction depth with
  | zero => rfl
  | succ depth ih =>
    rw [Dispatch.watched, Dispatch.within, ih]
    congr 1
    funext receiver name args
    exact invokeWatchedSame made once depth receiver name args

end Calls

section Programs
open Ledger

theorem definitionsMember {sites : List Site} {cls : ClassId} :
    cls ∈ Site.definitions sites ↔ .definition cls ∈ sites := by
  rw [Site.definitions, List.mem_filterMap]
  constructor
  · rintro ⟨site, member, same⟩
    cases site <;> cases same
    exact member
  · intro member
    exact ⟨_, member, rfl⟩

theorem Grammar.Ordered.once {count last : Nat} {sites : List Site}
    (ordered : Ordered count sites last) : (Site.definitions sites).Nodup := by
  induction ordered with
  | nil => exact List.nodup_nil
  | creation _ _ ih | conversion _ ih => exact ih
  | @definition count last cls rest _ more ih =>
    refine List.nodup_cons.mpr ⟨fun member => ?_, ih⟩
    exact Nat.lt_irrefl cls (more.defined.2 cls (definitionsMember.mp member)).1

theorem Grammar.Accounts.namesOnce {table : ClassTable} {tokens : List Token}
    (accounts : Accounts .empty tokens table) {count last : Nat} {sites : List Site}
    (ordered : Ordered count sites last) (within : last ≤ table.classes.size) :
    (definedNames table sites).Nodup := by
  refine List.Nodup.map_on (fun first left second right same => ?_) ordered.once
  have known : ∀ cls ∈ Site.definitions sites, cls < table.classes.size := fun cls member =>
    Nat.lt_of_lt_of_le (ordered.defined.2 cls (definitionsMember.mp member)).2 within
  exact accounts.distinct (known first left) (known second right) same

theorem Grammar.Accounts.definesOnce {table : ClassTable} {tokens : List Token}
    (accounts : Accounts .empty tokens table) : table.DefinesOnce := by
  intro id cls held method member
  have known := ClassTable.getKnown held
  obtain ⟨_, -, entered⟩ := accounts.entered (Nat.zero_le id) known
  cases entered with
  | @definition _ _ _ _ _ methods _ _ declared _ _ found =>
    rw [found] at held
    cases held
    have size : (table.upTo id).classes.size ≤ table.classes.size := by
      rw [ClassTable.sizeUpTo]
      exact Nat.min_le_right _ _
    have whole : (definedNames table (Method.sites methods)).Nodup :=
      accounts.namesOnce declared.ordered size
    have part : method.body.sites.Sublist (Method.sites methods) := by
      rw [Method.sites, List.flatMap_def]
      exact List.sublist_flatten_of_mem (List.mem_map_of_mem member)
    exact whole.sublist ((part.filterMap _).map _)

theorem runWatchedSame {tokens : List Token} {program : Program}
    (parses : Grammar.Parses tokens program) (depth : Nat) :
    program.runWatched depth = program.run depth := by
  have accounts : Grammar.Accounts .empty tokens program.classes := parses.accounts
  have made := Grammar.parsesWellMade parses
  have top : ∀ statement ∈ program.statements, statement.Formed .statement := parses.formed
  have fresh : Fresh program.classes [] (Stmt.sitesAll program.statements) :=
    ⟨accounts.namesOnce parses.ordered (Nat.le_refl _), fun _ _ => List.not_mem_nil⟩
  have keeps : ∀ statement ∈ program.statements,
      Keeps program.classes (.within program.classes depth) statement := fun statement member =>
    keepsFormed (top statement member) (by decide)
  rw [Program.runWatched, watchedWithin made accounts.definesOnce]
  funext state
  have block := keepsAll keeps []
    ⟨.empty, state.heap, state.sink, state.trace.push (.runStarted program.statements.length)⟩
    (fun name bound => by cases bound) fresh
  show (Machine.bind (watchBlock _ _ _ _) _ _).mapState _ =
    (Machine.bind (execBlock _ _ _) _ _).mapState _
  unfold Machine.bind
  revert block
  generalize watchBlock _ _ _ _ _ = watched
  generalize execBlock _ _ _ _ = executed
  intro block
  cases block <;> rfl

end Programs

/-- A class definition is refused only in a scope where an assignment, a parameter or `self` has taken
the name, and no class of that name has been defined: with ledgers, the run is the same. -/
theorem redefinitionsExcused (source : Source) :
    (∀ depth sink, interpretWatched depth sink source = interpret depth sink source) ∧
    (∀ classes ledger cls state error after,
      Exec.defineOnce classes ledger cls state = .failed error after →
      error = .nameTaken (classes.nameOf cls) ∧
        ledger.hasDefined (classes.nameOf cls) = false ∧
        ledger.hasTaken (classes.nameOf cls) = true) ∧
    ∀ program parser, Program.parse source = .done program parser →
      ∀ first second, first < program.classes.classes.size →
        second < program.classes.classes.size →
        program.classes.nameOf first = program.classes.nameOf second → first = second := by
  refine ⟨?_, fun _ _ _ _ _ _ refused => Ledger.defineOnceFailed refused, ?_⟩
  · intro depth sink
    unfold interpretWatched interpret
    cases parsed : Program.parse source with
    | done program parser =>
      obtain ⟨tokens, -, parses⟩ := Program.parseSound parsed
      have same := runWatchedSame parses depth
      cases ran : program.run depth { State.initial sink with trace := parser.trace } with
      | _ => simp only [same, ran]
    | failed error parser => rfl
    | exhausted => rfl
  · intro program parser parsed first second left right same
    obtain ⟨tokens, -, parses⟩ := Program.parseSound parsed
    exact (Grammar.Derives.accounts parses).distinct left right same

def twiceOpened : Source :=
  ⟨["class Box:", "  def open(again):", "    class Lid:", "      def m():", "        return 1",
    "    return again", "  def close(Cover):", "    class Cover:", "      def m():",
    "        return 2", "b = Box()", "b.open(1)", "b.open(2)", "b.close(3)"].map (.ok ·.toList)⟩

theorem redefinitionsExcusedOpened :
    (interpretWatched 2 .unlimited twiceOpened).map (·.failure) =
      some (some (.runtime (.nameTaken "Cover"))) ∧
    ∃ program parser, Program.parse twiceOpened = .done program parser ∧
      program.classes.nameOf 0 ≠ program.classes.nameOf 1 := by
  obtain ⟨same, -, distinct⟩ := redefinitionsExcused twiceOpened
  refine ⟨by rw [same]; decide +kernel, ?_⟩
  have size : (match Program.parse twiceOpened with
      | .done program _ => program.classes.classes.size
      | _ => 0) = 3 := by
    decide +kernel
  cases parsed : Program.parse twiceOpened with
  | done program parser =>
    rw [parsed] at size
    dsimp only at size
    refine ⟨program, parser, rfl, fun named => ?_⟩
    have impossible := distinct program parser parsed 0 1 (by omega) (by omega) named
    cases impossible
  | failed error parser =>
    rw [parsed] at size
    cases size
  | exhausted =>
    rw [parsed] at size
    cases size

end Offside
