import Offside.Proofs.Execution.Inheritance
import Offside.Proofs.Grammar.Derivation

/-! The shape of derived trees. Conditions, operands, arguments and assigned values are expressions; a
statement stands in a block or at the top of the program; a block is the body of a conditional or of
a method. The classes of a derived program are declared over one another and have such methods. -/
namespace Offside

inductive Role where
  | expression | statement | body
  deriving DecidableEq

namespace Stmt

def isCall : Stmt → Bool
  | .call .. | .create .. | .stringify _ => true
  | _ => false

inductive Formed : Role → Stmt → Prop where
  | path {names : Path} (nonempty : names ≠ []) : Formed .expression (.path names)
  | number (value : Int64) : Formed .expression (.number value)
  | string (value : String) : Formed .expression (.string value)
  | bool (value : Bool) : Formed .expression (.bool value)
  | none : Formed .expression .none
  | arithmetic {left right : Stmt} (op : ArithmeticOp) (first : Formed .expression left)
      (second : Formed .expression right) : Formed .expression (.arithmetic op left right)
  | both {left right : Stmt} (first : Formed .expression left)
      (second : Formed .expression right) : Formed .expression (.both left right)
  | either {left right : Stmt} (first : Formed .expression left)
      (second : Formed .expression right) : Formed .expression (.either left right)
  | negate {operand : Stmt} (only : Formed .expression operand) :
      Formed .expression (.negate operand)
  | compare {left right : Stmt} (relation : Relation) (first : Formed .expression left)
      (second : Formed .expression right) : Formed .expression (.compare relation left right)
  | call {path : Path} {args : List Stmt} (qualified : path ≠ []) (method : String)
      (given : ∀ arg ∈ args, Formed .expression arg) :
      Formed .expression (.call (.path path) method args)
  | create {args : List Stmt} (cls : ClassId) (given : ∀ arg ∈ args, Formed .expression arg) :
      Formed .expression (.create cls args)
  | stringify {value : Stmt} (only : Formed .expression value) :
      Formed .expression (.stringify value)
  | called {tree : Stmt} (made : Formed .expression tree) (call : tree.isCall = true) :
      Formed .statement tree
  | assign {value : Stmt} (name : String) (given : Formed .expression value) :
      Formed .statement (.assign name value)
  | setField {target : Path} {value : Stmt} (qualified : target ≠ []) (field : String)
      (given : Formed .expression value) : Formed .statement (.setField target field value)
  | result {value : Stmt} (given : Formed .expression value) : Formed .statement (.result value)
  | print {args : List Stmt} (given : ∀ arg ∈ args, Formed .expression arg) :
      Formed .statement (.print args)
  | branch {condition yes : Stmt} (tested : Formed .expression condition)
      (positive : Formed .body yes) : Formed .statement (.branch condition yes .none)
  | branchElse {condition yes no : Stmt} (tested : Formed .expression condition)
      (positive : Formed .body yes) (negative : Formed .body no) :
      Formed .statement (.branch condition yes (some no))
  | define (cls : ClassId) : Formed .statement (.define cls)
  | block {body : List Stmt} (nonempty : body ≠ [])
      (inside : ∀ statement ∈ body, Formed .statement statement) : Formed .body (.block body)

end Stmt

namespace Grammar

theorem Resolves.formed {classes : ClassTable} {path : Path} {name : String} {args : List Stmt}
    {tree : Stmt} (resolved : Resolves classes path name args tree)
    (given : ∀ arg ∈ args, Stmt.Formed .expression arg) :
    Stmt.Formed .expression tree ∧ tree.isCall = true := by
  cases resolved with
  | method qualified => exact ⟨.call qualified name given, rfl⟩
  | creation declared => exact ⟨.create _ given, rfl⟩
  | conversion free => exact ⟨.stringify (given _ (List.mem_singleton_self _)), rfl⟩

def Level.Formed : (level : Level) → level.Tree → Prop
  | .list, trees | .arguments, trees => ∀ tree ∈ trees, Stmt.Formed .expression tree
  | .call, tree => Stmt.Formed .expression tree ∧ tree.isCall = true
  | .disjunction, tree | .conjunction, tree | .negation, tree | .comparison, tree | .sum, tree
  | .product, tree | .factor, tree => Stmt.Formed .expression tree

theorem Expression.formed {classes : ClassTable} {level : Level} {tokens : List Token}
    {tree : level.Tree} (derived : Expression classes level tokens tree) : level.Formed tree := by
  induction derived with
  | either _ _ first second => exact .either first second
  | both _ _ first second => exact .both first second
  | negate _ operand => exact .negate operand
  | compare relation _ _ first second => exact .compare relation first second
  | sum _ _ _ first second => exact .arithmetic _ first second
  | product _ _ _ first second => exact .arithmetic _ first second
  | opposite _ operand => exact .arithmetic _ operand (.number _)
  | number value => exact .number value
  | string content => exact .string content
  | yes => exact .bool true
  | no => exact .bool false
  | none => exact .none
  | path nonempty => exact .path nonempty
  | ofCall _ made => exact made.1
  | call _ resolved given => exact resolved.formed given
  | single _ only => exact List.forall_mem_singleton.mpr only
  | more _ _ head rest => exact List.forall_mem_cons.mpr ⟨head, rest⟩
  | absent => exact fun _ member => absurd member List.not_mem_nil
  | given _ present => exact present
  | ofConjunction _ only | ofNegation _ only | ofComparison _ only | ofSum _ only
  | ofProduct _ only | ofFactor _ only | parenthesized _ only => exact only

theorem Simple.formed {classes : ClassTable} {tokens : List Token} {tree : Stmt}
    (derived : Simple classes tokens tree) : Stmt.Formed .statement tree := by
  cases derived with
  | result given => exact .result given.formed
  | print given => exact .print given.formed
  | assign given => exact .assign _ given.formed
  | setField qualified given => exact .setField qualified _ given.formed
  | call made => exact .called made.formed.1 made.formed.2

def Phrase.Formed : (phrase : Phrase) → phrase.Tree → Prop
  | .statement, tree => Stmt.Formed .statement tree
  | .statements, trees => ∀ tree ∈ trees, Stmt.Formed .statement tree
  | .suite, tree => Stmt.Formed .body tree
  | .methods, declared => ∀ method ∈ declared, Stmt.Formed .body method.body

theorem Derives.formed {phrase : Phrase} {before after : ClassTable} {tokens : List Token}
    {tree : phrase.Tree} (derived : Derives phrase before tokens tree after) :
    phrase.Formed tree := by
  induction derived with
  | simple line => exact line.formed
  | branch tested _ positive => exact .branch tested.formed positive
  | branchElse tested _ _ positive negative => exact .branchElse tested.formed positive negative
  | define => exact .define _
  | finished | noMethods => exact fun _ member => absurd member List.not_mem_nil
  | next _ _ head rest => exact List.forall_mem_cons.mpr ⟨head, rest⟩
  | suite _ nonempty inside => exact .block nonempty inside
  | method _ _ inside rest => exact List.forall_mem_cons.mpr ⟨inside, rest⟩

theorem findKnown {classes : ClassTable} {name : String} {id : ClassId}
    (found : classes.find? name = some id) : id < classes.classes.size := by
  have listed := List.mem_of_find?_eq_some found
  rw [ClassTable.visible, List.mem_reverse] at listed
  exact List.mem_range.mp (List.mem_of_mem_drop listed)

theorem Base.known {classes : ClassTable} {tokens : List Token} {parent : Option ClassId}
    (base : Base classes tokens parent) : ∀ id, parent = some id → id < classes.classes.size := by
  cases base with
  | absent => exact fun _ none => by cases none
  | named declared =>
    intro id same
    cases same
    exact findKnown declared

/- A derivation changes the class table only by declaring classes, each over one that was known and
under a name that was free. -/
theorem Derives.keeps {Holds : ClassTable → Prop}
    (step : ∀ {table : ClassTable} {name : String} {parent : Option ClassId}
      {methods : List Method}, Holds table →
      (∀ id, parent = some id → id < table.classes.size) → table.find? name = none →
      (∀ method ∈ methods, Stmt.Formed .body method.body) →
      Holds (table.declare name parent methods))
    {phrase : Phrase} {before after : ClassTable} {tokens : List Token} {tree : phrase.Tree}
    (derived : Derives phrase before tokens tree after) :
    before.classes.size ≤ after.classes.size ∧ (Holds before → Holds after) := by
  induction derived with
  | simple | finished | noMethods => exact ⟨Nat.le_refl _, id⟩
  | branch _ _ positive => exact positive
  | branchElse _ _ _ first second | next _ _ first second | method _ _ first second =>
    exact ⟨Nat.le_trans first.1 second.1, second.2 ∘ first.2⟩
  | suite _ _ inside => exact inside
  | define inherits declared _ free inside =>
    constructor
    · rw [ClassTable.declare, Array.size_push]
      exact Nat.le_succ_of_le inside.1
    · intro holds
      exact step (inside.2 holds)
        (fun id same => Nat.lt_of_lt_of_le (inherits.known id same) inside.1) free declared.formed

end Grammar

structure ClassTable.WellMade (table : ClassTable) : Prop where
  built : table.Built
  formed : ∀ {id cls}, table.get? id = some cls →
    ∀ method ∈ cls.declared, Stmt.Formed .body method.body

namespace ClassTable

theorem emptyWellMade : WellMade .empty :=
  ⟨.empty, fun found => by cases found⟩

theorem WellMade.declare {table : ClassTable} {parent : Option ClassId} {methods : List Method}
    (made : table.WellMade) (known : ∀ id, parent = some id → id < table.classes.size)
    (formed : ∀ method ∈ methods, Stmt.Formed .body method.body) (name : String) :
    (table.declare name parent methods).WellMade := by
  refine ⟨.declared made.built known name methods, fun {id cls} found => ?_⟩
  rw [getDeclare] at found
  split at found
  · cases found
    exact formed
  · exact made.formed found

theorem walkDeclared {table : ClassTable} {name : String} {id : ClassId} {entry : MethodEntry}
    (found : table.walk name id = some entry) :
    entry.method = Method.defaultInit ∨
      ∃ owner ≤ id, ∃ cls, table.get? owner = some cls ∧ entry.method ∈ cls.declared := by
  induction id using Nat.strongRecOn with
  | ind id ih =>
    rw [walk] at found
    cases held : table.get? id with
    | none => simp [held] at found
    | some cls =>
      simp only [held] at found
      cases last : Method.lastNamed name cls.declared with
      | some method =>
        simp only [last, Option.some.injEq] at found
        subst found
        exact .inr ⟨id, Nat.le_refl id, cls, held, (List.mem_filter.mp (List.mem_of_getLast? last)).1⟩
      | none =>
        simp only [last] at found
        cases parent : cls.parent with
        | some up =>
          simp only [parent] at found
          split at found
          · rename_i below
            rcases ih up below found with added | ⟨owner, within, declared⟩
            · exact .inl added
            · exact .inr ⟨owner, Nat.le_trans within (Nat.le_of_lt below), declared⟩
          · cases found
        | none =>
          simp only [parent] at found
          split at found
          · cases found
            exact .inl rfl
          · cases found

theorem WellMade.body {table : ClassTable} (made : table.WellMade) {name : String} {id : ClassId}
    {entry : MethodEntry} (found : MethodEntry.find? name (table.methodsOf id) = some entry) :
    entry.method = Method.defaultInit ∨ Stmt.Formed .body entry.method.body := by
  rw [findWalk made.built] at found
  rcases walkDeclared found with added | ⟨owner, -, cls, held, member⟩
  · exact .inl added
  · exact .inr (made.formed held _ member)

end ClassTable

theorem Grammar.parsesWellMade {tokens : List Token} {program : Program}
    (parses : Parses tokens program) : program.classes.WellMade :=
  (Derives.keeps (fun made known _ formed => made.declare known formed _) parses).2
    ClassTable.emptyWellMade

end Offside
