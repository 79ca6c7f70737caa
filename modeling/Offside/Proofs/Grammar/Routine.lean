import Offside.Proofs.Grammar.Soundness

/-! Properties that every procedure of the parser has because its steps have them. Two parsers are compared
that differ in the bounds on their repetitions. The bounds are never reached: a round takes a token, and
so does a phrase before another one is nested in it. A property is shown of the steps, and had of every
procedure. -/
namespace Offside

def ParseError.isLexical : ParseError → Bool
  | .lexical _ => true
  | _ => false

namespace Parser
open Grammar

inductive Aspect where
  | ending | failing

/- The number is that of the tokens that a success takes at least. A class is entered by the last step of
its definition, so there the property is had of the definition as a whole. -/
structure Routine
    (Holds : {α : Type} → Aspect → Nat → Parser α → Parser α → ParserState → Prop) : Prop where
  pure : ∀ {α : Type} {aspect state} (value : α), Holds aspect 0 (Pure.pure value) (Pure.pure value) state
  fail : ∀ {α : Type} {aspect least state} {error : ParseError}, error.isLexical = false →
    Holds aspect least (Machine.fail error : Parser α) (Machine.fail error) state
  look : ∀ {α : Type} {aspect least state} {next other : Token → Parser α},
    Holds aspect least (next state.current.token) (other state.current.token) state →
    Holds aspect least (current >>= next) (current >>= other) state
  line : ∀ {α : Type} {aspect least state} {next other : Nat → Parser α},
    (∀ line, Holds aspect least (next line) (other line) state) →
    Holds aspect least (line >>= next) (line >>= other) state
  known : ∀ {α : Type} {aspect least state} {next other : ClassTable → Parser α},
    (∀ table, Holds aspect least (next table) (other table) state) →
    Holds aspect least (classes >>= next) (classes >>= other) state
  advance : ∀ {state}, state.current.token ≠ .eof → Holds .ending 1 advance advance state
  lead : ∀ {α β : Type} {aspect least state} {parser beside : Parser α} {next other : α → Parser β},
    Holds .ending least parser beside state →
    (∀ value after, after.upcoming.length + least ≤ state.upcoming.length →
      Holds aspect 0 (next value) (other value) after) →
    Holds aspect least (parser >>= next) (beside >>= other) state
  free : ∀ {α : Type} {aspect least state} {parser beside : Parser α},
    Holds aspect least parser beside state → Holds aspect 0 parser beside state
  bounded : ∀ {α : Type} {least state} {repetition other : Nat → Parser α},
    (∀ rounds, state.upcoming.length < rounds →
      Holds .ending least (repetition (state.upcoming.length + 1)) (other rounds) state) →
    Holds .ending least (bounded repetition) (bounded other) state
  declare : ∀ {state} name parent methods line,
    Holds .failing 0 (declare name parent methods line) (declare name parent methods line) state
  enter : ∀ {state} {nested other : Parser Stmt}, SoundWith nested (Derives .statement) →
    Holds .failing 1 (classDefinition nested) (classDefinition other) state →
    Holds .ending 1 (classDefinition nested) (classDefinition other) state
  finish : ∀ {state} statements, Holds .ending 0 (finish statements) (finish statements) state

def Below (Holds : {α : Type} → Aspect → Nat → Parser α → Parser α → ParserState → Prop) {α : Type}
    (size least : Nat) (parser beside : Parser α) : Prop :=
  ∀ state : ParserState, state.upcoming.length < size → Holds .ending least parser beside state

namespace Routine

variable {Holds : {α : Type} → Aspect → Nat → Parser α → Parser α → ParserState → Prop}
  {α β ι : Type} {aspect : Aspect} {size least : Nat} {state : ParserState}

/- The rounds that are left are as many as the tokens to come, and one more; each takes one. -/
theorem rounds {repetition other : Nat → ι → Parser α}
    (step : ∀ count left right, count < size →
      (∀ i, Below Holds count least (repetition left i) (other right i)) →
      ∀ i, Below Holds (count + 1) least (repetition (left + 1) i) (other (right + 1) i))
    {count left right : Nat} (within : count ≤ size) (enough : count ≤ left) (also : count ≤ right)
    (i : ι) : Below Holds count least (repetition left i) (other right i) := by
  induction count generalizing left right i with
  | zero => exact fun _ fits => absurd fits (Nat.not_lt_zero _)
  | succ count ih =>
    obtain ⟨left, rfl⟩ := Nat.exists_eq_succ_of_ne_zero (Nat.ne_zero_of_lt enough)
    obtain ⟨right, rfl⟩ := Nat.exists_eq_succ_of_ne_zero (Nat.ne_zero_of_lt also)
    refine step count left right within (fun i => ?_) i
    exact ih (Nat.le_of_succ_le within) (Nat.le_of_succ_le_succ enough)
      (Nat.le_of_succ_le_succ also) i

variable (routine : Routine Holds)
include routine

theorem bind {parser beside : Parser α} {next other : α → Parser β}
    (first : Holds .ending least parser beside state)
    (second : ∀ value after, after.upcoming.length + least ≤ state.upcoming.length →
      Holds aspect 0 (next value) (other value) after) :
    Holds aspect 0 (parser >>= next) (beside >>= other) state :=
  routine.free (routine.lead first second)

omit routine in
theorem choose {condition : Prop} [Decidable condition] {yes no former latter : Parser α}
    (positive : condition → Holds aspect least yes former state)
    (negative : ¬ condition → Holds aspect least no latter state) :
    Holds aspect least (if condition then yes else no) (if condition then former else latter)
      state := by
  split
  · exact positive ‹_›
  · exact negative ‹_›

theorem unexpected (expected : Expectation) :
    Holds aspect least (unexpected expected : Parser α) (unexpected expected) state :=
  routine.look (routine.line fun _ => routine.fail rfl)

theorem advancePast {token : Token} (here : state.current.token = token) (real : token ≠ .eof) :
    Holds .ending 1 Parser.advance Parser.advance state :=
  routine.advance (here ▸ real)

theorem expect {token : Token} (real : token ≠ .eof) :
    Holds .ending 1 (expect token) (expect token) state :=
  routine.look (choose (fun here => routine.advancePast here real) fun _ => routine.unexpected _)

theorem expectChar (symbol : Char) :
    Holds .ending 1 (expectChar symbol) (expectChar symbol) state :=
  routine.expect Token.noConfusion

theorem identifier : Holds .ending 1 identifier identifier state := by
  refine routine.look ?_
  cases here : state.current.token with
  | identifier name =>
    exact routine.lead (routine.advancePast here Token.noConfusion) fun _ _ _ => routine.pure name
  | _ => exact routine.unexpected .identifier

theorem boundedOver {repetition other : Nat → ι → Parser α}
    (step : ∀ count left right, count < size →
      (∀ i, Below Holds count least (repetition left i) (other right i)) →
      ∀ i, Below Holds (count + 1) least (repetition (left + 1) i) (other (right + 1) i))
    (i : ι) : Below Holds size least (Parser.bounded (repetition · i)) (Parser.bounded (other · i)) := by
  intro state fits
  refine routine.bounded fun more enough => ?_
  exact rounds step fits (Nat.le_refl _) enough i state (Nat.lt_succ_self _)

theorem boundedBelow {repetition other : Nat → Parser α}
    (step : ∀ count left right, count < size →
      Below Holds count least (repetition left) (other right) →
      Below Holds (count + 1) least (repetition (left + 1)) (other (right + 1))) :
    Below Holds size least (Parser.bounded repetition) (Parser.bounded other) :=
  @boundedOver _ _ Unit _ _ routine (fun rounds _ => repetition rounds) (fun rounds _ => other rounds)
    (fun count left right within ih _ => step count left right within (ih ())) ()

variable {parser beside : Parser α} {nested other : Parser Stmt}

theorem commaRest (item : Below Holds size 1 parser beside) :
    Below Holds size 0 (Parser.bounded (commaRest parser)) (Parser.bounded (commaRest beside)) := by
  refine routine.boundedBelow fun count left right within ih state fits =>
    routine.look (choose ?_ fun _ => routine.pure _)
  intro comma
  refine routine.bind (routine.advancePast comma Token.noConfusion) fun _ second shorter => ?_
  refine routine.bind (item second (by omega)) fun _ third shorter => ?_
  exact routine.bind (ih third (by omega)) fun _ _ _ => routine.pure _

theorem commaSeparated (item : Below Holds size 1 parser beside) :
    Below Holds size 1 (commaSeparated parser) (commaSeparated beside) := by
  intro state fits
  refine routine.lead (item state fits) fun _ after shorter => ?_
  exact routine.bind (routine.commaRest item after (by omega)) fun _ _ _ => routine.pure _

theorem dottedRest : ∀ names : Path × String, Below Holds size 0
    (Parser.bounded fun rounds => dottedRest rounds names.1 names.2)
    (Parser.bounded fun rounds => dottedRest rounds names.1 names.2) := by
  refine routine.boundedOver fun count left right within ih names state fits =>
    routine.look (choose ?_ fun _ => routine.pure _)
  intro point
  refine routine.bind (routine.advancePast point Token.noConfusion) fun _ second shorter => ?_
  refine routine.bind routine.identifier fun next third shorter => ?_
  exact ih (names.1 ++ [names.2], next) third (by omega)

theorem dotted : Below Holds size 1 dotted dotted := by
  intro state fits
  exact routine.lead routine.identifier fun first after _ =>
    routine.dottedRest ([], first) after (Nat.lt_succ_self _)

section Expressions

theorem chainRest {operator : Token → Option (Stmt → Stmt → Stmt)} (inside : operator .eof = none)
    (operand : Below Holds size 1 nested other) (left : Stmt) :
    Below Holds size 0 (Parser.bounded fun rounds => chainRest operator nested rounds left)
      (Parser.bounded fun rounds => chainRest operator other rounds left) := by
  refine routine.boundedOver (fun count rounds _ within ih left state fits => routine.look ?_) left
  cases found : operator state.current.token with
  | none => exact routine.pure left
  | some combine =>
    have real : state.current.token ≠ .eof := by
      intro last
      rw [last, inside] at found
      cases found
    refine routine.bind (routine.advance real) fun _ second shorter => ?_
    refine routine.bind (operand second (by omega)) fun right third shorter => ?_
    exact ih (combine left right) third (by omega)

theorem chain {operator : Token → Option (Stmt → Stmt → Stmt)} (inside : operator .eof = none)
    (operand : Below Holds size 1 nested other) :
    Below Holds size 1 (chain operator nested) (chain operator other) := by
  intro state fits
  exact routine.lead (operand state fits) fun left after shorter =>
    routine.chainRest inside operand left after (by omega)

theorem listUntil (stop : Token) (inner : Below Holds size 1 nested other) :
    Below Holds size 0 (listUntil stop nested) (listUntil stop other) := by
  intro state fits
  exact routine.look (choose (fun _ => routine.pure []) fun _ =>
    routine.free (routine.commaSeparated inner state fits))

theorem bareCall (name : String) (args : List Stmt) (line : Nat) :
    Holds .ending 0 (bareCall name args line) (bareCall name args line) state := by
  refine routine.known fun table => ?_
  split
  · exact routine.pure _
  · split
    · split
      · exact routine.pure _
      · exact routine.fail rfl
    · exact routine.fail rfl

theorem arguments (inner : Below Holds size 1 nested other) :
    Below Holds (size + 1) 1 (arguments nested) (arguments other) := by
  intro state fits
  refine routine.lead (routine.expectChar '(') fun _ second shorter => ?_
  refine routine.bind (routine.listUntil _ inner second (by omega)) fun args third _ => ?_
  exact routine.bind (routine.expectChar ')') fun _ _ _ => routine.pure args

theorem callRest (inner : Below Holds size 1 nested other) (path : Path) (name : String)
    (line : Nat) :
    Below Holds (size + 1) 1 (callRest nested path name line) (callRest other path name line) := by
  intro state fits
  refine routine.lead (routine.arguments inner state fits) fun args after _ => ?_
  cases path with
  | nil => exact routine.bareCall name args line
  | cons head rest => exact routine.pure _

theorem pathOrCall (inner : Below Holds size 1 nested other) :
    Below Holds (size + 1) 1 (pathOrCall nested) (pathOrCall other) := by
  intro state fits
  refine routine.line fun line =>
    routine.lead (routine.dotted state fits) fun names after shorter => routine.look ?_
  exact choose (fun _ => routine.free (routine.callRest inner names.1 names.2 line after (by omega)))
    fun _ => routine.pure _

theorem factor (inner : Below Holds size 1 nested other) :
    Below Holds (size + 1) 1 (Parser.bounded (factor nested)) (Parser.bounded (factor other)) := by
  refine routine.boundedBelow fun count left right within ih state fits => routine.look ?_
  have moves := fun real => @Routine.advance _ routine state real
  have taken : ∀ value, state.current.token ≠ .eof →
      Holds .ending 1 (literal value) (literal value) state :=
    fun value real => routine.lead (moves real) fun _ _ _ => routine.pure value
  generalize state.current.token = token at taken moves
  split
  · refine routine.lead (moves Token.noConfusion) fun _ second shorter => ?_
    refine routine.bind (inner second (by omega)) fun tree _ _ => ?_
    exact routine.bind (routine.expectChar ')') fun _ _ _ => routine.pure tree
  · refine routine.lead (moves Token.noConfusion) fun _ second shorter => ?_
    exact routine.bind (ih second (by omega)) fun _ _ _ => routine.pure _
  · exact taken _ Token.noConfusion
  · exact taken _ Token.noConfusion
  · exact taken _ Token.noConfusion
  · exact taken _ Token.noConfusion
  · exact taken _ Token.noConfusion
  · exact routine.pathOrCall inner state (by omega)
  · exact routine.unexpected _

theorem sum (inner : Below Holds size 1 nested other) :
    Below Holds (size + 1) 1 (sum nested) (sum other) :=
  routine.chain rfl (routine.chain rfl (routine.factor inner))

theorem comparison (inner : Below Holds size 1 nested other) :
    Below Holds (size + 1) 1 (comparison nested) (comparison other) := by
  intro state fits
  refine routine.lead (routine.sum inner state fits) fun first second shorter => routine.look ?_
  cases found : relation? second.current.token with
  | none => exact routine.pure first
  | some relation =>
    have real : second.current.token ≠ .eof := by
      intro last
      rw [last] at found
      cases found
    refine routine.bind (routine.advance real) fun _ third shorter => ?_
    exact routine.bind (routine.sum inner third (by omega)) fun _ _ _ => routine.pure _

theorem negation (inner : Below Holds size 1 nested other) :
    Below Holds (size + 1) 1 (Parser.bounded (negation nested)) (Parser.bounded (negation other)) := by
  refine routine.boundedBelow fun count left right within ih state fits =>
    routine.look (choose ?_ fun _ => ?_)
  · intro mark
    refine routine.lead (routine.advancePast mark Token.noConfusion) fun _ second shorter => ?_
    exact routine.bind (ih second (by omega)) fun _ _ _ => routine.pure _
  · exact routine.comparison inner state (by omega)

theorem disjunction (inner : Below Holds size 1 nested other) :
    Below Holds (size + 1) 1 (disjunction nested) (disjunction other) :=
  routine.chain rfl (routine.chain rfl (routine.negation inner))

theorem expression : Below Holds size 1 expression expression :=
  routine.boundedBelow fun _ _ _ _ ih => routine.disjunction ih

end Expressions

section Statements

theorem assignmentOrCall : Below Holds size 1 assignmentOrCall assignmentOrCall := by
  intro state fits
  refine routine.line fun line =>
    routine.lead (routine.dotted state fits) fun names after shorter => routine.look ?_
  refine choose (fun mark => ?_) fun _ => choose (fun _ => ?_) fun _ => routine.unexpected _
  · refine routine.bind (routine.advancePast mark Token.noConfusion) fun _ second shorter => ?_
    refine routine.bind (routine.expression second (Nat.lt_succ_self _)) fun value _ _ => ?_
    split <;> exact routine.pure _
  · exact routine.free
      (routine.callRest routine.expression names.1 names.2 line after (Nat.lt_succ_self _))

theorem simpleStatement : Below Holds size 1 simpleStatement simpleStatement := by
  intro state fits
  refine routine.look ?_
  have moves := fun real => @Routine.advance _ routine state real
  generalize state.current.token = token at moves
  split
  · refine routine.lead (moves Token.noConfusion) fun _ second _ => ?_
    exact routine.bind (routine.expression second (Nat.lt_succ_self _)) fun _ _ _ => routine.pure _
  · refine routine.lead (moves Token.noConfusion) fun _ second _ => ?_
    exact routine.bind (routine.listUntil _ routine.expression second (Nat.lt_succ_self _))
      fun _ _ _ => routine.pure _
  · exact routine.assignmentOrCall state fits

theorem statementsUntil (stop : Token) (inner : Below Holds size 1 nested other) :
    Below Holds size 0 (Parser.bounded (statementsUntil stop nested))
      (Parser.bounded (statementsUntil stop other)) := by
  refine routine.boundedBelow fun count left right within ih state fits =>
    routine.look (choose (fun _ => routine.pure []) fun _ => ?_)
  refine routine.bind (inner state (by omega)) fun head after shorter => ?_
  exact routine.bind (ih after (by omega)) fun _ _ _ => routine.pure _

theorem suite (inner : Below Holds size 1 nested other) :
    Below Holds (size + 1) 1 (suite nested) (suite other) := by
  intro state fits
  refine routine.lead (routine.expect Token.noConfusion) fun _ second shorter => ?_
  refine routine.bind (routine.expect Token.noConfusion) fun _ third shorter => ?_
  refine routine.bind (routine.statementsUntil .dedent inner third (by omega)) fun body _ _ => ?_
  exact routine.bind (routine.expect Token.noConfusion) fun _ _ _ => routine.pure _

theorem conditional (inner : Below Holds size 1 nested other) :
    Below Holds (size + 1) 1 (conditional nested) (conditional other) := by
  intro state fits
  refine routine.lead (routine.expect Token.noConfusion) fun _ second shorter => ?_
  refine routine.bind (routine.expression second (Nat.lt_succ_self _)) fun condition third shorter => ?_
  refine routine.bind (routine.expectChar ':') fun _ fourth shorter => ?_
  refine routine.bind (routine.suite inner fourth (by omega)) fun yes fifth shorter => routine.look ?_
  refine choose (fun mark => ?_) fun _ => routine.pure _
  refine routine.bind (routine.advancePast mark Token.noConfusion) fun _ sixth shorter => ?_
  refine routine.bind (routine.expectChar ':') fun _ seventh shorter => ?_
  exact routine.bind (routine.suite inner seventh (by omega)) fun _ _ _ => routine.pure _

theorem parameters : Holds .ending 0 parameters parameters state := by
  refine routine.look ?_
  split
  · exact routine.free
      (routine.commaSeparated (fun _ _ => routine.identifier) state (Nat.lt_succ_self _))
  · exact routine.pure []

theorem method (inner : Below Holds size 1 nested other) :
    Below Holds (size + 1) 1 (method nested) (method other) := by
  intro state fits
  refine routine.lead (routine.expect Token.noConfusion) fun _ second shorter => ?_
  refine routine.bind routine.identifier fun name third shorter => ?_
  refine routine.bind (routine.expectChar '(') fun _ fourth shorter => ?_
  refine routine.bind routine.parameters fun params fifth shorter => ?_
  refine routine.bind (routine.expectChar ')') fun _ sixth shorter => ?_
  refine routine.bind (routine.expectChar ':') fun _ seventh shorter => ?_
  exact routine.bind (routine.suite inner seventh (by omega)) fun _ _ _ => routine.pure _

theorem methods (inner : Below Holds size 1 nested other) :
    Below Holds (size + 1) 0 (Parser.bounded (methods nested)) (Parser.bounded (methods other)) := by
  refine routine.boundedBelow fun count left right within ih state fits =>
    routine.look (choose (fun _ => ?_) fun _ => routine.pure [])
  refine routine.bind (routine.method inner state (by omega)) fun head after shorter => ?_
  exact routine.bind (ih after (by omega)) fun _ _ _ => routine.pure _

theorem baseClass (name : String) (line : Nat) :
    Holds .ending 0 (baseClass name line) (baseClass name line) state := by
  refine routine.look (choose (fun mark => ?_) fun _ => routine.pure none)
  refine routine.bind (routine.advancePast mark Token.noConfusion) fun _ _ _ => ?_
  refine routine.bind routine.identifier fun base _ _ => ?_
  refine routine.bind (routine.expectChar ')') fun _ _ _ => routine.known fun table => ?_
  split
  · exact routine.pure _
  · exact routine.fail rfl

theorem classDefinition (inner : Below Holds size 1 nested other)
    (sound : SoundWith nested (Derives .statement)) :
    Below Holds (size + 1) 1 (classDefinition nested) (classDefinition other) := by
  intro state fits
  refine routine.enter sound (routine.line fun line => ?_)
  refine routine.lead (routine.expect Token.noConfusion) fun _ second shorter => ?_
  refine routine.bind routine.identifier fun name third shorter => ?_
  refine routine.bind (routine.baseClass name line) fun parent fourth shorter => ?_
  refine routine.bind (routine.expectChar ':') fun _ fifth shorter => ?_
  refine routine.bind (routine.expect Token.noConfusion) fun _ sixth shorter => ?_
  refine routine.bind (routine.expect Token.noConfusion) fun _ seventh shorter => routine.look ?_
  refine choose (fun _ => ?_) fun _ => routine.unexpected _
  refine routine.bind (routine.methods inner seventh (by omega)) fun methods eighth shorter => ?_
  exact routine.bind (routine.expect Token.noConfusion) fun _ _ _ =>
    routine.declare name parent methods line

theorem statementOver (inner : Below Holds size 1 nested other)
    (sound : SoundWith nested (Derives .statement)) :
    Below Holds (size + 1) 1 (statementOver nested) (statementOver other) := by
  refine fun state fits => routine.look ?_
  split
  · exact routine.classDefinition inner sound state fits
  · exact routine.conditional inner state fits
  · refine routine.lead (routine.simpleStatement state fits) fun tree _ _ => ?_
    exact routine.bind (routine.expect Token.noConfusion) fun _ _ _ => routine.pure tree

theorem statement : Below Holds size 1 statement statement :=
  routine.boundedBelow fun _ left _ _ ih => routine.statementOver ih (statementWithinSound left)

theorem program (started : Holds .ending 1 Parser.advance Parser.advance state) :
    Holds .ending 0 program program state := by
  refine routine.bind started fun _ first _ => ?_
  refine routine.bind (routine.statementsUntil .eof routine.statement first (Nat.lt_succ_self _)) ?_
  exact fun trees _ _ => routine.finish trees

end Statements

end Routine

end Parser

end Offside
