import Offside.Grammar.Statement
import Offside.Proofs.Grammar.Takes

/-! What the grammar derives, the parsers accept. One induction on the derivation of an expression and
one on the derivation of a statement; the parser of what is nested is a parameter, as in the other
direction, and has to take only what is shorter. -/
namespace Offside

namespace Grammar

def Level.looseness : Level → Nat
  | .factor | .call => 1
  | .product => 2
  | .sum => 3
  | .comparison => 4
  | .negation => 5
  | .conjunction => 6
  | .disjunction => 7
  | .list | .arguments => 8

def Level.opens (level : Level) : Token → Bool
  | .keyword .notK => 5 ≤ level.looseness
  | .keyword .trueK | .keyword .falseK | .keyword .noneK => true
  | .char '(' | .char '-' | .number _ | .string _ | .identifier _ => true
  | _ => false

theorem Level.opensLooser {tight loose : Level} {token : Token} (opened : tight.opens token = true)
    (looser : tight.looseness ≤ loose.looseness) : loose.opens token = true := by
  unfold opens at opened ⊢
  split at opened <;> simp_all
  omega

def begins : Token → Bool
  | .keyword .returnK | .keyword .printK | .identifier _ | .keyword .classK | .keyword .ifK => true
  | _ => false

theorem separatedCons (mark : Char) (path : Path) (name : String) :
    ∃ first rest, separated mark (path ++ [name]) = .identifier first :: rest := by
  cases path <;> exact ⟨_, _, rfl⟩

theorem Expression.starts {classes : ClassTable} {level : Level} {tokens : List Token}
    {tree : level.Tree} (derived : Expression classes level tokens tree)
    (present : level ≠ .arguments) :
    ∃ first rest, tokens = first :: rest ∧ level.opens first = true := by
  induction derived with
  | either _ _ ih _ | both _ _ ih _ | compare _ _ _ ih _ | sum _ _ _ ih _ | product _ _ _ ih _
  | more _ _ ih _ =>
    obtain ⟨first, rest, rfl, opened⟩ := ih (by decide)
    exact ⟨first, _, rfl, Level.opensLooser opened (by decide)⟩
  | ofConjunction _ ih | ofNegation _ ih | ofComparison _ ih | ofSum _ ih | ofProduct _ ih
  | ofFactor _ ih | ofCall _ ih | single _ ih =>
    obtain ⟨first, rest, rfl, opened⟩ := ih (by decide)
    exact ⟨first, rest, rfl, Level.opensLooser opened (by decide)⟩
  | @path names nonempty =>
    cases names with
    | nil => exact absurd rfl nonempty
    | cons first rest => exact ⟨_, _, rfl, rfl⟩
  | @call path name =>
    obtain ⟨first, rest, spelled⟩ := separatedCons '.' path name
    rw [spelled]
    exact ⟨_, _, rfl, rfl⟩
  | absent | given => exact absurd rfl present
  | _ => exact ⟨_, _, rfl, rfl⟩

end Grammar

namespace Parser
open ParserState Grammar

section Expressions

theorem productLooseness {op : ArithmeticOp} (multiplicative : op = .multiply ∨ op = .divide) :
    looseness (operatorToken op) = 2 := by
  rcases multiplicative with rfl | rfl <;> rfl

theorem sumLooseness {op : ArithmeticOp} (additive : op = .add ∨ op = .subtract) :
    looseness (operatorToken op) = 3 := by
  rcases additive with rfl | rfl <;> rfl

theorem relationLooseness (relation : Relation) : looseness (relationToken relation) = 4 := by
  cases relation <;> rfl

variable {nested : Parser Stmt} {classes : ClassTable} {tokens : List Token} {tree : Stmt}

theorem productReads
    (looped : Loops productOperator (bounded (factor nested)) classes tokens tree 1) :
    Reads (product nested) classes tokens tree 2 := by
  refine looped.finish (by decide) fun {token combine} found => ?_
  obtain ⟨op, multiplicative, rfl, -⟩ := productOperatorFound.mp found
  exact Nat.le_of_eq (productLooseness multiplicative)

theorem sumReads (looped : Loops sumOperator (product nested) classes tokens tree 2) :
    Reads (sum nested) classes tokens tree 3 := by
  refine looped.finish (by decide) fun {token combine} found => ?_
  obtain ⟨op, additive, rfl, -⟩ := sumOperatorFound.mp found
  exact Nat.le_of_eq (sumLooseness additive)

theorem conjunctionReads
    (looped : Loops andOperator (bounded (negation nested)) classes tokens tree 5) :
    Reads (conjunction nested) classes tokens tree 6 := by
  refine looped.finish (by decide) fun {token combine} found => ?_
  obtain ⟨rfl, -⟩ := andOperatorFound.mp found
  decide

theorem disjunctionReads (looped : Loops orOperator (conjunction nested) classes tokens tree 6) :
    Reads (disjunction nested) classes tokens tree 7 := by
  refine looped.finish (by decide) fun {token combine} found => ?_
  obtain ⟨rfl, -⟩ := orOperatorFound.mp found
  decide

theorem negateReads {rounds : Nat} (operand : Reads (negation nested rounds) classes tokens tree 5) :
    Reads (negation nested (rounds + 1)) classes (.keyword .notK :: tokens) (.negate tree) 5 := by
  rw [negation]
  refine .look ?_
  rw [if_pos rfl]
  exact (advanceTakes _ _).and (operand.finally (pureTakes _ _ _) id)

theorem unnegatedReads {rounds : Nat} (derived : Expression classes .comparison tokens tree)
    (only : Reads (comparison nested) classes tokens tree 4) :
    Reads (negation nested (rounds + 1)) classes tokens tree 5 := by
  obtain ⟨first, others, rfl, opened⟩ := derived.starts (by decide)
  have positive : first ≠ .keyword .notK := by
    rintro rfl
    exact absurd opened (by decide)
  rw [negation]
  refine .look ?_
  rw [if_neg positive]
  exact only.weaken fun looser => by omega

theorem compareReads {left right : List Token} {first second : Stmt} (relation : Relation)
    (before : Reads (sum nested) classes left first 3)
    (behind : Reads (sum nested) classes right second 3) :
    Reads (comparison nested) classes (left ++ relationToken relation :: right)
      (.compare relation first second) 4 := by
  have looser : 3 < looseness (relationToken relation) := by
    rw [relationLooseness]
    decide
  refine before.upTo (.look ?_) looser
  simp only [relationFound.mpr rfl]
  exact (advanceTakes _ _).and (behind.finally (pureTakes _ _ _) fun ended => by omega)

theorem uncomparedReads (only : Reads (sum nested) classes tokens tree 3) :
    Reads (comparison nested) classes tokens tree 4 := by
  refine only.finally (.lookBeyond fun {token} ended => ?_) fun ended => by omega
  cases found : relation? token with
  | none => exact pureTakes _ _ _
  | some relation =>
    rw [relationFound.mp found, relationLooseness] at ended
    omega

theorem parenthesizedReads {rounds : Nat} (inner : Reads nested classes tokens tree 7) :
    Reads (factor nested (rounds + 1)) classes (.char '(' :: tokens ++ [.char ')']) tree 1 := by
  rw [factor]
  refine .look ((advanceTakes _ _).and (inner.upTo ?_ (by decide)))
  exact (expectTakes _ _).finally (pureTakes _ _ _) fun _ => trivial

theorem oppositeReads {rounds : Nat} (operand : Reads (factor nested rounds) classes tokens tree 1) :
    Reads (factor nested (rounds + 1)) classes (.char '-' :: tokens) (opposite tree) 1 := by
  rw [factor]
  refine .look ?_
  exact (advanceTakes _ _).and (operand.finally (pureTakes _ _ _) id)

theorem literalTakes (token : Token) (value : Stmt) (stops : Token → Prop) :
    Takes (literal value) classes [token] value classes stops :=
  (advanceTakes _ _).finally (pureTakes _ _ _) fun _ => trivial

theorem pathOrCallReads (path : Path) (name : String) :
    Reads (pathOrCall nested) classes (separated '.' (path ++ [name])) (.path (path ++ [name])) 1 := by
  refine .line fun line => ?_
  refine (dottedTakes classes path name).finally (.lookBeyond fun {token} ended => ?_) ?_
  · have uncalled : token ≠ .char '(' := by
      rintro rfl
      exact absurd ended (by decide)
    rw [if_neg uncalled]
    exact pureTakes _ _ _
  · rintro _ ended rfl
    exact absurd ended (by decide)

theorem calledReads {path : Path} {name : String} {body : List Token}
    (called : ∀ line, Takes (callRest nested path name line) classes (.char '(' :: body) tree classes
      fun _ => True) :
    Reads (pathOrCall nested) classes (separated '.' (path ++ [name]) ++ .char '(' :: body) tree 1 := by
  refine .line fun line => ?_
  refine (dottedTakes classes path name).upTo (.look ?_) (by decide)
  rw [if_pos rfl]
  exact (called line).weaken fun _ => trivial

theorem namedReads {rounds : Nat} (opened : ∃ name rest, tokens = .identifier name :: rest)
    (read : Reads (pathOrCall nested) classes tokens tree 1) :
    Reads (factor nested (rounds + 1)) classes tokens tree 1 := by
  obtain ⟨name, others, rfl⟩ := opened
  rw [factor]
  exact .look read

theorem bareCallTakes {name : String} {args : List Stmt} {line : Nat} {stops : Token → Prop}
    (resolved : Resolves classes [] name args tree) :
    Takes (bareCall name args line) classes [] tree classes stops := by
  intro state next rest stands _
  refine ⟨state, ?_, stands⟩
  unfold bareCall
  rw [classesBind, stands.classes]
  cases resolved with
  | method qualified => exact absurd rfl qualified
  | creation declared => simp only [declared, Machine.pureRun]
  | conversion free => simp only [free, if_true, Machine.pureRun]

theorem callRestTakes {path : Path} {name : String} {args : List Stmt}
    (given : Takes (listUntil (.char ')') nested) classes tokens args classes (· = .char ')'))
    (resolved : Resolves classes path name args tree) (line : Nat) :
    Takes (callRest nested path name line) classes (.char '(' :: (tokens ++ [.char ')'])) tree classes
      fun _ => True := by
  have ran : Takes (arguments nested) classes (.char '(' :: (tokens ++ [.char ')'])) args classes
      fun _ => True := by
    refine (expectTakes _ _).and (given.upTo ?_ rfl)
    exact (expectTakes _ _).finally (pureTakes _ _ _) fun _ => trivial
  refine ran.finally ?_ fun _ => trivial
  cases path with
  | nil => exact bareCallTakes resolved
  | cons head others =>
    cases resolved
    exact pureTakes _ _ _

theorem absentTakes (stop : Token) :
    Takes (listUntil stop nested) classes [] [] classes (· = stop) := by
  refine .lookBeyond fun {token} stopped => ?_
  rw [if_pos stopped]
  exact pureTakes _ _ _

theorem givenTakes {stop : Token} {trees : List Stmt}
    (derived : Expression classes .list tokens trees) (closes : Level.list.opens stop = false)
    (loose : 8 < looseness stop) (listed : Lists nested classes tokens trees) :
    Takes (listUntil stop nested) classes tokens trees classes (· = stop) := by
  obtain ⟨first, others, rfl, opened⟩ := derived.starts (by decide)
  have different : first ≠ stop := by
    rintro rfl
    rw [closes] at opened
    exact absurd opened (by decide)
  refine .look ?_
  rw [if_neg different]
  refine listed.finish.weaken ?_
  rintro _ rfl
  exact loose

/- What it is for a phrase of each level to be taken. The parsers that count their rounds need more of
them than there are tokens in the phrase, the parser of nested expressions has to take what is
shorter than the limit. -/
def Complete (nested : Parser Stmt) (limit : Nat) (classes : ClassTable) :
    (level : Level) → List Token → level.Tree → Prop
  | .disjunction, tokens, tree => Loops orOperator (conjunction nested) classes tokens tree 6
  | .conjunction, tokens, tree => Loops andOperator (bounded (negation nested)) classes tokens tree 5
  | .negation, tokens, tree =>
    ∀ rounds, tokens.length < rounds → Reads (negation nested rounds) classes tokens tree 5
  | .comparison, tokens, tree => Reads (comparison nested) classes tokens tree 4
  | .sum, tokens, tree => Loops sumOperator (product nested) classes tokens tree 2
  | .product, tokens, tree => Loops productOperator (bounded (factor nested)) classes tokens tree 1
  | .factor, tokens, tree =>
    ∀ rounds, tokens.length < rounds → Reads (factor nested rounds) classes tokens tree 1
  | .call, tokens, tree => ∃ path name body,
    tokens = separated '.' (path ++ [name]) ++ .char '(' :: body ∧ ∀ line,
      Takes (callRest nested path name line) classes (.char '(' :: body) tree classes fun _ => True
  | .list, tokens, trees => tokens.length < limit → Lists nested classes tokens trees
  | .arguments, tokens, trees => tokens.length < limit → ∀ stop,
    Level.list.opens stop = false → 8 < looseness stop →
      Takes (listUntil stop nested) classes tokens trees classes (· = stop)

variable {limit : Nat}

theorem levelComplete {level : Level} {tokens : List Token} {tree : level.Tree}
    (inner : ∀ {tokens tree}, Expression classes .disjunction tokens tree → tokens.length < limit →
      Reads nested classes tokens tree 7)
    (derived : Expression classes level tokens tree) (short : tokens.length ≤ limit) :
    Complete nested limit classes level tokens tree := by
  induction derived with
  | either _ _ left right =>
    simp only [List.length_append, List.length_cons] at short
    exact (left (by omega)).step (orOperatorFound.mpr ⟨rfl, rfl⟩) (by decide)
      (conjunctionReads (right (by omega)))
  | ofConjunction _ only => exact .start (conjunctionReads (only short))
  | both _ _ left right =>
    simp only [List.length_append, List.length_cons] at short
    exact (left (by omega)).step (andOperatorFound.mpr ⟨rfl, rfl⟩) (by decide)
      (.bounded (right (by omega)))
  | ofNegation _ only => exact .start (.bounded (only short))
  | negate _ operand =>
    rw [List.length_cons] at short
    rintro (_ | rounds) enough
    · omega
    · exact negateReads (operand (by omega) rounds (by simpa using enough))
  | ofComparison derived only =>
    rintro (_ | rounds) enough
    · omega
    · exact unnegatedReads derived (only short)
  | compare relation _ _ left right =>
    simp only [List.length_append, List.length_cons] at short
    exact compareReads relation (sumReads (left (by omega))) (sumReads (right (by omega)))
  | ofSum _ only => exact uncomparedReads (sumReads (only short))
  | sum additive _ _ left right =>
    simp only [List.length_append, List.length_cons] at short
    refine (left (by omega)).step (sumOperatorFound.mpr ⟨_, additive, rfl, rfl⟩) ?_
      (productReads (right (by omega)))
    rw [sumLooseness additive]
    decide
  | ofProduct _ only => exact .start (productReads (only short))
  | product multiplicative _ _ left right =>
    simp only [List.length_append, List.length_cons] at short
    refine (left (by omega)).step (productOperatorFound.mpr ⟨_, multiplicative, rfl, rfl⟩) ?_
      (.bounded (right (by omega)))
    rw [productLooseness multiplicative]
    decide
  | ofFactor _ only => exact .start (.bounded (only short))
  -- what is nested is shorter by the parentheses, and its own parser takes it
  | parenthesized derived _ =>
    simp only [List.cons_append, List.length_append, List.length_cons] at short
    rintro (_ | rounds) enough
    · omega
    · exact parenthesizedReads (inner derived (by omega))
  | opposite _ operand =>
    rw [List.length_cons] at short
    rintro (_ | rounds) enough
    · omega
    · exact oppositeReads (operand (by omega) rounds (by simpa using enough))
  | number | string | yes | no | none =>
    rintro (_ | rounds) enough
    · omega
    · rw [factor]
      exact .look (literalTakes _ _ _)
  | @path names nonempty =>
    rintro (_ | rounds) enough
    · omega
    · obtain ⟨path, name, rfl⟩ : ∃ path name, names = path ++ [name] :=
        ⟨_, _, (List.dropLast_append_getLast nonempty).symm⟩
      exact namedReads (separatedCons '.' path name) (pathOrCallReads path name)
  | ofCall _ only =>
    obtain ⟨path, name, body, rfl, called⟩ := only short
    obtain ⟨first, others, spelled⟩ := separatedCons '.' path name
    rintro (_ | rounds) enough
    · omega
    · exact namedReads ⟨first, _, by rw [spelled]; rfl⟩ (calledReads called)
  | @call path name tokens args tree _ resolved given =>
    simp only [List.length_append, List.length_cons] at short
    refine ⟨path, name, tokens ++ [.char ')'], by simp, fun line => ?_⟩
    exact callRestTakes (given (by omega) (by omega) _ rfl (by decide)) resolved line
  | single derived _ => exact fun short => .single (inner derived short)
  | more derived _ _ rest =>
    intro short
    simp only [List.length_append, List.length_cons] at short
    exact .more (inner derived (by omega)) (rest (by omega) (by omega))
  | absent => exact fun _ stop _ _ => absentTakes stop
  | given derived listed =>
    exact fun less _ closes loose => givenTakes derived closes loose (listed short less)

theorem withinReads (depth : Nat) {tokens : List Token} {tree : Stmt}
    (derived : Expression classes .disjunction tokens tree) (short : tokens.length ≤ depth) :
    Reads (expressionWithin depth) classes tokens tree 7 := by
  induction depth generalizing tokens tree with
  | zero =>
    obtain ⟨first, rest, rfl, -⟩ := derived.starts (by decide)
    simp at short
  | succ depth ih =>
    exact disjunctionReads (levelComplete (fun inside less => ih inside (by omega)) derived short)

theorem expressionReads (derived : Expression classes .disjunction tokens tree) :
    Reads expression classes tokens tree 7 :=
  .bounded fun rounds enough => withinReads rounds derived (by omega)

end Expressions

section Statements

variable {nested : Parser Stmt} {classes : ClassTable} {tokens : List Token} {tree : Stmt}

theorem assignmentTakes (path : Path) (last : String)
    (given : Expression classes .disjunction tokens tree) :
    Takes assignmentOrCall classes (separated '.' (path ++ [last]) ++ .char '=' :: tokens)
      (match path with
        | [] => .assign last tree
        | path => .setField path last tree) classes (· = .newline) := by
  refine .line fun line => (dottedTakes _ path last).upTo (.look ?_) (by decide)
  rw [if_pos rfl]
  refine (advanceTakes _ _).and ((expressionReads given).finally ?_ ?_)
  · cases path <;> exact pureTakes _ _ _
  · rintro _ rfl
    decide

theorem callStatementTakes (made : Expression classes .call tokens tree) :
    Takes assignmentOrCall classes tokens tree classes (· = .newline) := by
  obtain ⟨path, name, body, rfl, called⟩ :=
    levelComplete (fun given _ => expressionReads given) made (Nat.le_refl _)
  refine .line fun line => (dottedTakes _ path name).upTo (.look ?_) (by decide)
  rw [if_neg (by decide), if_pos rfl]
  exact (called line).weaken fun _ => trivial

theorem callOpens (made : Expression classes .call tokens tree) :
    ∃ name rest, tokens = .identifier name :: rest := by
  cases made with
  | @call path name tokens =>
    obtain ⟨first, rest, spelled⟩ := separatedCons '.' path name
    exact ⟨first, _, by rw [spelled]; rfl⟩

theorem namedStatementTakes {ends : Token → Prop}
    (opened : ∃ name rest, tokens = .identifier name :: rest)
    (takes : Takes assignmentOrCall classes tokens tree classes ends) :
    Takes simpleStatement classes tokens tree classes ends := by
  obtain ⟨name, rest, rfl⟩ := opened
  exact .look takes

theorem simpleTakes (derived : Simple classes tokens tree) :
    Takes simpleStatement classes tokens tree classes (· = .newline) := by
  cases derived with
  | result given =>
    refine .look ((advanceTakes _ _).and ((expressionReads given).finally (pureTakes _ _ _) ?_))
    rintro _ rfl
    decide
  | @print tokens args given =>
    have listed : Takes (listUntil .newline expression) classes tokens args classes (· = .newline) :=
      levelComplete (fun inside _ => expressionReads inside) given (Nat.le_succ _)
        (Nat.lt_succ_self _) .newline rfl (by decide)
    exact .look ((advanceTakes _ _).and (listed.finally (pureTakes _ _ _) id))
  | assign given => exact namedStatementTakes ⟨_, _, rfl⟩ (assignmentTakes [] _ given)
  | @setField path field tokens value qualified given =>
    obtain ⟨first, rest, spelled⟩ := separatedCons '.' path field
    have takes := assignmentTakes path field given
    cases path with
    | nil => exact absurd rfl qualified
    | cons head others => exact namedStatementTakes ⟨first, _, by rw [spelled]; rfl⟩ takes
  | call made => exact namedStatementTakes (callOpens made) (callStatementTakes made)

theorem simpleOpens (derived : Simple classes tokens tree) : ∃ first rest, tokens = first :: rest ∧
    (first = .keyword .returnK ∨ first = .keyword .printK ∨ ∃ name, first = .identifier name) := by
  cases derived with
  | result => exact ⟨_, _, rfl, .inl rfl⟩
  | print => exact ⟨_, _, rfl, .inr (.inl rfl)⟩
  | assign => exact ⟨_, _, rfl, .inr (.inr ⟨_, rfl⟩)⟩
  | @setField path field =>
    obtain ⟨first, rest, spelled⟩ := separatedCons '.' path field
    rw [spelled]
    exact ⟨_, _, rfl, .inr (.inr ⟨_, rfl⟩)⟩
  | call made =>
    obtain ⟨name, rest, rfl⟩ := callOpens made
    exact ⟨_, _, rfl, .inr (.inr ⟨_, rfl⟩)⟩

theorem statementOpens {before after : ClassTable}
    (derived : Derives .statement before tokens tree after) :
    ∃ first rest, tokens = first :: rest ∧ begins first = true := by
  cases derived with
  | simple line =>
    obtain ⟨first, rest, rfl, rfl | rfl | ⟨name, rfl⟩⟩ := simpleOpens line
    all_goals exact ⟨_, _, rfl, rfl⟩
  | branch | branchElse | define => exact ⟨_, _, rfl, rfl⟩

theorem simpleLineTakes (line : Simple classes tokens tree) :
    Takes (statementOver nested) classes (tokens ++ [.newline]) tree classes fun _ => True := by
  have takes : Takes (simpleStatement >>= fun statement => expect .newline >>= fun _ => pure statement)
      classes (tokens ++ [.newline]) tree classes fun _ => True := by
    refine (simpleTakes line).upTo ?_ rfl
    exact (expectTakes _ _).finally (pureTakes _ _ _) fun _ => trivial
  obtain ⟨first, rest, rfl, rfl | rfl | ⟨name, rfl⟩⟩ := simpleOpens line
  all_goals exact .look takes

theorem suiteTakes {before after : ClassTable} {body : List Stmt}
    (inside : ∀ rounds, tokens.length < rounds →
      Takes (statementsUntil .dedent nested rounds) before tokens body after (· = .dedent)) :
    Takes (suite nested) before (.newline :: .indent :: tokens ++ [.dedent]) (.block body) after
      fun _ => True := by
  refine (expectTakes _ _).and ((expectTakes _ _).and ((Takes.bounded inside).upTo ?_ rfl))
  exact (expectTakes _ _).finally (pureTakes _ _ _) fun _ => trivial

theorem branchTakes {before after : ClassTable} {test body : List Token} {condition yes : Stmt}
    (tested : Expression before .disjunction test condition)
    (positive : Takes (suite nested) before body yes after fun _ => True) :
    Takes (conditional nested) before (.keyword .ifK :: test ++ .char ':' :: body)
      (.branch condition yes none) after (· ≠ .keyword .elseK) := by
  refine (expectTakes _ _).and ((expressionReads tested).upTo ?_ (by decide))
  refine (expectTakes _ _).and (positive.finally (.lookBeyond fun {token} other => ?_) fun _ => trivial)
  rw [if_neg other]
  exact pureTakes _ _ _

theorem branchElseTakes {before between after : ClassTable} {test body other : List Token}
    {condition yes no : Stmt} (tested : Expression before .disjunction test condition)
    (positive : Takes (suite nested) before body yes between fun _ => True)
    (negative : Takes (suite nested) between other no after fun _ => True) :
    Takes (conditional nested) before
      (.keyword .ifK :: test ++ .char ':' :: body ++ .keyword .elseK :: .char ':' :: other)
      (.branch condition yes (some no)) after (· ≠ .keyword .elseK) := by
  rw [List.append_assoc, List.cons_append]
  refine (expectTakes _ _).and ((expressionReads tested).upTo ?_ (by decide))
  refine (expectTakes _ _).and (positive.upTo (.look ?_) trivial)
  rw [if_pos rfl]
  refine (advanceTakes _ _).and ((expectTakes _ _).and (negative.finally ?_ fun _ => trivial))
  exact pureTakes _ _ _

theorem parametersTakes (classes : ClassTable) (params : List String) :
    Takes parameters classes (separated ',' params) params classes (· = .char ')') := by
  have lists : ∀ first rest,
      Lists identifier classes (separated ',' (first :: rest)) (first :: rest) := by
    intro first rest
    induction rest generalizing first with
    | nil => exact .single ((identifierTakes _ first).weaken fun _ => trivial)
    | cons second rest ih =>
      exact .more ((identifierTakes _ first).weaken fun _ => trivial) (ih second)
  cases params with
  | nil =>
    refine .lookBeyond fun {token} closed => ?_
    subst closed
    exact pureTakes _ _ _
  | cons first rest =>
    refine .look ((lists first rest).finish.weaken ?_)
    rintro _ rfl
    decide

theorem baseClassTakes {name : String} {line : Nat} {parent : Option ClassId}
    (inherits : Base classes tokens parent) :
    Takes (baseClass name line) classes tokens parent classes (· = .char ':') := by
  cases inherits with
  | absent =>
    refine .lookBeyond fun {token} marked => ?_
    subst marked
    exact pureTakes _ _ _
  | @named base parent declared =>
    refine .look ?_
    rw [if_pos rfl]
    refine (advanceTakes _ _).and ((identifierTakes _ base).and ?_)
    refine (expectTakes _ _).finally ?_ fun _ => trivial
    intro state next rest stands _
    refine ⟨state, ?_, stands⟩
    rw [classesBind, stands.classes]
    simp only [declared, Machine.pureRun]

theorem declareTakes {name : String} {parent : Option ClassId} {methods : List Method} {line : Nat}
    {stops : Token → Prop} (free : classes.find? name = none) :
    Takes (declare name parent methods line) classes [] (.define classes.classes.size)
      (classes.declare name parent methods) stops := by
  rintro state next rest ⟨there, rfl⟩ _
  refine ⟨_, by simp only [declare, free]; rfl, ?_⟩
  exact ⟨there, rfl⟩

theorem methodsNextTakes {before between after : ClassTable} {name : String} {params : List String}
    {body others : List Token} {methods : List Method} {rounds : Nat}
    (inside : Takes (suite nested) before body tree between fun _ => True)
    (rest : Takes (Parser.methods nested rounds) between others methods after (· ≠ .keyword .defK)) :
    Takes (Parser.methods nested (rounds + 1)) before
      (.keyword .defK :: .identifier name :: .char '(' :: separated ',' params ++
        .char ')' :: .char ':' :: body ++ others)
      (⟨name, params, tree⟩ :: methods) after (· ≠ .keyword .defK) := by
  have head : Takes (method nested) before
      (.keyword .defK :: .identifier name :: .char '(' :: separated ',' params ++
        .char ')' :: .char ':' :: body) ⟨name, params, tree⟩ between fun _ => True := by
    refine (expectTakes _ _).and ((identifierTakes _ name).and ((expectTakes _ _).and ?_))
    refine (parametersTakes _ params).upTo ((expectTakes _ _).and ((expectTakes _ _).and ?_)) rfl
    exact inside.finally (pureTakes _ _ _) fun _ => trivial
  rw [Parser.methods]
  refine .look ?_
  rw [if_pos rfl]
  exact head.and (rest.finally (pureTakes _ _ _) id)

theorem defineTakes {before after : ClassTable} {name : String} {base body : List Token}
    {parent : Option ClassId} {methods : List Method} {stops : Token → Prop}
    (inherits : Base before base parent) (begun : ∃ rest, body = .keyword .defK :: rest)
    (declared : ∀ rounds, body.length < rounds →
      Takes (Parser.methods nested rounds) before body methods after (· ≠ .keyword .defK))
    (free : after.find? name = none) :
    Takes (classDefinition nested) before
      (.keyword .classK :: .identifier name :: base ++
        .char ':' :: .newline :: .indent :: body ++ [.dedent])
      (.define after.classes.size) (after.declare name parent methods) stops := by
  obtain ⟨rest, rfl⟩ := begun
  rw [List.append_assoc]
  refine .line fun line => (expectTakes _ _).and ((identifierTakes _ name).and ?_)
  refine (baseClassTakes inherits).upTo ?_ rfl
  refine (expectTakes _ _).and ((expectTakes _ _).and ((expectTakes _ _).and (.look ?_)))
  rw [if_pos rfl]
  refine (Takes.bounded declared).upTo ?_ (by decide)
  exact (expectTakes _ _).finally (declareTakes free) fun _ => trivial

/- As for the levels of expressions. A statement is not followed by `else`: that is where one with a
single suite would go on. -/
def CompletePhrase (nested : Parser Stmt) (limit : Nat) :
    (phrase : Phrase) → ClassTable → List Token → phrase.Tree → ClassTable → Prop
  | .statement, before, tokens, tree, after => tokens.length ≤ limit →
    Takes (statementOver nested) before tokens tree after (· ≠ .keyword .elseK)
  | .statements, before, tokens, trees, after => tokens.length < limit →
    ∀ stop, begins stop = false → stop ≠ .keyword .elseK → ∀ rounds, tokens.length < rounds →
      Takes (statementsUntil stop nested rounds) before tokens trees after (· = stop)
  | .suite, before, tokens, tree, after => tokens.length < limit →
    Takes (suite nested) before tokens tree after fun _ => True
  | .methods, before, tokens, methods, after => tokens.length < limit →
    ∀ rounds, tokens.length < rounds →
      Takes (Parser.methods nested rounds) before tokens methods after (· ≠ .keyword .defK)

theorem statementsNextTakes {before between after : ClassTable} {stop : Token} {others : List Token}
    {trees : List Stmt} {rounds : Nat} (opened : ∃ first rest, tokens = first :: rest ∧ first ≠ stop)
    (onward : others = [] ∨ ∃ first rest, others = first :: rest ∧ first ≠ .keyword .elseK)
    (stopped : stop ≠ .keyword .elseK)
    (head : Takes nested before tokens tree between (· ≠ .keyword .elseK))
    (rest : Takes (statementsUntil stop nested rounds) between others trees after (· = stop)) :
    Takes (statementsUntil stop nested (rounds + 1)) before (tokens ++ others) (tree :: trees) after
      (· = stop) := by
  have chosen : Takes (nested >>= fun head => statementsUntil stop nested rounds >>= fun rest =>
      pure (head :: rest)) before (tokens ++ others) (tree :: trees) after (· = stop) := by
    rcases onward with rfl | ⟨first, others, rfl, other⟩
    · rw [List.append_nil]
      refine head.finally (rest.finally (pureTakes _ _ _) id) ?_
      rintro _ rfl
      exact stopped
    · exact head.upTo (rest.finally (pureTakes _ _ _) id) other
  obtain ⟨first, more, rfl, different⟩ := opened
  rw [statementsUntil]
  refine .look ?_
  rw [if_neg different]
  exact chosen

theorem phraseComplete {limit : Nat} {phrase : Phrase} {before after : ClassTable}
    {tokens : List Token} {tree : phrase.Tree}
    (inner : ∀ {before tokens tree after}, Derives .statement before tokens tree after →
      tokens.length < limit → Takes nested before tokens tree after (· ≠ .keyword .elseK))
    (derived : Derives phrase before tokens tree after) :
    CompletePhrase nested limit phrase before tokens tree after := by
  induction derived with
  | simple line => exact fun _ => (simpleLineTakes line).weaken fun _ => trivial
  | branch tested _ positive =>
    intro short
    simp only [List.cons_append, List.length_append, List.length_cons] at short
    exact .look (branchTakes tested (positive (by omega)))
  | branchElse tested _ _ positive negative =>
    intro short
    simp only [List.cons_append, List.length_append, List.length_cons] at short
    exact .look (branchElseTakes tested (positive (by omega)) (negative (by omega)))
  | @define before after name base body parent methods inherits derived nonempty free declared =>
    intro short
    simp only [List.cons_append, List.length_append, List.length_cons] at short
    have begun : ∃ rest, body = .keyword .defK :: rest := by
      cases derived with
      | noMethods => exact absurd rfl nonempty
      | method => exact ⟨_, rfl⟩
    exact .look (defineTakes inherits begun (declared (by omega)) free)
  | finished =>
    rintro _ stop _ _ (_ | rounds) enough
    · omega
    · rw [statementsUntil]
      refine .lookBeyond fun {token} stopped => ?_
      rw [if_pos stopped]
      exact pureTakes _ _ _
  | @next before between after tokens others tree trees head derived _ rest =>
    rintro short stop ending other (_ | rounds) enough
    · omega
    · rw [List.length_append] at short enough
      obtain ⟨first, more, rfl, begun⟩ := statementOpens head
      -- the statement behind this one never starts with `else`
      have onward : others = [] ∨ ∃ first rest, others = first :: rest ∧ first ≠ .keyword .elseK := by
        cases derived with
        | finished => exact .inl rfl
        | next second _ =>
          obtain ⟨first, rest, rfl, begun⟩ := statementOpens second
          refine .inr ⟨first, _, rfl, ?_⟩
          rintro rfl
          exact absurd begun (by decide)
      have different : first ≠ stop := by
        rintro rfl
        rw [ending] at begun
        exact absurd begun (by decide)
      refine statementsNextTakes ⟨first, more, rfl, different⟩ onward other (inner head (by omega)) ?_
      rw [List.length_cons] at short enough
      exact rest (by omega) stop ending other rounds (by omega)
  | suite _ _ inside =>
    intro short
    simp only [List.cons_append, List.length_append, List.length_cons] at short
    exact suiteTakes (inside (by omega) .dedent rfl (by decide))
  | noMethods =>
    rintro _ (_ | rounds) enough
    · omega
    · rw [Parser.methods]
      refine .lookBeyond fun {token} other => ?_
      rw [if_neg other]
      exact pureTakes _ _ _
  | method _ _ inside rest =>
    rintro short (_ | rounds) enough
    · omega
    · simp only [List.cons_append, List.length_append, List.length_cons] at short enough
      exact methodsNextTakes (inside (by omega)) (rest (by omega) rounds (by omega))

theorem statementWithinTakes (depth : Nat) {before after : ClassTable} {tokens : List Token}
    {tree : Stmt} (derived : Derives .statement before tokens tree after)
    (short : tokens.length ≤ depth) :
    Takes (statementWithin depth) before tokens tree after (· ≠ .keyword .elseK) := by
  induction depth generalizing before tokens tree after with
  | zero =>
    obtain ⟨first, rest, rfl, -⟩ := statementOpens derived
    simp at short
  | succ depth ih => exact phraseComplete (fun inside less => ih inside (by omega)) derived short

theorem statementTakes {before after : ClassTable}
    (derived : Derives .statement before tokens tree after) :
    Takes statement before tokens tree after (· ≠ .keyword .elseK) :=
  .bounded fun rounds enough => statementWithinTakes rounds derived (by omega)

theorem programComplete {before after : ClassTable} {trees : List Stmt} {state : ParserState}
    {first : Token} (derived : Derives .statements before tokens trees after)
    (stands : Stands state before (first :: tokens ++ [.eof])) :
    ∃ final, program state = .done ⟨trees, after⟩ final := by
  have statements : Takes (bounded (statementsUntil .eof statement)) before tokens trees after
      (· = .eof) :=
    .bounded (phraseComplete (fun inside _ => statementTakes inside) derived
      (Nat.lt_succ_self _) .eof rfl (by decide))
  obtain ⟨started, stepped, there⟩ := advanceStands stands (by simp)
  obtain ⟨ended, ran, beyond⟩ := statements there rfl
  rw [program, Machine.bindOf stepped, Machine.bindOf ran, finish, beyond.classes]
  exact ⟨_, rfl⟩

end Statements

end Parser

end Offside
