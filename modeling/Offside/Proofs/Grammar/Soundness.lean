import Mathlib.Data.List.Chain
import Offside.Grammar.Statement
import Offside.Proofs.Grammar.Step

/-! What the parsers accept, the grammar derives. Each parser is followed once, with the tokens it took
on the way; the parser of what is nested in it is a parameter there, and the depth of the nesting
is what the last induction is on. -/
namespace Offside.Parser
open ParserState Grammar

variable {α : Type}

def Sound (parser : Parser α) (language : ClassTable → List Token → α → Prop) : Prop :=
  ∀ ⦃state value after⦄, parser state = .done value after →
    ∃ tokens, Took state tokens after ∧ language state.classes tokens value

theorem markedSound {β : Type} {parser : Parser β} {language : ClassTable → List Token → β → Prop}
    {build : β → Stmt} (inner : Sound parser language) {state after : ParserState} {tree : Stmt}
    (ran : (advance >>= fun _ => parser >>= fun value => pure (build value)) state =
      .done tree after) :
    ∃ tokens value, Took state (state.current.token :: tokens) after ∧
      language state.classes tokens value ∧ tree = build value := by
  obtain ⟨_, moved, stepped, ran⟩ := Machine.bindDone.mp ran
  obtain ⟨value, between, parsed, finished⟩ := Machine.bindDone.mp ran
  obtain ⟨rfl, rfl⟩ := pureDone.mp finished
  have first := advanceTook stepped
  obtain ⟨tokens, took, derived⟩ := inner parsed
  rw [first.classes] at derived
  exact ⟨tokens, value, first.trans took, derived, rfl⟩

section Repetition

theorem dottedRestSound {rounds : Nat} {path walked : Path} {last name : String}
    {state after : ParserState}
    (ran : dottedRest rounds walked name state = .done (path, last) after) :
    ∃ tokens, Took state tokens after ∧
      separated '.' (walked ++ [name]) ++ tokens = separated '.' (path ++ [last]) := by
  induction rounds generalizing walked name state with
  | zero => simp [dottedRest, Machine.exhaust] at ran
  | succ rounds ih =>
    rw [dottedRest, currentBind] at ran
    split at ran
    · rename_i point
      obtain ⟨_, moved, stepped, ran⟩ := Machine.bindDone.mp ran
      obtain ⟨next, named, found, ran⟩ := Machine.bindDone.mp ran
      obtain ⟨tokens, took, spelled⟩ := ih ran
      have first := advanceTook stepped
      rw [point] at first
      refine ⟨_, (first.trans (identifierTook found)).trans took, ?_⟩
      rw [← spelled]
      cases walked <;> simp [separated]
    · obtain ⟨same, rfl⟩ := pureDone.mp ran
      cases same
      exact ⟨[], tookNothing state, by simp⟩

theorem dottedSound : Sound dotted fun _ tokens names =>
    tokens = separated '.' (names.1 ++ [names.2]) := by
  intro state names after ran
  obtain ⟨first, named, found, ran⟩ := Machine.bindDone.mp ran
  obtain ⟨tokens, took, spelled⟩ := dottedRestSound ran
  exact ⟨_, (identifierTook found).trans took, spelled⟩

structure Chained (operator : Token → Option (Stmt → Stmt → Stmt))
    (item level : ClassTable → List Token → Stmt → Prop) : Prop where
  alone : ∀ {classes tokens tree}, item classes tokens tree → level classes tokens tree
  grouped : ∀ {classes token combine left right a b}, operator token = some combine →
    level classes left a → item classes right b →
    level classes (left ++ token :: right) (combine a b)

theorem chainRestSound {operator : Token → Option (Stmt → Stmt → Stmt)} {operand : Parser Stmt}
    {item level : ClassTable → List Token → Stmt → Prop} (operands : Sound operand item)
    (chained : Chained operator item level)
    {rounds : Nat} {left tree : Stmt} {state after : ParserState}
    (ran : chainRest operator operand rounds left state = .done tree after) :
    ∃ tokens, Took state tokens after ∧ ∀ before,
      level state.classes before left → level state.classes (before ++ tokens) tree := by
  induction rounds generalizing left state with
  | zero => simp [chainRest, Machine.exhaust] at ran
  | succ rounds ih =>
    rw [chainRest, currentBind] at ran
    cases found : operator state.current.token with
    | none =>
      simp only [found, pureDone] at ran
      obtain ⟨rfl, rfl⟩ := ran
      exact ⟨[], tookNothing state, fun before derived => by rwa [List.append_nil]⟩
    | some combine =>
      simp only [found] at ran
      obtain ⟨_, moved, stepped, ran⟩ := Machine.bindDone.mp ran
      obtain ⟨right, between, parsed, ran⟩ := Machine.bindDone.mp ran
      obtain ⟨others, tookRight, derivedRight⟩ := operands parsed
      obtain ⟨rest, tookRest, derivedRest⟩ := ih ran
      have first := advanceTook stepped
      refine ⟨_, (first.trans tookRight).trans tookRest, fun before derived => ?_⟩
      rw [first.classes] at derivedRight
      rw [tookRight.classes, first.classes] at derivedRest
      have joined := derivedRest _ (chained.grouped found derived derivedRight)
      simpa using joined

theorem chainSound {operator : Token → Option (Stmt → Stmt → Stmt)} {operand : Parser Stmt}
    {item level : ClassTable → List Token → Stmt → Prop} (operands : Sound operand item)
    (chained : Chained operator item level) : Sound (chain operator operand) level := by
  intro state tree after ran
  obtain ⟨left, between, parsed, ran⟩ := Machine.bindDone.mp ran
  obtain ⟨tokens, took, derived⟩ := operands parsed
  obtain ⟨rest, tookRest, derivedRest⟩ := chainRestSound operands chained ran
  rw [took.classes] at derivedRest
  exact ⟨_, took.trans tookRest, derivedRest _ (chained.alone derived)⟩

structure Listed (item : ClassTable → List Token → α → Prop)
    (list : ClassTable → List Token → List α → Prop) : Prop where
  single : ∀ {classes tokens value}, item classes tokens value → list classes tokens [value]
  more : ∀ {classes tokens others value values}, item classes tokens value →
    list classes others values → list classes (tokens ++ .char ',' :: others) (value :: values)

theorem commaRestSound {parser : Parser α} {item : ClassTable → List Token → α → Prop}
    {list : ClassTable → List Token → List α → Prop} (items : Sound parser item)
    (listed : Listed item list) {rounds : Nat} {values : List α} {state after : ParserState}
    (ran : commaRest parser rounds state = .done values after) :
    ∃ tokens, Took state tokens after ∧ ∀ before value,
      item state.classes before value → list state.classes (before ++ tokens) (value :: values) := by
  induction rounds generalizing values state with
  | zero => simp [commaRest, Machine.exhaust] at ran
  | succ rounds ih =>
    rw [commaRest, currentBind] at ran
    split at ran
    · rename_i comma
      obtain ⟨_, moved, stepped, ran⟩ := Machine.bindDone.mp ran
      obtain ⟨head, between, parsed, ran⟩ := Machine.bindDone.mp ran
      obtain ⟨tail, last, repeated, finished⟩ := Machine.bindDone.mp ran
      obtain ⟨rfl, rfl⟩ := pureDone.mp finished
      obtain ⟨others, tookHead, derivedHead⟩ := items parsed
      obtain ⟨rest, tookRest, derivedRest⟩ := ih repeated
      have first := advanceTook stepped
      rw [comma] at first
      refine ⟨_, (first.trans tookHead).trans tookRest, fun before value derived => ?_⟩
      rw [first.classes] at derivedHead
      rw [tookHead.classes, first.classes] at derivedRest
      have joined := listed.more derived (derivedRest _ _ derivedHead)
      simpa using joined
    · obtain ⟨rfl, rfl⟩ := pureDone.mp ran
      refine ⟨[], tookNothing state, fun before value derived => ?_⟩
      rw [List.append_nil]
      exact listed.single derived

theorem commaSeparatedSound {parser : Parser α} {item : ClassTable → List Token → α → Prop}
    {list : ClassTable → List Token → List α → Prop} (items : Sound parser item)
    (listed : Listed item list) : Sound (commaSeparated parser) list := by
  intro state values after ran
  obtain ⟨head, between, parsed, ran⟩ := Machine.bindDone.mp ran
  obtain ⟨tail, last, repeated, finished⟩ := Machine.bindDone.mp ran
  obtain ⟨rfl, rfl⟩ := pureDone.mp finished
  obtain ⟨tokens, took, derived⟩ := items parsed
  obtain ⟨rest, tookRest, derivedRest⟩ := commaRestSound items listed repeated
  rw [took.classes] at derivedRest
  exact ⟨_, took.trans tookRest, derivedRest _ _ derived⟩

end Repetition

section Expressions

variable {nested : Parser Stmt}

theorem listUntilSound {stop : Token}
    (inner : Sound nested (Expression · .disjunction)) :
    Sound (listUntil stop nested) (Expression · .arguments) := by
  intro state args after ran
  rw [listUntil, currentBind] at ran
  split at ran
  · obtain ⟨rfl, rfl⟩ := pureDone.mp ran
    exact ⟨[], tookNothing state, .absent⟩
  · have lists : Listed (Expression · .disjunction) (Expression · .list) := ⟨.single, .more⟩
    obtain ⟨tokens, took, derived⟩ := commaSeparatedSound inner lists ran
    exact ⟨tokens, took, .given derived⟩

theorem argumentsSound
    (inner : Sound nested (Expression · .disjunction)) :
    Sound (arguments nested) fun classes tokens args =>
      ∃ inside, tokens = .char '(' :: inside ++ [.char ')'] ∧
        Expression classes .arguments inside args := by
  intro state args after ran
  obtain ⟨_, opened, opening, ran⟩ := Machine.bindDone.mp ran
  obtain ⟨found, between, listed, ran⟩ := Machine.bindDone.mp ran
  obtain ⟨_, closed, closing, finished⟩ := Machine.bindDone.mp ran
  obtain ⟨rfl, rfl⟩ := pureDone.mp finished
  have first := expectTook opening
  obtain ⟨inside, took, derived⟩ := listUntilSound inner listed
  rw [first.classes] at derived
  exact ⟨_, (first.trans took).trans (expectTook closing), inside, rfl, derived⟩

theorem bareCallSound {name : String} {args : List Stmt} {line : Nat} {tree : Stmt}
    {state after : ParserState} (ran : bareCall name args line state = .done tree after) :
    Resolves state.classes [] name args tree ∧ after = state := by
  unfold bareCall at ran
  rw [classesBind] at ran
  cases found : state.classes.find? name with
  | some cls =>
    simp only [found, pureDone] at ran
    obtain ⟨rfl, rfl⟩ := ran
    exact ⟨.creation found, rfl⟩
  | none =>
    simp only [found] at ran
    split at ran
    · rename_i conversion
      subst conversion
      split at ran
      · obtain ⟨rfl, rfl⟩ := pureDone.mp ran
        exact ⟨.conversion found, rfl⟩
      · simp at ran
    · simp at ran

theorem callRestSound
    (inner : Sound nested (Expression · .disjunction))
    (path : Path) (name : String) (line : Nat) :
    Sound (callRest nested path name line) fun classes tokens tree =>
      Expression classes .call (separated '.' (path ++ [name]) ++ tokens) tree := by
  intro state tree after ran
  obtain ⟨args, between, given, ran⟩ := Machine.bindDone.mp ran
  obtain ⟨tokens, took, inside, rfl, derived⟩ := argumentsSound inner given
  have resolved : Resolves state.classes path name args tree ∧ after = between := by
    cases path with
    | nil => rw [← took.classes]; exact bareCallSound ran
    | cons head rest =>
      obtain ⟨rfl, rfl⟩ := pureDone.mp ran
      exact ⟨.method (by simp), rfl⟩
  obtain ⟨resolved, rfl⟩ := resolved
  refine ⟨_, took, ?_⟩
  have called := Expression.call derived resolved
  simpa using called

theorem pathOrCallSound (inner : Sound nested (Expression · .disjunction)) :
    Sound (pathOrCall nested) (Expression · .factor) := by
  intro state tree after ran
  rw [pathOrCall, lineBind] at ran
  obtain ⟨⟨path, last⟩, named, walked, ran⟩ := Machine.bindDone.mp ran
  obtain ⟨names, took, rfl⟩ := dottedSound walked
  simp only [currentBind] at ran
  split at ran
  · obtain ⟨tokens, tookRest, called⟩ := callRestSound inner path last _ ran
    rw [took.classes] at called
    exact ⟨_, took.trans tookRest, .ofCall called⟩
  · obtain ⟨rfl, rfl⟩ := pureDone.mp ran
    exact ⟨_, took, .path (by simp)⟩

theorem parenthesizedSound (inner : Sound nested (Expression · .disjunction))
    {state after : ParserState} {tree : Stmt}
    (ran : parenthesized nested state = .done tree after) :
    ∃ tokens, Took state (state.current.token :: tokens ++ [.char ')']) after ∧
      Expression state.classes .disjunction tokens tree := by
  obtain ⟨_, opened, stepped, ran⟩ := Machine.bindDone.mp ran
  obtain ⟨found, between, parsed, ran⟩ := Machine.bindDone.mp ran
  obtain ⟨_, closed, closing, finished⟩ := Machine.bindDone.mp ran
  obtain ⟨rfl, rfl⟩ := pureDone.mp finished
  have first := advanceTook stepped
  obtain ⟨tokens, took, derived⟩ := inner parsed
  rw [first.classes] at derived
  exact ⟨tokens, (first.trans took).trans (expectTook closing), derived⟩

theorem literalSound {value tree : Stmt} {state after : ParserState}
    (ran : literal value state = .done tree after) :
    Took state [state.current.token] after ∧ tree = value := by
  obtain ⟨_, moved, stepped, finished⟩ := Machine.bindDone.mp ran
  obtain ⟨rfl, rfl⟩ := pureDone.mp finished
  exact ⟨advanceTook stepped, rfl⟩

theorem factorSound (inner : Sound nested (Expression · .disjunction)) (rounds : Nat) :
    Sound (factor nested rounds) (Expression · .factor) := by
  induction rounds with
  | zero =>
    intro state tree after ran
    simp [factor, Machine.exhaust] at ran
  | succ rounds ih =>
    intro state tree after ran
    rw [factor, currentBind] at ran
    have constant : ∀ {value}, literal value state = .done tree after →
        Expression state.classes .factor [state.current.token] value →
        ∃ tokens, Took state tokens after ∧ Expression state.classes .factor tokens tree := by
      intro value ran derived
      obtain ⟨took, rfl⟩ := literalSound ran
      exact ⟨_, took, derived⟩
    generalize here : state.current.token = token at ran constant
    split at ran
    · obtain ⟨tokens, took, derived⟩ := parenthesizedSound inner ran
      rw [here] at took
      exact ⟨_, took, .parenthesized derived⟩
    · obtain ⟨tokens, operand, took, derived, rfl⟩ := markedSound ih ran
      rw [here] at took
      exact ⟨_, took, .opposite derived⟩
    · exact constant ran .yes
    · exact constant ran .no
    · exact constant ran .none
    · exact constant ran (.number _)
    · exact constant ran (.string _)
    · exact pathOrCallSound inner ran
    · simp at ran

theorem boundedSound {parser : Nat → Parser α} {language : ClassTable → List Token → α → Prop}
    (each : ∀ rounds, Sound (parser rounds) language) : Sound (bounded parser) language :=
  fun _ _ _ ran => each _ ran

theorem productSound (inner : Sound nested (Expression · .disjunction)) :
    Sound (product nested) (Expression · .product) := by
  refine chainSound (boundedSound (factorSound inner)) ⟨.ofFactor, ?_⟩
  intro classes token combine left right a b found first second
  obtain ⟨op, multiplicative, rfl, rfl⟩ := productOperatorFound.mp found
  exact .product multiplicative first second

theorem sumSound (inner : Sound nested (Expression · .disjunction)) :
    Sound (sum nested) (Expression · .sum) := by
  refine chainSound (productSound inner) ⟨.ofProduct, ?_⟩
  intro classes token combine left right a b found first second
  obtain ⟨op, additive, rfl, rfl⟩ := sumOperatorFound.mp found
  exact .sum additive first second

theorem comparisonSound (inner : Sound nested (Expression · .disjunction)) :
    Sound (comparison nested) (Expression · .comparison) := by
  intro state tree after ran
  obtain ⟨left, between, parsed, ran⟩ := Machine.bindDone.mp ran
  obtain ⟨tokens, took, first⟩ := sumSound inner parsed
  rw [currentBind] at ran
  cases found : relation? between.current.token with
  | none =>
    simp only [found, pureDone] at ran
    obtain ⟨rfl, rfl⟩ := ran
    exact ⟨tokens, took, .ofSum first⟩
  | some relation =>
    simp only [found] at ran
    obtain ⟨others, right, tookRight, second, rfl⟩ := markedSound (sumSound inner) ran
    rw [relationFound.mp found] at tookRight
    rw [took.classes] at second
    exact ⟨_, took.trans tookRight, .compare relation first second⟩

theorem negationSound (inner : Sound nested (Expression · .disjunction)) (rounds : Nat) :
    Sound (negation nested rounds) (Expression · .negation) := by
  induction rounds with
  | zero =>
    intro state tree after ran
    simp [negation, Machine.exhaust] at ran
  | succ rounds ih =>
    intro state tree after ran
    rw [negation, currentBind] at ran
    split at ran
    · rename_i here
      obtain ⟨tokens, operand, took, derived, rfl⟩ := markedSound ih ran
      rw [here] at took
      exact ⟨_, took, .negate derived⟩
    · obtain ⟨tokens, took, derived⟩ := comparisonSound inner ran
      exact ⟨tokens, took, .ofComparison derived⟩

theorem conjunctionSound (inner : Sound nested (Expression · .disjunction)) :
    Sound (conjunction nested) (Expression · .conjunction) := by
  refine chainSound (boundedSound (negationSound inner)) ⟨.ofNegation, ?_⟩
  intro classes token combine left right a b found first second
  obtain ⟨rfl, rfl⟩ := andOperatorFound.mp found
  exact .both first second

theorem disjunctionSound (inner : Sound nested (Expression · .disjunction)) :
    Sound (disjunction nested) (Expression · .disjunction) := by
  refine chainSound (conjunctionSound inner) ⟨.ofConjunction, ?_⟩
  intro classes token combine left right a b found first second
  obtain ⟨rfl, rfl⟩ := orOperatorFound.mp found
  exact .either first second

theorem expressionWithinSound (depth : Nat) :
    Sound (expressionWithin depth) (Expression · .disjunction) := by
  induction depth with
  | zero =>
    intro state tree after ran
    simp [expressionWithin, Machine.exhaust] at ran
  | succ depth ih =>
    intro state tree after ran
    exact disjunctionSound ih ran

theorem expressionSound : Sound expression (Expression · .disjunction) :=
  boundedSound expressionWithinSound

end Expressions

section Statements

/- No suite is empty. The parsers would take an empty one, but the tokens of a source never hold it:
the line that opens an indentation ends before the indentation can close. -/
def Tidy (tokens : List Token) : Prop :=
  tokens.IsChain fun first second => first = .indent → second ≠ .dedent

theorem Tidy.part {tokens part : List Token} (tidy : Tidy tokens) (inside : part <:+: tokens) :
    Tidy part :=
  tidy.infix inside

def SoundWith (parser : Parser α)
    (language : ClassTable → List Token → α → ClassTable → Prop) : Prop :=
  ∀ ⦃state value after⦄, parser state = .done value after →
    ∃ tokens, state.tokens = tokens ++ after.tokens ∧
      (Tidy tokens → language state.classes tokens value after.classes)

variable {nested : Parser Stmt}

theorem assignmentOrCallSound : Sound assignmentOrCall Simple := by
  intro state tree after ran
  rw [assignmentOrCall, lineBind] at ran
  obtain ⟨⟨path, last⟩, named, walked, ran⟩ := Machine.bindDone.mp ran
  obtain ⟨names, took, rfl⟩ := dottedSound walked
  simp only [currentBind] at ran
  split at ran
  · rename_i assigned
    obtain ⟨_, moved, stepped, ran⟩ := Machine.bindDone.mp ran
    obtain ⟨value, between, parsed, ran⟩ := Machine.bindDone.mp ran
    obtain ⟨tokens, tookValue, derived⟩ := expressionSound parsed
    have mark := advanceTook stepped
    rw [assigned] at mark
    rw [mark.classes, took.classes] at derived
    cases path with
    | nil =>
      obtain ⟨rfl, rfl⟩ := pureDone.mp ran
      exact ⟨_, (took.trans mark).trans tookValue, .assign derived⟩
    | cons head rest =>
      obtain ⟨rfl, rfl⟩ := pureDone.mp ran
      refine ⟨_, (took.trans mark).trans tookValue, ?_⟩
      have set : Simple state.classes (separated '.' (head :: rest ++ [last]) ++ .char '=' :: tokens)
          (.setField (head :: rest) last value) := .setField (List.cons_ne_nil head rest) derived
      simpa using set
  · split at ran
    · obtain ⟨tokens, tookRest, called⟩ := callRestSound expressionSound path last _ ran
      rw [took.classes] at called
      exact ⟨_, took.trans tookRest, .call called⟩
    · simp at ran

theorem simpleStatementSound : Sound simpleStatement Simple := by
  intro state tree after ran
  rw [simpleStatement, currentBind] at ran
  generalize here : state.current.token = token at ran
  split at ran
  · obtain ⟨tokens, value, took, derived, rfl⟩ := markedSound expressionSound ran
    rw [here] at took
    exact ⟨_, took, .result derived⟩
  · obtain ⟨tokens, args, took, derived, rfl⟩ := markedSound (listUntilSound expressionSound) ran
    rw [here] at took
    exact ⟨_, took, .print derived⟩
  · exact assignmentOrCallSound ran

theorem statementsUntilSound (inner : SoundWith nested (Derives .statement)) (stop : Token)
    (rounds : Nat) : SoundWith (statementsUntil stop nested rounds) (Derives .statements) := by
  induction rounds with
  | zero =>
    intro state trees after ran
    simp [statementsUntil, Machine.exhaust] at ran
  | succ rounds ih =>
    intro state trees after ran
    rw [statementsUntil, currentBind] at ran
    split at ran
    · obtain ⟨rfl, rfl⟩ := pureDone.mp ran
      exact ⟨[], rfl, fun _ => .finished⟩
    · obtain ⟨head, between, parsed, ran⟩ := Machine.bindDone.mp ran
      obtain ⟨rest, last, repeated, finished⟩ := Machine.bindDone.mp ran
      obtain ⟨rfl, rfl⟩ := pureDone.mp finished
      obtain ⟨tokens, front, derived⟩ := inner parsed
      obtain ⟨others, back, derivedRest⟩ := ih repeated
      refine ⟨tokens ++ others, by rw [front, back, List.append_assoc], fun tidy => ?_⟩
      exact .next (derived (tidy.part (List.prefix_append _ _).isInfix))
        (derivedRest (tidy.part (List.suffix_append _ _).isInfix))

theorem statementsUntilStops {stop : Token} {rounds : Nat} {trees : List Stmt}
    {state after : ParserState}
    (ran : statementsUntil stop nested rounds state = .done trees after) :
    after.current.token = stop := by
  induction rounds generalizing trees state with
  | zero => simp [statementsUntil, Machine.exhaust] at ran
  | succ rounds ih =>
    rw [statementsUntil, currentBind] at ran
    split at ran
    · rename_i stopped
      obtain ⟨-, rfl⟩ := pureDone.mp ran
      exact stopped
    · obtain ⟨head, between, parsed, ran⟩ := Machine.bindDone.mp ran
      obtain ⟨rest, last, repeated, finished⟩ := Machine.bindDone.mp ran
      obtain ⟨-, rfl⟩ := pureDone.mp finished
      exact ih repeated

theorem noStatementsNoTokens {before after : ClassTable} {tokens : List Token}
    (derived : Derives .statements before tokens [] after) : tokens = [] := by
  cases derived
  rfl

theorem suiteSound (inner : SoundWith nested (Derives .statement)) :
    SoundWith (suite nested) (Derives .suite) := by
  intro state tree after ran
  obtain ⟨_, broken, ending, ran⟩ := Machine.bindDone.mp ran
  obtain ⟨_, opened, opening, ran⟩ := Machine.bindDone.mp ran
  obtain ⟨body, between, parsed, ran⟩ := Machine.bindDone.mp ran
  obtain ⟨_, closed, closing, finished⟩ := Machine.bindDone.mp ran
  obtain ⟨rfl, rfl⟩ := pureDone.mp finished
  obtain ⟨tokens, inside, derived⟩ := statementsUntilSound inner _ _ parsed
  have front := (expectTook ending).trans (expectTook opening)
  have back := expectTook closing
  refine ⟨.newline :: .indent :: tokens ++ [.dedent], ?_, fun tidy => ?_⟩
  · rw [front.tokens, inside, back.tokens]
    simp
  · rw [front.classes] at derived
    rw [back.classes]
    have statements := derived (tidy.part ⟨[.newline, .indent], [.dedent], by simp⟩)
    refine .suite statements ?_
    -- without a statement the indentation would close where it opens
    rintro rfl
    obtain rfl := noStatementsNoTokens statements
    exact List.isChain_pair.mp (tidy.part ⟨[.newline], [], rfl⟩) rfl rfl

theorem conditionalSound (inner : SoundWith nested (Derives .statement)) :
    SoundWith (conditional nested) (Derives .statement) := by
  intro state tree after ran
  obtain ⟨_, started, starting, ran⟩ := Machine.bindDone.mp ran
  obtain ⟨condition, tested, test, ran⟩ := Machine.bindDone.mp ran
  obtain ⟨_, marked, marking, ran⟩ := Machine.bindDone.mp ran
  obtain ⟨yes, between, parsed, ran⟩ := Machine.bindDone.mp ran
  have first := expectTook starting
  obtain ⟨tokens, took, derived⟩ := expressionSound test
  rw [first.classes] at derived
  have front := (first.trans took).trans (expectTook marking)
  obtain ⟨body, inside, positive⟩ := suiteSound inner parsed
  rw [front.classes] at positive
  rw [currentBind] at ran
  split at ran
  · rename_i other
    obtain ⟨_, moved, stepped, ran⟩ := Machine.bindDone.mp ran
    obtain ⟨_, split, splitting, ran⟩ := Machine.bindDone.mp ran
    obtain ⟨no, last, parsedElse, finished⟩ := Machine.bindDone.mp ran
    obtain ⟨rfl, rfl⟩ := pureDone.mp finished
    have second := (advanceTook stepped).trans (expectTook splitting)
    rw [other] at second
    obtain ⟨rest, insideElse, negative⟩ := suiteSound inner parsedElse
    rw [second.classes] at negative
    refine ⟨.keyword .ifK :: tokens ++ .char ':' :: body ++ .keyword .elseK :: .char ':' :: rest,
      ?_, fun tidy => ?_⟩
    · rw [front.tokens, inside, second.tokens, insideElse]
      simp
    · refine .branchElse derived (positive (tidy.part ?_)) (negative (tidy.part ?_))
      · exact ⟨.keyword .ifK :: tokens ++ [.char ':'], .keyword .elseK :: .char ':' :: rest, by simp⟩
      · exact (List.suffix_append (.keyword .ifK :: tokens ++ .char ':' :: body ++
          [.keyword .elseK, .char ':']) rest).isInfix.trans (by simp)
  · obtain ⟨rfl, rfl⟩ := pureDone.mp ran
    refine ⟨.keyword .ifK :: tokens ++ .char ':' :: body, ?_, fun tidy => ?_⟩
    · rw [front.tokens, inside]
      simp
    · refine .branch derived (positive (tidy.part ?_))
      exact ⟨.keyword .ifK :: tokens ++ [.char ':'], [], by simp⟩

theorem parametersSound : Sound parameters fun _ tokens params => tokens = separated ',' params := by
  intro state params after ran
  rw [parameters, currentBind] at ran
  generalize state.current.token = token at ran
  split at ran
  · have names : Sound identifier fun _ tokens name => tokens = [.identifier name] :=
      fun _ _ _ named => ⟨_, identifierTook named, rfl⟩
    have lists : Listed (fun _ tokens name => tokens = [.identifier name])
        (fun _ tokens names => names ≠ [] ∧ tokens = separated ',' names) := by
      constructor
      · rintro classes tokens name rfl
        exact ⟨by simp, rfl⟩
      · rintro classes tokens others name names rfl ⟨nonempty, rfl⟩
        refine ⟨by simp, ?_⟩
        cases names with
        | nil => exact absurd rfl nonempty
        | cons next rest => rfl
    obtain ⟨tokens, took, -, spelled⟩ := commaSeparatedSound names lists ran
    exact ⟨tokens, took, spelled⟩
  · obtain ⟨rfl, rfl⟩ := pureDone.mp ran
    exact ⟨[], tookNothing state, rfl⟩

theorem methodSound (inner : SoundWith nested (Derives .statement)) :
    SoundWith (method nested) fun before tokens method between =>
      ∀ others methods after, Derives .methods between others methods after →
        Derives .methods before (tokens ++ others) (method :: methods) after := by
  intro state found after ran
  obtain ⟨_, started, starting, ran⟩ := Machine.bindDone.mp ran
  obtain ⟨name, named, naming, ran⟩ := Machine.bindDone.mp ran
  obtain ⟨_, opened, opening, ran⟩ := Machine.bindDone.mp ran
  obtain ⟨params, listed, listing, ran⟩ := Machine.bindDone.mp ran
  obtain ⟨_, closed, closing, ran⟩ := Machine.bindDone.mp ran
  obtain ⟨_, marked, marking, ran⟩ := Machine.bindDone.mp ran
  obtain ⟨body, last, parsed, finished⟩ := Machine.bindDone.mp ran
  obtain ⟨rfl, rfl⟩ := pureDone.mp finished
  obtain ⟨names, took, rfl⟩ := parametersSound listing
  have head := ((expectTook starting).trans (identifierTook naming)).trans (expectTook opening)
  have front := ((head.trans took).trans (expectTook closing)).trans (expectTook marking)
  obtain ⟨tokens, inside, derived⟩ := suiteSound inner parsed
  rw [front.classes] at derived
  refine ⟨.keyword .defK :: .identifier name :: .char '(' :: separated ',' params ++
    .char ')' :: .char ':' :: tokens, ?_, fun tidy others methods after rest => ?_⟩
  · rw [front.tokens, inside]
    simp
  · refine .method (derived (tidy.part ?_)) rest
    exact ⟨.keyword .defK :: .identifier name :: .char '(' :: separated ',' params ++
      [.char ')', .char ':'], [], by simp⟩

theorem methodsSound (inner : SoundWith nested (Derives .statement)) (rounds : Nat) :
    SoundWith (methods nested rounds) (Derives .methods) := by
  induction rounds with
  | zero =>
    intro state found after ran
    simp [methods, Machine.exhaust] at ran
  | succ rounds ih =>
    intro state found after ran
    rw [methods, currentBind] at ran
    split at ran
    · obtain ⟨head, between, parsed, ran⟩ := Machine.bindDone.mp ran
      obtain ⟨rest, last, repeated, finished⟩ := Machine.bindDone.mp ran
      obtain ⟨rfl, rfl⟩ := pureDone.mp finished
      obtain ⟨tokens, front, derived⟩ := methodSound inner parsed
      obtain ⟨others, back, derivedRest⟩ := ih repeated
      refine ⟨tokens ++ others, by rw [front, back, List.append_assoc], fun tidy => ?_⟩
      exact derived (tidy.part (List.prefix_append _ _).isInfix) _ _ _
        (derivedRest (tidy.part (List.suffix_append _ _).isInfix))
    · obtain ⟨rfl, rfl⟩ := pureDone.mp ran
      exact ⟨[], rfl, fun _ => .noMethods⟩

theorem noMethodsNoTokens {before after : ClassTable} {tokens : List Token}
    (derived : Derives .methods before tokens [] after) : tokens = [] := by
  cases derived
  rfl

theorem baseClassSound (name : String) (line : Nat) : Sound (baseClass name line) Base := by
  intro state parent after ran
  rw [baseClass, currentBind] at ran
  split at ran
  · rename_i here
    obtain ⟨_, opened, stepped, ran⟩ := Machine.bindDone.mp ran
    obtain ⟨base, named, naming, ran⟩ := Machine.bindDone.mp ran
    obtain ⟨_, closed, closing, ran⟩ := Machine.bindDone.mp ran
    have took := ((advanceTook stepped).trans (identifierTook naming)).trans (expectTook closing)
    rw [here] at took
    rw [classesBind, took.classes] at ran
    cases found : state.classes.find? base with
    | none => simp [found] at ran
    | some parent =>
      simp only [found, pureDone] at ran
      obtain ⟨rfl, rfl⟩ := ran
      exact ⟨_, took, .named found⟩
  · obtain ⟨rfl, rfl⟩ := pureDone.mp ran
    exact ⟨[], tookNothing state, .absent⟩

theorem declareSound {name : String} {parent : Option ClassId} {methods : List Method} {line : Nat}
    {tree : Stmt} {state after : ParserState}
    (ran : declare name parent methods line state = .done tree after) :
    state.classes.find? name = none ∧ tree = .define state.classes.classes.size ∧
      after.tokens = state.tokens ∧ after.classes = state.classes.declare name parent methods := by
  unfold declare at ran
  cases found : state.classes.find? name with
  | some cls => simp [found] at ran
  | none =>
    simp only [found] at ran
    cases ran
    exact ⟨rfl, rfl, rfl, rfl⟩

theorem classDefinitionSound (inner : SoundWith nested (Derives .statement)) :
    SoundWith (classDefinition nested) (Derives .statement) := by
  intro state tree after ran
  rw [classDefinition, lineBind] at ran
  obtain ⟨_, started, starting, ran⟩ := Machine.bindDone.mp ran
  obtain ⟨name, named, naming, ran⟩ := Machine.bindDone.mp ran
  obtain ⟨parent, based, basing, ran⟩ := Machine.bindDone.mp ran
  obtain ⟨_, marked, marking, ran⟩ := Machine.bindDone.mp ran
  obtain ⟨_, broken, ending, ran⟩ := Machine.bindDone.mp ran
  obtain ⟨_, opened, opening, ran⟩ := Machine.bindDone.mp ran
  have head := (expectTook starting).trans (identifierTook naming)
  obtain ⟨base, tookBase, inherits⟩ := baseClassSound _ _ basing
  rw [head.classes] at inherits
  have front := (((head.trans tookBase).trans (expectTook marking)).trans
    (expectTook ending)).trans (expectTook opening)
  rw [currentBind] at ran
  split at ran
  · rename_i begun
    obtain ⟨methods, between, parsed, ran⟩ := Machine.bindDone.mp ran
    obtain ⟨_, closed, closing, ran⟩ := Machine.bindDone.mp ran
    obtain ⟨body, inside, derived⟩ := methodsSound inner _ parsed
    have back := expectTook closing
    obtain ⟨free, rfl, same, declared⟩ := declareSound ran
    rw [front.classes] at derived
    rw [back.classes] at free declared
    refine ⟨.keyword .classK :: .identifier name :: base ++
      .char ':' :: .newline :: .indent :: body ++ [.dedent], ?_, fun tidy => ?_⟩
    · rw [front.tokens, inside, back.tokens, same]
      simp
    · rw [declared, back.classes]
      have defined := derived (tidy.part ⟨.keyword .classK :: .identifier name :: base ++
        [.char ':', .newline, .indent], [.dedent], by simp⟩)
      refine .define inherits defined ?_ free
      -- without a method the body would be over at once, and it was entered in front of a `def`
      rintro rfl
      obtain rfl := noMethodsNoTokens defined
      have stopped : opened.current.token = .dedent := by
        have start := inside.trans (congrArg _ back.tokens)
        exact (List.cons.inj start).1
      exact absurd (stopped.symm.trans begun) (by decide)
  · simp at ran

theorem statementOverSound (inner : SoundWith nested (Derives .statement)) :
    SoundWith (statementOver nested) (Derives .statement) := by
  intro state tree after ran
  rw [statementOver, currentBind] at ran
  generalize state.current.token = token at ran
  split at ran
  · exact classDefinitionSound inner ran
  · exact conditionalSound inner ran
  · obtain ⟨found, between, parsed, ran⟩ := Machine.bindDone.mp ran
    obtain ⟨_, ended, ending, finished⟩ := Machine.bindDone.mp ran
    obtain ⟨rfl, rfl⟩ := pureDone.mp finished
    obtain ⟨tokens, took, derived⟩ := simpleStatementSound parsed
    have whole := took.trans (expectTook ending)
    refine ⟨_, whole.tokens, fun _ => ?_⟩
    rw [whole.classes]
    exact .simple derived

theorem statementWithinSound (depth : Nat) : SoundWith (statementWithin depth) (Derives .statement) := by
  induction depth with
  | zero =>
    intro state tree after ran
    simp [statementWithin, Machine.exhaust] at ran
  | succ depth ih =>
    intro state tree after ran
    exact statementOverSound ih ran

theorem statementSound : SoundWith statement (Derives .statement) :=
  fun _ _ _ ran => statementWithinSound _ ran

/- The first token is dropped: a parser starts in front of a token that is not part of the source. -/
theorem programSound {state after : ParserState} {found : Program}
    (ran : program state = .done found after) :
    ∃ tokens rest, state.tokens = state.current.token :: tokens ++ .eof :: rest ∧
      (Tidy tokens → Derives .statements state.classes tokens found.statements found.classes) := by
  obtain ⟨_, started, starting, ran⟩ := Machine.bindDone.mp ran
  obtain ⟨statements, ended, parsed, ran⟩ := Machine.bindDone.mp ran
  cases ran
  have first := advanceTook starting
  obtain ⟨tokens, taken, derived⟩ := statementsUntilSound statementSound _ _ parsed
  have stopped := statementsUntilStops parsed
  rw [first.classes] at derived
  refine ⟨tokens, ended.upcoming.map (·.token), ?_, derived⟩
  rw [first.tokens, taken, ParserState.tokens, stopped]
  simp

end Statements

end Offside.Parser
