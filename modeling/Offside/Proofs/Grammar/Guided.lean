import Offside.Proofs.Grammar.Guides

/-! Each parser is guided by its category: along the rule of the category it goes where the next token
can go, and stops where no token of the rule is left. The parser of what is nested is a parameter, as
it is for the parsers. -/
namespace Offside

namespace Parser
open ParserState Grammar
open Grammar.Pattern hiding token literal
open scoped Computability

variable {α : Type} {rest : Language Token} {state : ParserState}

def Guided (parser : Parser α) (phrase : Language Token) (ends : Token → Prop) : Prop :=
  ∀ ⦃rest state⦄, Follows rest ends → Guides (phrase * rest) parser rest state

abbrev GuidedAt (parser : Parser α) (phrase : Language Token) (bound : Nat) : Prop :=
  Guided parser phrase fun next => bound < looseness next

theorem Guided.bounded {parser : Nat → Parser α} {phrase : Language Token} {ends : Token → Prop}
    (each : ∀ rounds, Guided (parser rounds) phrase ends) : Guided (bounded parser) phrase ends :=
  fun _ _ follows => .bounded fun rounds => each rounds follows

theorem exhaustGuided (phrase : Language Token) (ends : Token → Prop) :
    Guided (Machine.exhaust : Parser α) phrase ends :=
  fun _ _ _ => .exhaust

theorem identifierGuided (ends : Token → Prop) : Guided identifier name.language ends :=
  fun _ _ follows => .identifier follows.viable

section Repetition

theorem dottedRestGuides (follows : Follows rest (· ≠ .char '.')) (rounds : Nat) (path : Path)
    (last : String) :
    Guides (((symbol '.').language * name.language)∗ * rest) (dottedRest rounds path last) rest
      state := by
  induction rounds generalizing path last state with
  | zero => exact .exhaust
  | succ rounds ih =>
    rw [dottedRest, repeatedMul, mul_assoc]
    refine .look ?_
    split
    · rename_i point
      refine .latter (follows.avoids (by simp [point])) ?_
      refine .step point fun middle => ?_
      exact (Guides.identifier (by simp [follows.viable])).bind fun next final => ih _ next
    · rename_i other
      exact .former (avoidsToken other) (.pure _)

theorem dottedGuided : Guided dotted Category.dotted.language (· ≠ .char '.') := by
  intro rest state follows
  rw [Category.unroll]
  simp only [Category.rule, languageSequence, languageMany, mul_assoc]
  refine (Guides.identifier (by simp [follows.viable])).bind fun first middle => ?_
  exact .bounded fun rounds => dottedRestGuides follows rounds [] first

variable {operator : Token → Option (Stmt → Stmt → Stmt)} {operand : Parser Stmt}
  {item : Language Token} {accepts : Token → Prop} {bound loose : Nat}

theorem chainRestGuides (operands : GuidedAt operand item bound)
    (found : ∀ token, operator token = none ↔ ¬ accepts token)
    (binds : ∀ token, accepts token → bound < looseness token ∧ looseness token ≤ loose)
    (within : bound ≤ loose) (follows : Follows rest fun next => loose < looseness next)
    (rounds : Nat) (left : Stmt) :
    Guides (((Pattern.token accepts).language * item)∗ * rest)
      (chainRest operator operand rounds left) rest state := by
  induction rounds generalizing left state with
  | zero => exact .exhaust
  | succ rounds ih =>
    rw [chainRest, repeatedMul, mul_assoc]
    refine .look ?_
    cases chosen : operator state.current.token with
    | none => exact .former (avoidsToken ((found _).mp chosen)) (.pure left)
    | some combine =>
      have here : accepts state.current.token := by
        by_contra other
        rw [(found _).mpr other] at chosen
        contradiction
      refine .latter (follows.avoids (Nat.not_lt.mpr (binds _ here).2)) ?_
      refine .step here fun middle => ?_
      have onward : Follows (((Pattern.token accepts).language * item)∗ * rest)
          fun next => bound < looseness next :=
        (follows.weaken fun _ => Nat.lt_of_le_of_lt within).repeated
          (.mul (.token fun token accepted => (binds token accepted).1))
      exact (operands onward).bind fun right final => ih _

theorem chainGuided (operands : GuidedAt operand item bound)
    (found : ∀ token, operator token = none ↔ ¬ accepts token)
    (binds : ∀ token, accepts token → bound < looseness token ∧ looseness token ≤ loose)
    (within : bound ≤ loose) :
    GuidedAt (chain operator operand) (item * ((Pattern.token accepts).language * item)∗) loose := by
  intro rest state follows
  rw [mul_assoc]
  have onward : Follows (((Pattern.token accepts).language * item)∗ * rest)
      fun next => bound < looseness next :=
    (follows.weaken fun _ => Nat.lt_of_le_of_lt within).repeated
      (.mul (.token fun token accepted => (binds token accepted).1))
  refine (operands onward).bind fun left middle => ?_
  exact .bounded fun rounds => chainRestGuides operands found binds within follows rounds left

theorem commaRestGuides {parser : Parser α} (items : GuidedAt parser item 7)
    (follows : Follows rest fun next => 8 < looseness next) (rounds : Nat) :
    Guides (((symbol ',').language * item)∗ * rest) (commaRest parser rounds) rest state := by
  induction rounds generalizing state with
  | zero => exact .exhaust
  | succ rounds ih =>
    rw [commaRest, repeatedMul, mul_assoc]
    refine .look ?_
    split
    · rename_i comma
      refine .latter (follows.avoids (by simp [comma, looseness])) ?_
      refine .step comma fun middle => ?_
      have onward : Follows (((symbol ',').language * item)∗ * rest) fun next => 7 < looseness next :=
        (follows.weaken fun _ => Nat.lt_of_succ_lt).repeated (.mul (.exactly (by decide)))
      refine (items onward).bind fun head between => ?_
      exact ih.bind fun tail final => .pure _
    · rename_i other
      exact .former (avoidsToken other) (.pure _)

theorem commaSeparatedGuided {parser : Parser α} (items : GuidedAt parser item 7) :
    GuidedAt (commaSeparated parser) (item * ((symbol ',').language * item)∗) 8 := by
  intro rest state follows
  rw [mul_assoc]
  have onward : Follows (((symbol ',').language * item)∗ * rest) fun next => 7 < looseness next :=
    (follows.weaken fun _ => Nat.lt_of_succ_lt).repeated (.mul (.exactly (by decide)))
  refine (items onward).bind fun head between => ?_
  refine .bind (.bounded fun rounds => commaRestGuides items follows rounds) fun tail final => ?_
  exact .pure _

end Repetition

section Expressions

variable {nested : Parser Stmt}

theorem listUntilGuides {stop : Token} (inner : GuidedAt nested Category.disjunction.language 7)
    (ended : 8 < looseness stop) (other : Category.list.opens stop = false)
    (follows : Follows rest (· = stop)) :
    Guides (rest + Category.list.language * rest) (listUntil stop nested) rest state := by
  refine .look ?_
  split
  · rename_i here
    exact .former (avoidsPhrase (by rw [here, other])) (.pure _)
  · rename_i absent
    refine .latter (follows.avoids absent) ?_
    rw [Category.unroll]
    simp only [Category.rule, languageSequence, languageMany, languageCategory]
    exact commaSeparatedGuided inner (follows.weaken fun _ same => same ▸ ended)

theorem argumentsGuides (inner : GuidedAt nested Category.disjunction.language 7)
    (viable : Viable rest) :
    Guides (Category.call.language * rest) (arguments nested) rest state := by
  rw [Category.unroll]
  simp only [Category.rule, languageSequence, languageChoice, languageEmpty, languageCategory,
    add_mul, one_mul, mul_assoc]
  refine (Guides.expect (by simp [viable])).bind fun _ opened => ?_
  refine .bind (listUntilGuides inner (by decide) rfl (.exactly rfl viable)) fun args listed => ?_
  exact (Guides.expect viable).bind fun _ closed => .pure _

theorem bareCallGuides (call : String) (args : List Stmt) (line : Nat) :
    Guides rest (bareCall call args line) rest state := by
  refine .known ?_
  split
  · exact .pure _
  · split
    · split
      · exact .pure _
      · exact .refuse (by simp)
    · exact .refuse (by simp)

theorem callRestGuides (inner : GuidedAt nested Category.disjunction.language 7)
    (path : Path) (called : String) (line : Nat) (viable : Viable rest) :
    Guides (Category.call.language * rest) (callRest nested path called line) rest state := by
  refine (argumentsGuides inner viable).bind fun args middle => ?_
  cases path with
  | nil => exact bareCallGuides called args line
  | cons first others => exact .pure _

theorem pathOrCallGuides (inner : GuidedAt nested Category.disjunction.language 7)
    (follows : Follows rest fun next => 1 < looseness next) :
    Guides (Category.dotted.language * (rest + Category.call.language * rest)) (pathOrCall nested)
      rest state := by
  refine .line fun line => ?_
  have onward : Follows (rest + Category.call.language * rest) (· ≠ .char '.') := by
    refine .optional (follows.weaken ?_) (.mul (Category.call.starts.weaken ?_))
    · rintro token looser rfl
      exact absurd looser (by decide)
    · rintro token opened rfl
      exact absurd opened (by decide)
  refine (dottedGuided onward).bind fun (path, last) named => .look ?_
  split
  · rename_i opened
    refine .latter (follows.avoids ?_) (callRestGuides inner path last line follows.viable)
    rw [opened]
    decide
  · rename_i other
    exact .former (avoidsPhrase (by simpa [Category.opens] using other)) (.pure _)

theorem parenthesizedGuides (inner : GuidedAt nested Category.disjunction.language 7)
    (here : state.current.token = .char '(') (viable : Viable rest) :
    Guides ((symbol '(').language * (Category.disjunction.language * ((symbol ')').language * rest)))
      (parenthesized nested) rest state := by
  refine .step here fun opened => ?_
  refine (inner (.exactly (by decide) viable)).bind fun tree between => ?_
  exact (Guides.expect viable).bind fun _ closed => .pure tree

theorem constantGuides {left right others : Language Token} {tree : Stmt}
    (constant : IsLiteral state.current.token) :
    Guides ((symbol '(').language * left + (symbol '-').language * right +
      Pattern.literal.language * rest + Category.dotted.language * others) (literal tree) rest
      state := by
  refine .former (avoidsPhrase ?_) (.latter ?_ (.step constant fun _ => .pure tree))
  · by_contra named
    obtain ⟨name, same⟩ := Category.opensDotted (eq_true_of_ne_false named)
    simp [same, IsLiteral] at constant
  · refine avoidsAdd.mpr ⟨avoidsToken ?_, avoidsToken ?_⟩
    all_goals
      intro same
      simp [same, IsLiteral] at constant

/- Four ways to go on, told apart by the token: in each of them the other three are avoided. -/
theorem factorGuided (inner : GuidedAt nested Category.disjunction.language 7) (rounds : Nat) :
    GuidedAt (factor nested rounds) Category.factor.language 1 := by
  induction rounds with
  | zero => exact exhaustGuided _ _
  | succ rounds ih =>
    intro rest state follows
    have viable := follows.viable
    rw [Category.unroll]
    simp only [Category.rule, languageSequence, languageChoice, languageEmpty, languageCategory,
      add_mul, one_mul, mul_assoc]
    refine .look ?_
    generalize here : state.current.token = token
    split
    · refine .former ?_ (.former ?_ (.former ?_ (parenthesizedGuides inner here viable)))
      · exact avoidsPhrase (by rw [here]; rfl)
      · exact avoidsToken (by simp [here, IsLiteral])
      · exact avoidsToken (by simp [here])
    · refine .former ?_ (.former ?_ (.latter ?_ ?_))
      · exact avoidsPhrase (by rw [here]; rfl)
      · exact avoidsToken (by simp [here, IsLiteral])
      · exact avoidsToken (by simp [here])
      · refine .step here fun moved => ?_
        exact (ih follows).bind fun tree final => .pure _
    · exact constantGuides (by simp [here, IsLiteral])
    · exact constantGuides (by simp [here, IsLiteral])
    · exact constantGuides (by simp [here, IsLiteral])
    · exact constantGuides (by simp [here, IsLiteral])
    · exact constantGuides (by simp [here, IsLiteral])
    · refine .latter ?_ (pathOrCallGuides inner follows)
      simp only [avoidsAdd]
      refine ⟨⟨avoidsToken ?_, avoidsToken ?_⟩, avoidsToken ?_⟩ <;> simp [here, IsLiteral]
    · refine .unexpected (by simp [viable]) ?_
      simp only [avoidsAdd]
      refine ⟨⟨⟨avoidsToken ?_, avoidsToken ?_⟩, avoidsToken ?_⟩, avoidsPhrase ?_⟩
      all_goals
        rw [here]
        cases token <;> simp_all [Category.opens, IsLiteral]

theorem productGuided (inner : GuidedAt nested Category.disjunction.language 7) :
    GuidedAt (product nested) Category.product.language 2 := by
  rw [Category.unroll]
  simp only [Category.rule, languageSequence, languageMany, languageCategory]
  refine chainGuided (.bounded (factorGuided inner)) ?_ (by simp [looseness]) (by decide)
  intro token
  unfold productOperator
  split <;> simp_all

theorem sumGuided (inner : GuidedAt nested Category.disjunction.language 7) :
    GuidedAt (sum nested) Category.sum.language 3 := by
  rw [Category.unroll]
  simp only [Category.rule, languageSequence, languageMany, languageCategory]
  refine chainGuided (productGuided inner) ?_ (by simp [looseness]) (by decide)
  intro token
  unfold sumOperator
  split <;> simp_all

/- After one comparison a second one cannot come, and after none it can. -/
theorem comparisonGuided (inner : GuidedAt nested Category.disjunction.language 7) :
    GuidedAt (comparison nested) Category.comparison.language 4 := by
  intro rest state follows
  rw [Category.unroll]
  simp only [Category.rule, languageSequence, languageChoice, languageEmpty, languageCategory,
    add_mul, one_mul, mul_assoc]
  have tighter : Follows rest fun next => 3 < looseness next :=
    follows.weaken fun _ => Nat.lt_of_succ_lt
  refine (sumGuided inner (tighter.optional (.mul (.token ?_)))).bind fun left middle => .look ?_
  · simp [looseness]
  cases found : relation? middle.current.token with
  | some relation =>
    have here := relationFound.mp found
    refine .latter (follows.avoids ?_) (.step ?_ fun moved => ?_)
    · rw [here, relationLooseness]
      decide
    · rw [here]
      cases relation <;> simp [relationToken]
    · exact (sumGuided inner tighter).bind fun right final => .pure _
  | none =>
    refine .former (avoidsToken ?_) (.pure left)
    intro listed
    simp only [List.mem_cons, List.not_mem_nil, or_false] at listed
    rcases listed with here | here | here | here | here | here <;> simp [here, relation?] at found

theorem negationGuided (inner : GuidedAt nested Category.disjunction.language 7) (rounds : Nat) :
    GuidedAt (negation nested rounds) Category.negation.language 5 := by
  induction rounds with
  | zero => exact exhaustGuided _ _
  | succ rounds ih =>
    intro rest state follows
    rw [Category.unroll]
    simp only [Category.rule, languageSequence, languageChoice, languageCategory, add_mul, mul_assoc]
    refine .look ?_
    split
    · rename_i here
      refine .former (avoidsPhrase (by rw [here]; rfl)) (.step here fun moved => ?_)
      exact (ih follows).bind fun tree final => .pure _
    · rename_i positive
      refine .latter (avoidsToken positive) (comparisonGuided inner ?_)
      exact follows.weaken fun _ => Nat.lt_of_succ_lt

theorem conjunctionGuided (inner : GuidedAt nested Category.disjunction.language 7) :
    GuidedAt (conjunction nested) Category.conjunction.language 6 := by
  rw [Category.unroll]
  simp only [Category.rule, languageSequence, languageMany, languageCategory]
  refine chainGuided (.bounded (negationGuided inner)) ?_ (by simp [looseness]) (by decide)
  intro token
  unfold andOperator
  split <;> simp_all

theorem disjunctionGuided (inner : GuidedAt nested Category.disjunction.language 7) :
    GuidedAt (disjunction nested) Category.disjunction.language 7 := by
  rw [Category.unroll]
  simp only [Category.rule, languageSequence, languageMany, languageCategory]
  refine chainGuided (conjunctionGuided inner) ?_ (by simp [looseness]) (by decide)
  intro token
  unfold orOperator
  split <;> simp_all

theorem expressionGuided : GuidedAt expression Category.disjunction.language 7 := by
  refine .bounded fun depth => ?_
  induction depth with
  | zero => exact exhaustGuided _ _
  | succ depth ih => exact disjunctionGuided ih

end Expressions

section Statements

variable {nested : Parser Stmt}

theorem assignmentOrCallGuides (follows : Follows rest (· = .newline)) :
    Guides (Category.dotted.language * ((symbol '=').language * (Category.disjunction.language * rest) +
      Category.call.language * rest)) assignmentOrCall rest state := by
  have looser : Follows rest fun next => 7 < looseness next :=
    follows.weaken fun _ same => same ▸ by decide
  refine .line fun line => ?_
  have onward : Follows ((symbol '=').language * (Category.disjunction.language * rest) +
      Category.call.language * rest) (· ≠ .char '.') := by
    refine .optional (.exactly (by decide) (by simp [follows.viable]))
      (.mul (Category.call.starts.weaken ?_))
    rintro token opened rfl
    exact absurd opened (by decide)
  refine (dottedGuided onward).bind fun (path, last) named => .look ?_
  split
  · rename_i here
    refine .former (avoidsPhrase (by rw [here]; rfl)) (.step here fun moved => ?_)
    refine (expressionGuided looser).bind fun value final => ?_
    cases path <;> exact .pure _
  · rename_i other
    split
    · refine .latter (avoidsToken other) ?_
      exact callRestGuides expressionGuided path last line follows.viable
    · rename_i closed
      refine .unexpected (by simp [follows.viable]) (avoidsAdd.mpr ⟨avoidsToken other, ?_⟩)
      exact avoidsPhrase (by simpa [Category.opens] using closed)

theorem simpleStatementGuided :
    Guided simpleStatement Category.simple.language (· = .newline) := by
  intro rest state follows
  rw [Category.unroll]
  simp only [Category.rule, languageSequence, languageChoice, languageEmpty, languageCategory,
    add_mul, one_mul, mul_assoc]
  refine .look ?_
  generalize here : state.current.token = token
  split
  · refine .former (avoidsPhrase (by rw [here]; rfl)) (.former (avoidsToken (by simp [here])) ?_)
    refine .step here fun moved => ?_
    refine .bind (expressionGuided (follows.weaken fun _ same => same ▸ by decide)) fun value final => ?_
    exact .pure _
  · refine .former (avoidsPhrase (by rw [here]; rfl)) (.latter (avoidsToken (by simp [here])) ?_)
    refine .step here fun moved => ?_
    refine .bind (listUntilGuides expressionGuided (by decide) rfl follows) fun args final => ?_
    exact .pure _
  · rename_i noResult noPrint
    refine .latter (avoidsAdd.mpr ⟨avoidsToken ?_, avoidsToken ?_⟩) ?_
    · rwa [here]
    · rwa [here]
    · exact assignmentOrCallGuides follows

theorem afterStatement {stop : Token} (single : stop ≠ .keyword .elseK)
    (follows : Follows rest (· = stop)) :
    Follows (Category.statement.language∗ * rest) (· ≠ .keyword .elseK) := by
  refine .repeated (follows.weaken fun _ same => same ▸ single) (Category.statement.starts.weaken ?_)
  rintro token opened rfl
  exact absurd opened (by decide)

theorem statementsUntilGuides {stop : Token}
    (inner : Guided nested Category.statement.language (· ≠ .keyword .elseK))
    (closed : begins stop = false) (single : stop ≠ .keyword .elseK)
    (follows : Follows rest (· = stop)) (rounds : Nat) :
    Guides (Category.statement.language∗ * rest) (statementsUntil stop nested rounds) rest state := by
  induction rounds generalizing state with
  | zero => exact .exhaust
  | succ rounds ih =>
    rw [statementsUntil, repeatedMul]
    refine .look ?_
    split
    · rename_i here
      exact .former (avoidsPhrase (by rw [here]; exact closed)) (.pure _)
    · rename_i other
      refine .latter (follows.avoids other) ?_
      refine (inner (afterStatement single follows)).bind fun head middle => ?_
      exact ih.bind fun tail final => .pure _

theorem someStatementsGuides {stop : Token}
    (inner : Guided nested Category.statement.language (· ≠ .keyword .elseK))
    (closed : begins stop = false) (single : stop ≠ .keyword .elseK)
    (follows : Follows rest (· = stop)) (other : state.current.token ≠ stop) (rounds : Nat) :
    Guides (Category.statement.language * (Category.statement.language∗ * rest))
      (statementsUntil stop nested rounds) rest state := by
  cases rounds with
  | zero => exact .exhaust
  | succ rounds =>
    rw [statementsUntil]
    refine .look ?_
    rw [if_neg other]
    refine (inner (afterStatement single follows)).bind fun head middle => ?_
    exact (statementsUntilGuides inner closed single follows rounds).bind fun tail final => .pure _

theorem indentGuides {after : Language Token} {next : Unit → Parser α} (viable : Viable rest)
    (onward : ∀ middle, middle.current.token ≠ .dedent → Guides rest (next ()) after middle) :
    Guides ((exactly .indent).language * rest) (expect .indent >>= next) after state := by
  refine (Guides.expect viable).bindRan fun tidy _ middle ran => onward middle ?_
  rw [(expectTook ran).tokens] at tidy
  exact (List.isChain_cons_cons.mp tidy).1 rfl

theorem suiteGuides (inner : Guided nested Category.statement.language (· ≠ .keyword .elseK))
    (viable : Viable rest) : Guides (Category.suite.language * rest) (suite nested) rest state := by
  rw [Category.unroll]
  simp only [Category.rule, languageSequence, languageMany, languageCategory, mul_assoc]
  refine (Guides.expect (by simp [viable])).bind fun _ broken => ?_
  refine indentGuides (by simp [viable]) fun opened deeper => ?_
  have closing : Follows ((exactly .dedent).language * rest) (· = .dedent) := .exactly rfl viable
  refine .bind (.bounded fun rounds =>
    someStatementsGuides inner rfl (by decide) closing deeper rounds) fun body between => ?_
  exact (Guides.expect viable).bind fun _ closed => .pure _

theorem conditionalGuided (inner : Guided nested Category.statement.language (· ≠ .keyword .elseK)) :
    Guided (conditional nested) Category.conditional.language (· ≠ .keyword .elseK) := by
  intro rest state follows
  have viable := follows.viable
  rw [Category.unroll]
  simp only [Category.rule, languageSequence, languageChoice, languageEmpty, languageCategory,
    add_mul, one_mul, mul_assoc]
  refine (Guides.expect (by simp [viable])).bind fun _ started => ?_
  refine (expressionGuided (.exactly (by decide) (by simp [viable]))).bind fun condition tested => ?_
  refine (Guides.expect (by simp [viable])).bind fun _ marked => ?_
  refine (suiteGuides inner (by simp [viable])).bind fun yes between => .look ?_
  split
  · rename_i here
    refine .latter (follows.avoids (by simp [here])) (.step here fun moved => ?_)
    refine (Guides.expect (by simp [viable])).bind fun _ split => ?_
    exact (suiteGuides inner viable).bind fun no last => .pure _
  · rename_i other
    exact .former (avoidsToken other) (.pure _)

theorem parametersGuides (follows : Follows rest (· = .char ')')) :
    Guides (rest + name.language * (((symbol ',').language * name.language)∗ * rest)) parameters rest
      state := by
  refine .look ?_
  generalize here : state.current.token = token
  split
  · refine .latter (follows.avoids (by simp [here])) ?_
    rw [← mul_assoc]
    exact commaSeparatedGuided (identifierGuided _) (follows.weaken fun _ same => same ▸ by decide)
  · rename_i other
    exact .former (avoidsToken (by simpa [here] using other)) (.pure _)

theorem methodGuides (inner : Guided nested Category.statement.language (· ≠ .keyword .elseK))
    (viable : Viable rest) : Guides (Category.method.language * rest) (method nested) rest state := by
  rw [Category.unroll]
  simp only [Category.rule, languageSequence, languageChoice, languageEmpty, languageMany,
    languageCategory, add_mul, one_mul, mul_assoc]
  refine (Guides.expect (by simp [viable])).bind fun _ started => ?_
  refine (Guides.identifier (by simp [viable])).bind fun called named => ?_
  refine (Guides.expect (by simp [viable])).bind fun _ opened => ?_
  refine (parametersGuides (.exactly rfl (by simp [viable]))).bind fun params listed => ?_
  refine (Guides.expect (by simp [viable])).bind fun _ closed => ?_
  refine (Guides.expect (by simp [viable])).bind fun _ marked => ?_
  exact (suiteGuides inner viable).bind fun body last => .pure _

theorem methodsGuides (inner : Guided nested Category.statement.language (· ≠ .keyword .elseK))
    (follows : Follows rest (· = .dedent)) (rounds : Nat) :
    Guides (Category.method.language∗ * rest) (methods nested rounds) rest state := by
  induction rounds generalizing state with
  | zero => exact .exhaust
  | succ rounds ih =>
    rw [methods, repeatedMul]
    refine .look ?_
    split
    · rename_i here
      refine .latter (follows.avoids (by simp [here])) ?_
      refine (methodGuides inner (by simp [follows.viable])).bind fun head middle => ?_
      exact ih.bind fun tail final => .pure _
    · rename_i other
      exact .former (avoidsPhrase (by simpa [Category.opens] using other)) (.pure _)

theorem someMethodsGuides (inner : Guided nested Category.statement.language (· ≠ .keyword .elseK))
    (follows : Follows rest (· = .dedent)) (here : state.current.token = .keyword .defK)
    (rounds : Nat) :
    Guides (Category.method.language * (Category.method.language∗ * rest)) (methods nested rounds)
      rest state := by
  cases rounds with
  | zero => exact .exhaust
  | succ rounds =>
    rw [methods]
    refine .look ?_
    rw [if_pos here]
    refine (methodGuides inner (by simp [follows.viable])).bind fun head middle => ?_
    exact (methodsGuides inner follows rounds).bind fun tail final => .pure _

theorem baseClassGuides (defined : String) (line : Nat) (follows : Follows rest (· = .char ':')) :
    Guides (rest + (symbol '(').language * (name.language * ((symbol ')').language * rest)))
      (baseClass defined line) rest state := by
  have viable := follows.viable
  refine .look ?_
  split
  · rename_i here
    refine .latter (follows.avoids (by simp [here])) (.step here fun opened => ?_)
    refine (Guides.identifier (by simp [viable])).bind fun base named => ?_
    refine (Guides.expect viable).bind fun _ closed => .known ?_
    split
    · exact .pure _
    · exact .refuse (by simp)
  · rename_i other
    exact .former (avoidsToken other) (.pure _)

theorem declareGuides (defined : String) (parent : Option ClassId) (methods : List Method)
    (line : Nat) : Guides rest (declare defined parent methods line) rest state := by
  intro _
  unfold declare
  split
  · trivial
  · exact ⟨[], rfl, fun _ member => member, fun _ member => member⟩

theorem classDefinitionGuides
    (inner : Guided nested Category.statement.language (· ≠ .keyword .elseK))
    (viable : Viable rest) :
    Guides (Category.classDefinition.language * rest) (classDefinition nested) rest state := by
  rw [Category.unroll]
  simp only [Category.rule, languageSequence, languageChoice, languageEmpty, languageMany,
    languageCategory, add_mul, one_mul, mul_assoc]
  refine .line fun line => ?_
  refine (Guides.expect (by simp [viable])).bind fun _ started => ?_
  refine (Guides.identifier (by simp [viable])).bind fun defined named => ?_
  refine (baseClassGuides defined line (.exactly rfl (by simp [viable]))).bind fun parent based => ?_
  refine (Guides.expect (by simp [viable])).bind fun _ marked => ?_
  refine (Guides.expect (by simp [viable])).bind fun _ broken => ?_
  refine (Guides.expect (by simp [viable])).bind fun _ opened => .look ?_
  split
  · rename_i here
    have closing : Follows ((exactly .dedent).language * rest) (· = .dedent) := .exactly rfl viable
    refine .bind (.bounded fun rounds => someMethodsGuides inner closing here rounds)
      fun methods between => ?_
    exact (Guides.expect viable).bind fun _ closed => declareGuides defined parent methods line
  · rename_i other
    refine .unexpected (by simp [viable]) (avoidsPhrase ?_)
    simpa [Category.opens] using other

theorem statementOverGuided
    (inner : Guided nested Category.statement.language (· ≠ .keyword .elseK)) :
    Guided (statementOver nested) Category.statement.language (· ≠ .keyword .elseK) := by
  intro rest state follows
  have viable := follows.viable
  rw [Category.unroll]
  simp only [Category.rule, languageSequence, languageChoice, languageCategory, add_mul, mul_assoc]
  refine .look ?_
  generalize here : state.current.token = token
  split
  · refine .former ?_ (.former ?_ (classDefinitionGuides inner viable))
    · exact avoidsPhrase (by rw [here]; rfl)
    · exact avoidsPhrase (by rw [here]; rfl)
  · refine .former ?_ (.latter ?_ (conditionalGuided inner follows))
    · exact avoidsPhrase (by rw [here]; rfl)
    · exact avoidsPhrase (by rw [here]; rfl)
  · rename_i noClass noBranch
    refine .latter (avoidsAdd.mpr ⟨avoidsPhrase ?_, avoidsPhrase ?_⟩) ?_
    · simpa [here, Category.opens] using noClass
    · simpa [here, Category.opens] using noBranch
    · refine (simpleStatementGuided (.exactly rfl viable)).bind fun tree between => ?_
      exact (Guides.expect viable).bind fun _ ended => .pure _

theorem statementGuided : Guided statement Category.statement.language (· ≠ .keyword .elseK) := by
  refine .bounded fun depth => ?_
  induction depth with
  | zero => exact exhaustGuided _ _
  | succ depth ih => exact statementOverGuided ih

end Statements

end Parser

end Offside
