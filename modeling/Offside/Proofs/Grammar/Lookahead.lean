import Offside.Proofs.Grammar.Completeness
import Offside.Proofs.Grammar.ContextFree

/-! What the next token tells about a phrase. Every category derives some phrase, none derives the
empty one, and the token that a phrase starts with is known from the level of its category. -/
namespace Offside.Grammar
open scoped Computability
open Pattern hiding token

variable {accepts first : Token → Prop} {left right : Language Token} {next : Token}

def Viable (language : Language Token) : Prop := ∃ tokens, tokens ∈ language

def Starts (language : Language Token) (first : Token → Prop) : Prop :=
  ∀ tokens ∈ language, ∃ token rest, tokens = token :: rest ∧ first token

def Avoids (language : Language Token) (token : Token) : Prop := ∀ rest, token :: rest ∉ language

structure Follows (language : Language Token) (ends : Token → Prop) : Prop where
  viable : Viable language
  starts : Starts language ends

theorem repeatedMul (inner rest : Language Token) :
    inner∗ * rest = rest + inner * (inner∗ * rest) := by
  calc inner∗ * rest = (1 + inner * inner∗) * rest := by rw [one_add_mul_kstar]
    _ = rest + inner * (inner∗ * rest) := by rw [add_mul, one_mul, mul_assoc]

theorem consToken {rest : List Token} :
    next :: rest ∈ (Pattern.token accepts).language * right ↔ accepts next ∧ rest ∈ right := by
  rw [Language.mem_mul]
  constructor
  · rintro ⟨_, matched, others, member, joined⟩
    cases matched with
    | token accepted =>
      cases joined
      exact ⟨accepted, member⟩
  · intro ⟨accepted, member⟩
    exact ⟨[next], Matches.token accepted, rest, member, rfl⟩

@[simp] theorem viableOne : Viable 1 := ⟨[], Language.nil_mem_one⟩

@[simp] theorem viableMul : Viable (left * right) ↔ Viable left ∧ Viable right := by
  constructor
  · intro ⟨_, split⟩
    obtain ⟨former, head, latter, rest, -⟩ := Language.mem_mul.mp split
    exact ⟨⟨former, head⟩, ⟨latter, rest⟩⟩
  · intro ⟨⟨_, head⟩, ⟨_, rest⟩⟩
    exact ⟨_, Language.append_mem_mul head rest⟩

@[simp] theorem viableSup : Viable (left ⊔ right) ↔ Viable left ∨ Viable right := by
  simp only [Viable, ← add_eq_sup, Language.mem_add, exists_or]

@[simp] theorem viableRepeated : Viable left∗ := ⟨[], Language.nil_mem_kstar _⟩

@[simp] theorem viableToken :
    Viable (Pattern.token accepts).language ↔ ∃ token, accepts token := by
  constructor
  · intro ⟨_, matched⟩
    cases matched with
    | token accepted => exact ⟨_, accepted⟩
  · intro ⟨found, accepted⟩
    exact ⟨[found], Matches.token accepted⟩

namespace Starts

theorem weaken {fewer : Token → Prop} (starts : Starts left fewer)
    (implied : ∀ token, fewer token → first token) : Starts left first := by
  intro tokens member
  obtain ⟨token, rest, spelled, known⟩ := starts tokens member
  exact ⟨token, rest, spelled, implied token known⟩

theorem mul (starts : Starts left first) : Starts (left * right) first := by
  intro tokens split
  obtain ⟨former, head, latter, -, rfl⟩ := Language.mem_mul.mp split
  obtain ⟨token, rest, rfl, known⟩ := starts former head
  exact ⟨token, rest ++ latter, rfl, known⟩

theorem add (former : Starts left first) (latter : Starts right first) :
    Starts (left + right) first := by
  intro tokens either
  cases either with
  | inl member => exact former tokens member
  | inr member => exact latter tokens member

theorem repeated (inner : Starts left first) (rest : Starts right first) :
    Starts (left∗ * right) first := by
  rw [repeatedMul]
  exact rest.add inner.mul

theorem token (known : ∀ token, accepts token → first token) :
    Starts (Pattern.token accepts).language first := by
  intro tokens matched
  cases matched with
  | token accepted => exact ⟨_, [], rfl, known _ accepted⟩

theorem exactly {found : Token} (known : first found) : Starts (exactly found).language first :=
  .token fun _ same => same ▸ known

theorem avoids (starts : Starts left first) (other : ¬ first next) : Avoids left next := by
  intro rest member
  obtain ⟨_, _, spelled, known⟩ := starts _ member
  cases spelled
  exact other known

end Starts

namespace Category

/- The rules of the expressions go round in a circle, and the way out of it is a name. -/
@[simp] theorem viable (phrase : Category) : Viable phrase.language := by
  have dotted : Viable dotted.language := by rw [unroll]; simp [rule]
  have factor : Viable factor.language := by rw [unroll]; simp [rule, dotted]
  have product : Viable product.language := by rw [unroll]; simpa [rule] using factor
  have sum : Viable sum.language := by rw [unroll]; simpa [rule] using product
  have comparison : Viable comparison.language := by rw [unroll]; simpa [rule] using sum
  have negation : Viable negation.language := by rw [unroll]; simp [rule, comparison]
  have conjunction : Viable conjunction.language := by rw [unroll]; simpa [rule] using negation
  have disjunction : Viable disjunction.language := by rw [unroll]; simpa [rule] using conjunction
  have list : Viable list.language := by rw [unroll]; simpa [rule] using disjunction
  have call : Viable call.language := by rw [unroll]; simp [rule]
  have simple : Viable simple.language := by rw [unroll]; simp [rule]
  have statement : Viable statement.language := by rw [unroll]; simp [rule, simple]
  have suite : Viable suite.language := by rw [unroll]; simpa [rule] using statement
  have conditional : Viable conditional.language := by rw [unroll]; simp [rule, disjunction, suite]
  have method : Viable method.language := by rw [unroll]; simpa [rule] using suite
  have classDefinition : Viable classDefinition.language := by rw [unroll]; simpa [rule] using method
  have program : Viable program.language := by rw [unroll]; simp [rule]
  cases phrase <;> assumption

def opens : Category → Token → Bool
  | program, token => begins token || token = .eof
  | statement, token => begins token
  | classDefinition, token => token = .keyword .classK
  | method, token => token = .keyword .defK
  | suite, token => token = .newline
  | conditional, token => token = .keyword .ifK
  | simple, .keyword .returnK | simple, .keyword .printK | simple, .identifier _ => true
  | simple, _ => false
  | dotted, .identifier _ => true
  | dotted, _ => false
  | call, token => token = .char '('
  | list, token | disjunction, token | conjunction, token | negation, token =>
    Level.disjunction.opens token
  | comparison, token | sum, token | product, token | factor, token => Level.factor.opens token

theorem opensDotted {token : Token} (opened : dotted.opens token = true) :
    ∃ name, token = .identifier name := by
  cases token <;> simp_all [opens]

theorem opensLiteral {token : Token} (constant : IsLiteral token) : factor.opens token = true := by
  rcases constant with ⟨_, rfl⟩ | ⟨_, rfl⟩ | word
  · rfl
  · rfl
  · simp only [List.mem_cons, List.not_mem_nil, or_false] at word
    rcases word with rfl | rfl | rfl <;> rfl

theorem opensSimple {token : Token} (opened : simple.opens token = true) :
    statement.opens token = true := by
  simp only [opens] at opened
  split at opened <;> simp_all [opens, begins]

theorem startsAs {phrase head : Category} {rest : Pattern} (shape : phrase.rule = head ++ rest)
    (starts : Starts head.language first) : Starts phrase.language first := by
  rw [unroll, shape, languageSequence]
  exact starts.mul

theorem startsWith {phrase : Category} {mark : Token} {rest : Language Token}
    (shape : phrase.rule.language = (exactly mark).language * rest) (known : first mark) :
    Starts phrase.language first := by
  rw [unroll, shape]
  exact .mul (.exactly known)

theorem starts (phrase : Category) : Starts phrase.language (phrase.opens · = true) := by
  have dotted : Starts dotted.language (dotted.opens · = true) := by
    rw [unroll]
    simp only [rule, languageSequence]
    exact .mul (.token fun _ ⟨_, same⟩ => same ▸ rfl)
  have factor : Starts factor.language (factor.opens · = true) := by
    rw [unroll]
    simp only [rule, languageSequence, languageChoice, languageCategory]
    refine .add (.add (.add (.mul (.mul (.exactly rfl))) (.mul (.exactly rfl)))
      (.token fun _ => opensLiteral)) (.mul (dotted.weaken ?_))
    intro token opened
    obtain ⟨_, rfl⟩ := opensDotted opened
    rfl
  have product : Starts product.language (product.opens · = true) := startsAs rfl factor
  have sum : Starts sum.language (sum.opens · = true) := startsAs rfl product
  have comparison : Starts comparison.language (comparison.opens · = true) := startsAs rfl sum
  have negation : Starts negation.language (negation.opens · = true) := by
    rw [unroll]
    simp only [rule, languageSequence, languageChoice, languageCategory]
    refine .add (.mul (.exactly rfl)) (comparison.weaken ?_)
    intro token opened
    exact Level.opensLooser opened (by decide)
  have conjunction : Starts conjunction.language (conjunction.opens · = true) :=
    startsAs rfl negation
  have disjunction : Starts disjunction.language (disjunction.opens · = true) :=
    startsAs rfl conjunction
  have list : Starts list.language (list.opens · = true) := startsAs rfl disjunction
  have call : Starts call.language (call.opens · = true) :=
    startsWith (by simp only [rule, languageSequence, mul_assoc]; rfl) rfl
  have simple : Starts simple.language (simple.opens · = true) := by
    rw [unroll]
    simp only [rule, languageSequence, languageChoice, languageCategory]
    refine .add (.add (.mul (.exactly rfl)) (.mul (.exactly rfl))) (.mul (dotted.weaken ?_))
    intro token opened
    obtain ⟨_, rfl⟩ := opensDotted opened
    rfl
  have classDefinition : Starts classDefinition.language (classDefinition.opens · = true) :=
    startsWith (by simp only [rule, languageSequence, mul_assoc]; rfl) rfl
  have conditional : Starts conditional.language (conditional.opens · = true) :=
    startsWith (by simp only [rule, languageSequence, mul_assoc]; rfl) rfl
  have method : Starts method.language (method.opens · = true) :=
    startsWith (by simp only [rule, languageSequence, mul_assoc]; rfl) rfl
  have suite : Starts suite.language (suite.opens · = true) :=
    startsWith (by simp only [rule, languageSequence, mul_assoc]; rfl) rfl
  have statement : Starts statement.language (statement.opens · = true) := by
    rw [unroll]
    simp only [rule, languageSequence, languageChoice, languageCategory]
    refine .add (.add (classDefinition.weaken ?_) (conditional.weaken ?_))
      (.mul (simple.weaken fun _ => opensSimple))
    · intro token opened
      rw [of_decide_eq_true opened]
      rfl
    · intro token opened
      rw [of_decide_eq_true opened]
      rfl
  have program : Starts program.language (program.opens · = true) := by
    rw [unroll]
    simp only [rule, languageSequence, languageMany, languageCategory]
    refine .repeated (statement.weaken ?_) (.exactly rfl)
    intro token opened
    simp only [opens] at opened ⊢
    rw [opened, Bool.true_or]
  cases phrase <;> assumption

end Category

variable {ends : Token → Prop} {inner rest : Language Token}

@[simp] theorem avoidsAdd {left right : Language Token} :
    Avoids (left + right) next ↔ Avoids left next ∧ Avoids right next := by
  simp only [Avoids, Language.mem_add, not_or, forall_and]

theorem avoidsToken (other : ¬ accepts next) :
    Avoids ((Pattern.token accepts).language * rest) next :=
  Starts.avoids (.mul (.token fun _ accepted => accepted)) other

theorem avoidsPhrase {phrase : Category} (other : phrase.opens next = false) :
    Avoids (phrase.language * rest) next :=
  Starts.avoids phrase.starts.mul (by simp [other])

namespace Follows

theorem weaken {fewer : Token → Prop} (follows : Follows rest fewer)
    (implied : ∀ token, fewer token → ends token) : Follows rest ends :=
  ⟨follows.viable, follows.starts.weaken implied⟩

theorem exactly (ended : ends next) (viable : Viable rest) :
    Follows ((exactly next).language * rest) ends :=
  ⟨by simp [viable], .mul (.exactly ended)⟩

theorem optional (follows : Follows rest ends) (other : Starts inner ends) :
    Follows (rest + inner) ends :=
  ⟨by simp [follows.viable], follows.starts.add other⟩

theorem repeated (follows : Follows rest ends) (marks : Starts inner ends) :
    Follows (inner∗ * rest) ends :=
  ⟨by simp [follows.viable], .repeated marks follows.starts⟩

theorem avoids (follows : Follows rest ends) (other : ¬ ends next) : Avoids rest next :=
  follows.starts.avoids other

end Follows

end Offside.Grammar
