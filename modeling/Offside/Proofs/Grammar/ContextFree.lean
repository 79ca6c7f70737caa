import Mathlib.Computability.Language
import Offside.Token.Basic

/-! The grammar as a table of rules, one for each category of phrase. The rules know no classes: any
name can be called, and any class can be declared again. What a rule derives is a language, and the
languages of the categories satisfy the rules as equations. -/
namespace Offside.Grammar
open scoped Computability

inductive Category where
  | program | statement | classDefinition | method | suite | conditional | simple
  | dotted | call | list
  | disjunction | conjunction | negation | comparison | sum | product | factor
  deriving DecidableEq

def IsLiteral (found : Token) : Prop :=
  (∃ value, found = .number value) ∨ (∃ content, found = .string content) ∨
    found ∈ [.keyword .trueK, .keyword .falseK, .keyword .noneK]

inductive Pattern where
  | token (accepts : Token → Prop)
  | empty
  | sequence (first second : Pattern)
  | choice (first second : Pattern)
  | many (inner : Pattern)
  | category (phrase : Category)

namespace Pattern

instance : Append Pattern := ⟨sequence⟩

instance : OrOp Pattern := ⟨choice⟩

instance : Coe Category Pattern := ⟨category⟩

abbrev exactly (token : Token) : Pattern := .token (· = token)

abbrev symbol (mark : Char) : Pattern := exactly (.char mark)

abbrev keyword (word : Keyword) : Pattern := exactly (.keyword word)

abbrev oneOf (tokens : List Token) : Pattern := token (· ∈ tokens)

abbrev name : Pattern := token fun found => ∃ name, found = .identifier name

abbrev literal : Pattern := token IsLiteral

abbrev optional (inner : Pattern) : Pattern := empty ||| inner

abbrev separatedBy (mark : Char) (inner : Pattern) : Pattern := inner ++ many (symbol mark ++ inner)

end Pattern

open Category Pattern in
def Category.rule : Category → Pattern
  | program => many statement ++ exactly .eof
  | statement => classDefinition ||| conditional ||| simple ++ exactly .newline
  | classDefinition =>
    keyword .classK ++ name ++ optional (symbol '(' ++ name ++ symbol ')') ++ symbol ':' ++
      exactly .newline ++ exactly .indent ++ method ++ many method ++ exactly .dedent
  | method =>
    keyword .defK ++ name ++ symbol '(' ++ optional (separatedBy ',' name) ++ symbol ')' ++
      symbol ':' ++ suite
  | suite =>
    exactly .newline ++ exactly .indent ++ statement ++ many statement ++ exactly .dedent
  | conditional =>
    keyword .ifK ++ disjunction ++ symbol ':' ++ suite ++
      optional (keyword .elseK ++ symbol ':' ++ suite)
  | simple =>
    keyword .returnK ++ disjunction ||| keyword .printK ++ optional list |||
      dotted ++ (symbol '=' ++ disjunction ||| call)
  | dotted => separatedBy '.' name
  | call => symbol '(' ++ optional list ++ symbol ')'
  | list => separatedBy ',' disjunction
  | disjunction => conjunction ++ many (keyword .orK ++ conjunction)
  | conjunction => negation ++ many (keyword .andK ++ negation)
  | negation => keyword .notK ++ negation ||| comparison
  | comparison =>
    sum ++ optional
      (oneOf [.char '<', .char '>', .eq, .notEq, .lessOrEq, .greaterOrEq] ++ sum)
  | sum => product ++ many (oneOf [.char '+', .char '-'] ++ product)
  | product => factor ++ many (oneOf [.char '*', .char '/'] ++ factor)
  | factor =>
    symbol '(' ++ disjunction ++ symbol ')' ||| symbol '-' ++ factor ||| literal |||
      dotted ++ optional call

inductive Matches : Pattern → List Token → Prop where
  | token {accepts : Token → Prop} {found : Token} (accepted : accepts found) :
      Matches (.token accepts) [found]
  | empty : Matches .empty []
  | sequence {first second : Pattern} {left right : List Token} (head : Matches first left)
      (rest : Matches second right) : Matches (.sequence first second) (left ++ right)
  | former {first second : Pattern} {tokens : List Token} (chosen : Matches first tokens) :
      Matches (.choice first second) tokens
  | latter {first second : Pattern} {tokens : List Token} (chosen : Matches second tokens) :
      Matches (.choice first second) tokens
  | finished {inner : Pattern} : Matches (.many inner) []
  | next {inner : Pattern} {left right : List Token} (head : Matches inner left)
      (rest : Matches (.many inner) right) : Matches (.many inner) (left ++ right)
  | category {phrase : Category} {tokens : List Token} (derived : Matches phrase.rule tokens) :
      Matches (.category phrase) tokens

def Pattern.language (pattern : Pattern) : Language Token := {tokens | Matches pattern tokens}

def Category.language (phrase : Category) : Language Token := Pattern.language phrase

def Sentence (tokens : List Token) : Prop := Matches Category.program tokens

namespace Pattern

@[simp] theorem languageEmpty : language empty = 1 := by
  ext tokens
  constructor
  · intro matched
    cases matched
    exact Language.nil_mem_one
  · intro nothing
    rw [(Language.mem_one tokens).mp nothing]
    exact Matches.empty

@[simp] theorem languageSequence (first second : Pattern) :
    (first ++ second).language = first.language * second.language := by
  ext tokens
  constructor
  · intro matched
    cases matched with
    | sequence head rest => exact Language.append_mem_mul head rest
  · intro split
    obtain ⟨left, head, right, rest, rfl⟩ := Language.mem_mul.mp split
    exact Matches.sequence head rest

@[simp] theorem languageChoice (first second : Pattern) :
    (first ||| second).language = first.language + second.language := by
  ext tokens
  constructor
  · intro matched
    cases matched with
    | former chosen => exact Or.inl chosen
    | latter chosen => exact Or.inr chosen
  · intro either
    cases either with
    | inl chosen => exact Matches.former chosen
    | inr chosen => exact Matches.latter chosen

@[simp] theorem languageMany (inner : Pattern) : (many inner).language = inner.language∗ := by
  apply le_antisymm
  · intro tokens matched
    generalize repeated : many inner = pattern at matched
    induction matched with
    | finished => exact Language.nil_mem_kstar _
    | next head rest _ ih =>
      cases repeated
      have again : inner.language * inner.language∗ ≤ inner.language∗ := mul_kstar_le_kstar
      exact again (Language.append_mem_mul head (ih rfl))
    | _ => cases repeated
  · apply kstar_le_of_mul_le_right
    · intro tokens nothing
      rw [(Language.mem_one tokens).mp nothing]
      exact Matches.finished
    · intro tokens split
      obtain ⟨left, head, right, rest, rfl⟩ := Language.mem_mul.mp split
      exact Matches.next head rest

@[simp] theorem languageCategory (phrase : Category) :
    language (category phrase) = phrase.language := rfl

end Pattern

theorem Category.unroll (phrase : Category) : phrase.language = phrase.rule.language := by
  ext tokens
  constructor
  · intro matched
    cases matched with
    | category derived => exact derived
  · intro derived
    exact Matches.category derived

end Offside.Grammar
