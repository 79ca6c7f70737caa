import Mathlib.Data.List.Nodup
import Mathlib.Order.WellFounded
import Offside.Proofs.Grammar.Outline
import Offside.Proofs.Grammar.Recognition
import Offside.Proofs.Grammar.Routine
import Offside.Proofs.Token.Stream

/-! What a parser leaves in the class table, whether it succeeds or fails: only classes whose whole
definition is among the tokens that it took. -/
namespace Offside

namespace Parser
open ParserState Grammar

variable {α β : Type}

def Advances (state after : ParserState) : Prop :=
  Tidy state.tokens →
    ∃ taken, state.tokens = taken ++ after.tokens ∧ Accounts state.classes taken after.classes

theorem Advances.refl (state : ParserState) : Advances state state :=
  fun _ => ⟨[], rfl, .refl _ _⟩

theorem Advances.trans {state between after : ParserState} (first : Advances state between)
    (second : Advances between after) : Advances state after := by
  intro tidy
  obtain ⟨front, split, accounts⟩ := first tidy
  obtain ⟨back, splitRest, accountsRest⟩ :=
    second (tidy.part (split ▸ (List.suffix_append _ _).isInfix))
  refine ⟨front ++ back, by rw [split, splitRest, List.append_assoc], ?_⟩
  exact (accounts.widen (List.prefix_append _ _).isInfix).trans
    (accountsRest.widen (List.suffix_append _ _).isInfix)

theorem Took.advances {state after : ParserState} {tokens : List Token}
    (took : Took state tokens after) : Advances state after :=
  fun _ => ⟨tokens, took.tokens, by rw [took.classes]; exact .refl _ _⟩

structure Accountable (aspect : Aspect) (least : Nat) (parser _beside : Parser α) (state : ParserState) :
    Prop where
  done : aspect = .ending → ∀ {value after}, parser state = .done value after → Advances state after
  failed : ∀ {error after}, parser state = .failed error after → Advances state after
  takes : ∀ {value after}, parser state = .done value after →
    after.upcoming.length + least ≤ state.upcoming.length

namespace Accountable

variable {parser former beside latter : Parser α} {aspect : Aspect} {least : Nat} {state : ParserState}

theorem ofEq (accountable : Accountable aspect least former latter state)
    (same : parser state = former state) : Accountable aspect least parser beside state := by
  obtain ⟨done, failed, takes⟩ := accountable
  rw [← same] at done failed takes
  exact ⟨done, failed, takes⟩

theorem advance : Accountable .ending 1 advance advance state where
  done _ _ _ moved := Took.advances (advanceTook moved)
  failed := by
    intro error after moved
    unfold Parser.advance at moved
    cases coming : state.upcoming with
    | cons next rest =>
      rw [coming] at moved
      cases moved
    | nil =>
      rw [coming] at moved
      cases lost : state.failure with
      | none =>
        rw [lost] at moved
        cases moved
      | some failure =>
        rw [lost] at moved
        cases moved
        refine fun _ => ⟨[], by rw [recordTokens]; rfl, ?_⟩
        rw [recordClasses]
        exact .refl _ _
  takes {_ after} moved := by
    have lengths := congrArg List.length (advanceTook moved).tokens
    simp only [ParserState.tokens, List.length_cons, List.length_map, List.length_append,
      List.length_nil] at lengths
    omega

theorem lead {next other : α → Parser β} (first : Accountable .ending least parser beside state)
    (second : ∀ value after, after.upcoming.length + least ≤ state.upcoming.length →
      Accountable aspect 0 (next value) (other value) after) :
    Accountable aspect least (parser >>= next) (beside >>= other) state where
  done whole _ _ ran := by
    obtain ⟨value, between, began, ended⟩ := Machine.bindDone.mp ran
    exact (first.done rfl began).trans ((second value between (first.takes began)).done whole ended)
  failed ran := by
    rw [Machine.bindRun] at ran
    cases began : parser state with
    | done value between =>
      rw [began] at ran
      exact (first.done rfl began).trans ((second value between (first.takes began)).failed ran)
    | failed error between =>
      rw [began] at ran
      cases ran
      exact first.failed began
    | exhausted =>
      rw [began] at ran
      cases ran
  takes ran := by
    obtain ⟨value, between, began, ended⟩ := Machine.bindDone.mp ran
    have before := first.takes began
    have behind := (second value between before).takes ended
    omega

end Accountable

theorem accountable : Routine Accountable where
  pure {_ _ state} value := by
    constructor
    · intro _ _ after ran
      cases ran
      exact .refl state
    · intro error after ran
      cases ran
    · intro _ after ran
      cases ran
      exact Nat.le_refl _
  fail {_ _ _ state _} _ := by
    constructor
    · intro _ value after ran
      cases ran
    · intro _ after ran
      cases ran
      exact .refl state
    · intro value after ran
      cases ran
  look accountable := accountable.ofEq rfl
  line {_ _ _ state _ _} accountable := (accountable state.current.line).ofEq rfl
  known {_ _ _ state _ _} accountable := (accountable state.classes).ofEq rfl
  advance _ := .advance
  lead first second := first.lead second
  free accountable := ⟨accountable.done, accountable.failed, fun ran =>
    Nat.le_trans (Nat.le_add_right _ _) (accountable.takes ran)⟩
  bounded accountable := (accountable _ (Nat.lt_succ_self _)).ofEq rfl
  declare {state} name parent methods line := by
    constructor
    · intro whole
      cases whole
    · intro error after ran
      unfold Parser.declare at ran
      split at ran <;> cases ran
      exact .refl state
    · intro value after ran
      unfold Parser.declare at ran
      split at ran <;> cases ran
      exact Nat.le_refl _
  enter {state nested _} sound accountable := by
    refine ⟨fun _ _ after ran tidy => ?_, accountable.failed, accountable.takes⟩
    obtain ⟨tokens, taken, derived⟩ := classDefinitionSound sound ran
    exact ⟨tokens, taken, (derived (tidy.part (taken ▸ (List.prefix_append _ _).isInfix))).accounts⟩
  finish {state} statements := by
    constructor
    · intro _ value after ran
      cases ran
      exact fun _ => ⟨[], by rw [recordTokens]; rfl, by rw [recordClasses]; exact .refl _ _⟩
    · intro error after ran
      cases ran
    · intro value after ran
      cases ran
      exact Nat.le_refl _

end Parser

namespace ClassTable

def IsParent (table : ClassTable) (parent child : ClassId) : Prop :=
  ∃ cls, table.get? child = some cls ∧ cls.parent = some parent

end ClassTable

namespace Program
open Grammar

structure InOrder (tokens : List Token) (program : Program) : Prop where
  text : List.Forall₂ (Names program.classes) (outlineText tokens) program.outline
  ends : program.outline.filterMap TreeMark.ended? = List.range program.classes.classes.size
  distinct : ((program.outline.filterMap TreeMark.ended?).map program.classes.nameOf).Nodup
  bases : ∀ front child parent back, program.outline = front ++ .inherits child parent :: back →
    .ends parent ∈ front
  creations : ∀ front cls back, program.outline = front ++ .creates cls :: back →
    .ends cls ∈ front
  finite : WellFounded program.classes.IsParent
  acyclic : ∀ id, ¬ Relation.TransGen program.classes.IsParent id id
  inside : ∀ id cls, .creates cls ∈ program.classes.outlineOf id → cls < id

theorem parsesInOrder {tokens : List Token} {program : Program}
    (parses : Parses tokens program) : InOrder tokens program := by
  have accounts : Accounts .empty tokens program.classes := Derives.accounts parses
  have timely : Timely 0 program.outline program.classes.classes.size :=
    Derives.timely parses (.refl _)
  have ends : program.outline.filterMap TreeMark.ended? =
      List.range program.classes.classes.size := by
    rw [timely.ended.2, Nat.sub_zero, List.range_eq_range']
  have below : ∀ {parent child}, program.classes.IsParent parent child → parent < child := by
    rintro parent child ⟨cls, held, above⟩
    obtain ⟨_, -, entered⟩ := accounts.entered (Nat.zero_le child) (ClassTable.getKnown held)
    exact entered.parent held above
  have finite : WellFounded program.classes.IsParent := Subrelation.wf below Nat.lt_wfRel.wf
  refine ⟨parsesOutline parses, ends, ?_, ?_, ?_, finite, ?_, ?_⟩
  · rw [ends]
    refine List.Nodup.map_on (fun first left second right same => ?_) List.nodup_range
    exact accounts.distinct (List.mem_range.mp left) (List.mem_range.mp right) same
  · intro front child parent back split
    rw [split] at timely
    exact timely.named (.inr ⟨child, rfl⟩)
  · intro front cls back split
    rw [split] at timely
    exact timely.named (.inl rfl)
  · intro id cycle
    exact finite.transGen.irrefl.irrefl id cycle
  · intro id cls created
    by_cases known : id < program.classes.classes.size
    · obtain ⟨_, -, entered⟩ := accounts.entered (Nat.zero_le id) known
      obtain ⟨start, front, timely, outline⟩ := entered.timely
      rw [outline] at created
      exact timely.known (by simpa using created)
    · rw [ClassTable.outlineOf, ClassTable.get?, Array.getElem?_eq_none (Nat.not_lt.mp known)]
        at created
      cases created

/-- Done or failed, a parse leaves only classes whose definition it has read to its end. -/
theorem classesInOrder (source : Source) :
    (∀ parser, (parse source).state? = some parser →
      ∃ taken, .eof :: (TokenStream.ofSource source).tokens = taken ++ parser.tokens ∧
        ∀ id < parser.classes.classes.size,
          ∃ part, part <:+: taken ∧ Entered parser.classes id part) ∧
    ∀ program parser, parse source = .done program parser →
      ∃ tokens, source.tokens = .ok (tokens ++ [.eof]) ∧ InOrder tokens program := by
  constructor
  · intro parser ended
    have tidy : Parser.Tidy (.eof :: (TokenStream.ofSource source).tokens) := by
      refine List.isChain_cons.mpr ⟨fun next _ opened => ?_, (TokenStream.drainTidy _ _).1⟩
      cases opened
    have advances : Parser.Advances
        (ParserState.ofStream (TokenStream.ofSource source) .empty) parser := by
      have whole : Parser.Accountable .ending 0 Parser.program Parser.program
          (ParserState.ofStream (TokenStream.ofSource source) .empty) :=
        Parser.accountable.program .advance
      cases ran : parse source with
      | done program final =>
        rw [ran] at ended
        cases ended
        exact whole.done rfl ran
      | failed error final =>
        rw [ran] at ended
        cases ended
        exact whole.failed ran
      | exhausted =>
        rw [ran] at ended
        cases ended
    obtain ⟨taken, split, accounts⟩ := advances tidy
    exact ⟨taken, split, fun id known => accounts.entered (Nat.zero_le id) known⟩
  · intro program parser parsed
    obtain ⟨tokens, read, parses⟩ := parseSound parsed
    exact ⟨tokens, read, parsesInOrder parses⟩

def nestedClasses : Source :=
  ⟨["class Base:", "  def make():", "    return 1", "if 1:", "  class Sub(Base):", "    def make():",
    "      class Inner:", "        def get():", "          return Base()", "      return Inner()",
    "x = Sub()"].map (.ok ·.toList)⟩

def unknownBase : Source :=
  ⟨["class Sub:", "  def make():", "    return 1", "class Late(Base):", "  def make():",
    "    return Sub()"].map (.ok ·.toList)⟩

theorem classesInOrderNested :
    (∃ program parser, parse nestedClasses = .done program parser ∧
      (program.outline.filterMap TreeMark.ended?).map program.classes.nameOf =
        ["Base", "Inner", "Sub"]) ∧
    ∃ parser part, parse unknownBase = .failed (.unknownBase "Base" "Late" 4) parser ∧
      parser.classes.classes.size = 1 ∧ Entered parser.classes 0 part := by
  have names : (match parse nestedClasses with
      | .done program _ => (List.range program.classes.classes.size).map program.classes.nameOf
      | _ => []) = ["Base", "Inner", "Sub"] := by
    decide +kernel
  have stopped : (match parse unknownBase with
      | .failed error parser => some (error, parser.classes.classes.size)
      | _ => none) = some (.unknownBase "Base" "Late" 4, 1) := by
    decide +kernel
  constructor
  · cases parsed : parse nestedClasses with
    | done program parser =>
      rw [parsed] at names
      obtain ⟨tokens, -, order⟩ := (classesInOrder nestedClasses).2 program parser parsed
      exact ⟨program, parser, rfl, by rw [order.ends]; exact names⟩
    | failed error parser =>
      rw [parsed] at names
      cases names
    | exhausted =>
      rw [parsed] at names
      cases names
  · cases parsed : parse unknownBase with
    | failed error parser =>
      rw [parsed] at stopped
      obtain ⟨rfl, size⟩ := Prod.mk.inj (Option.some.inj stopped)
      obtain ⟨taken, -, entered⟩ := (classesInOrder unknownBase).1 parser (by rw [parsed]; rfl)
      obtain ⟨part, -, whole⟩ := entered 0 (by rw [size]; exact Nat.one_pos)
      exact ⟨parser, part, rfl, size, whole⟩
    | done program parser =>
      rw [parsed] at stopped
      cases stopped
    | exhausted =>
      rw [parsed] at stopped
      cases stopped

end Program

end Offside
