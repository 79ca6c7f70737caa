import Offside.Proofs.Grammar.Step

/-! What it is for a parser to take the tokens of a phrase, and how that is put together. A parser looks
at one token after the phrase, so the phrase is taken only where that token cannot go on with it.
How loosely a token binds tells which phrases it goes on with: a chain of operands leaves alone
what binds looser than its own operator. -/
namespace Offside

namespace Grammar

def looseness : Token → Nat
  | .char '(' | .char '.' => 1
  | .char '*' | .char '/' => 2
  | .char '+' | .char '-' => 3
  | .char '<' | .char '>' | .eq | .notEq | .lessOrEq | .greaterOrEq => 4
  | .keyword .andK => 6
  | .keyword .orK => 7
  | .char ',' => 8
  | _ => 9

end Grammar

namespace Parser
open ParserState Grammar

variable {α : Type}

/-- A parser takes these tokens when a token that ends the phrase comes after them, and then stands in
front of that token. -/
def Takes (parser : Parser α) (before : ClassTable) (tokens : List Token) (value : α)
    (after : ClassTable) (ends : Token → Prop) : Prop :=
  ∀ ⦃state next rest⦄, Stands state before (tokens ++ next :: rest) → ends next →
    ∃ final, parser state = .done value final ∧ Stands final after (next :: rest)

abbrev Reads (parser : Parser α) (classes : ClassTable) (tokens : List Token) (value : α)
    (bound : Nat) : Prop :=
  Takes parser classes tokens value classes fun next => bound < looseness next

theorem Takes.weaken {parser : Parser α} {before after : ClassTable} {tokens : List Token} {value : α}
    {ends fewer : Token → Prop} (takes : Takes parser before tokens value after ends)
    (implied : ∀ {next}, fewer next → ends next) : Takes parser before tokens value after fewer :=
  fun _ _ _ stands ended => takes stands (implied ended)

theorem Takes.bounded {parser : Nat → Parser α} {before after : ClassTable} {tokens : List Token}
    {value : α} {ends : Token → Prop}
    (each : ∀ rounds, tokens.length < rounds → Takes (parser rounds) before tokens value after ends) :
    Takes (bounded parser) before tokens value after ends := by
  intro state next rest stands ended
  have count := stands.length
  rw [List.length_append, List.length_cons] at count
  exact each _ (by omega) stands ended

section Sequences

variable {β : Type} {parser : Parser α} {next : α → Parser β} {before between after : ClassTable}
  {tokens others : List Token} {value : α} {result : β} {ends stops : Token → Prop}

theorem Takes.upTo {mark : Token} (first : Takes parser before tokens value between ends)
    (second : Takes (next value) between (mark :: others) result after stops) (ended : ends mark) :
    Takes (parser >>= next) before (tokens ++ mark :: others) result after stops := by
  intro state token rest stands stopped
  rw [List.append_assoc] at stands
  obtain ⟨middle, ran, there⟩ := first stands ended
  obtain ⟨final, finished, beyond⟩ := second there stopped
  exact ⟨final, by rw [Machine.bindOf ran, finished], beyond⟩

theorem Takes.finally (first : Takes parser before tokens value between ends)
    (second : Takes (next value) between [] result after stops)
    (ended : ∀ {token}, stops token → ends token) :
    Takes (parser >>= next) before tokens result after stops := by
  intro state token rest stands stopped
  obtain ⟨middle, ran, there⟩ := first stands (ended stopped)
  obtain ⟨final, finished, beyond⟩ := second there stopped
  exact ⟨final, by rw [Machine.bindOf ran, finished], beyond⟩

theorem Takes.and (first : Takes parser before tokens value between fun _ => True)
    (second : Takes (next value) between others result after stops) :
    Takes (parser >>= next) before (tokens ++ others) result after stops := by
  cases others with
  | nil => rw [List.append_nil]; exact first.finally second fun _ => trivial
  | cons mark others => exact first.upTo second trivial

theorem Takes.look {next : Token → Parser β} {token : Token}
    (chosen : Takes (next token) before (token :: tokens) result after stops) :
    Takes (current >>= next) before (token :: tokens) result after stops := by
  intro state follower rest stands stopped
  rw [currentBind, stands.current]
  exact chosen stands stopped

theorem Takes.lookBeyond {next : Token → Parser β}
    (chosen : ∀ {token}, stops token → Takes (next token) before [] result after stops) :
    Takes (current >>= next) before [] result after stops := by
  intro state token rest stands stopped
  rw [currentBind, stands.current]
  exact chosen stopped stands stopped

theorem Takes.line {next : Nat → Parser β}
    (each : ∀ line, Takes (next line) before tokens result after stops) :
    Takes (line >>= next) before tokens result after stops :=
  fun state _ _ stands stopped => each state.current.line stands stopped

theorem pureTakes (classes : ClassTable) (value : α) (stops : Token → Prop) :
    Takes (pure value : Parser α) classes [] value classes stops :=
  fun state _ _ stands _ => ⟨state, rfl, stands⟩

theorem advanceTakes (classes : ClassTable) (token : Token) :
    Takes advance classes [token] () classes fun _ => True :=
  fun _ _ _ stands _ => advanceStands stands (List.cons_ne_nil _ _)

theorem expectTakes (classes : ClassTable) (token : Token) :
    Takes (expect token) classes [token] () classes fun _ => True :=
  fun _ _ _ stands _ => expectStands stands (List.cons_ne_nil _ _)

theorem identifierTakes (classes : ClassTable) (name : String) :
    Takes identifier classes [.identifier name] name classes fun _ => True :=
  fun _ _ _ stands _ => identifierStands stands (List.cons_ne_nil _ _)

end Sequences

section Repetition

theorem dottedRestTakes {rounds : Nat} {walked path : Path} {name last : String}
    {rest : List String} {classes : ClassTable} {state : ParserState} {next : Token}
    {others : List Token} (spelled : walked ++ name :: rest = path ++ [last])
    (stands : Stands state classes
      ((rest.flatMap fun name => [.char '.', .identifier name]) ++ next :: others))
    (enough : state.upcoming.length < rounds) (ended : next ≠ .char '.') :
    ∃ final, dottedRest rounds walked name state = .done (path, last) final ∧
      Stands final classes (next :: others) := by
  induction rounds generalizing walked name rest state with
  | zero => omega
  | succ rounds ih =>
    cases rest with
    | nil =>
      obtain ⟨rfl, same⟩ := List.append_inj' spelled rfl
      cases same
      refine ⟨state, ?_, stands⟩
      rw [dottedRest, currentBind, stands.current, if_neg ended]
      rfl
    | cons second rest =>
      simp only [List.flatMap_cons, List.cons_append, List.nil_append] at stands
      obtain ⟨pointed, stepped, there⟩ := advanceStands stands (by simp)
      obtain ⟨named, found, beyond⟩ := identifierStands there (by simp)
      have onward : (walked ++ [name]) ++ second :: rest = path ++ [last] := by
        rw [List.append_assoc]
        exact spelled
      have taken : state.upcoming.length = 2 + named.upcoming.length :=
        Stands.taken [.char '.', .identifier second] stands beyond
      obtain ⟨final, finished, last⟩ := ih onward beyond (by omega)
      refine ⟨final, ?_, last⟩
      rw [dottedRest, currentBind, stands.current, if_pos rfl, Machine.bindOf stepped,
        Machine.bindOf found, finished]

theorem dottedTakes (classes : ClassTable) (path : Path) (last : String) :
    Takes dotted classes (separated '.' (path ++ [last])) (path, last) classes (· ≠ .char '.') := by
  intro state next rest stands ended
  obtain ⟨first, others, spelled⟩ : ∃ first others, path ++ [last] = first :: others := by
    cases path <;> exact ⟨_, _, rfl⟩
  rw [spelled, separated] at stands
  obtain ⟨named, found, there⟩ := identifierStands stands (by simp)
  obtain ⟨final, finished, beyond⟩ : ∃ final,
      dottedRest (named.upcoming.length + 1) [] first named = .done (path, last) final ∧
        Stands final classes (next :: rest) :=
    dottedRestTakes spelled.symm there (Nat.lt_succ_self _) ended
  refine ⟨final, ?_, beyond⟩
  rw [dotted, Machine.bindOf found]
  exact finished

def Loops (operator : Token → Option (Stmt → Stmt → Stmt)) (operand : Parser Stmt)
    (classes : ClassTable) (tokens : List Token) (tree : Stmt) (bound : Nat) : Prop :=
  ∀ ⦃state next rest⦄, Stands state classes (tokens ++ next :: rest) → bound < looseness next →
    ∃ between rounds, chain operator operand state = chainRest operator operand rounds tree between ∧
      rest.length < rounds ∧ Stands between classes (next :: rest)

variable {operator : Token → Option (Stmt → Stmt → Stmt)} {operand : Parser Stmt}
  {classes : ClassTable}

theorem Loops.start {tokens : List Token} {tree : Stmt} {bound : Nat}
    (read : Reads operand classes tokens tree bound) :
    Loops operator operand classes tokens tree bound := by
  intro state next rest stands ended
  obtain ⟨between, parsed, there⟩ := read stands ended
  have count := there.length
  refine ⟨between, between.upcoming.length + 1, ?_, ?_, there⟩
  · rw [chain, Machine.bindOf parsed]
    rfl
  · rw [count, List.length_cons]
    exact Nat.lt_succ_self _

theorem Loops.step {left right : List Token} {token : Token} {combine : Stmt → Stmt → Stmt}
    {first second : Stmt} {bound : Nat} (looped : Loops operator operand classes left first bound)
    (found : operator token = some combine) (looser : bound < looseness token)
    (read : Reads operand classes right second bound) :
    Loops operator operand classes (left ++ token :: right) (combine first second) bound := by
  intro state next rest stands ended
  rw [List.append_assoc, List.cons_append] at stands
  obtain ⟨between, rounds, ran, enough, there⟩ := looped stands looser
  obtain ⟨moved, stepped, onward⟩ := advanceStands there (by simp)
  obtain ⟨final, parsed, beyond⟩ := read onward ended
  rw [List.length_append, List.length_cons] at enough
  obtain ⟨fewer, rfl⟩ : ∃ fewer, rounds = fewer + 1 := ⟨rounds - 1, by omega⟩
  refine ⟨final, fewer, ?_, by omega, beyond⟩
  rw [ran, chainRest, currentBind, there.current]
  simp only [found]
  rw [Machine.bindOf stepped, Machine.bindOf parsed]

theorem Loops.finish {tokens : List Token} {tree : Stmt} {bound loose : Nat}
    (looped : Loops operator operand classes tokens tree bound) (within : bound ≤ loose)
    (stops : ∀ {token combine}, operator token = some combine → looseness token ≤ loose) :
    Reads (chain operator operand) classes tokens tree loose := by
  intro state next rest stands ended
  obtain ⟨between, rounds, ran, enough, there⟩ := looped stands (by omega)
  obtain ⟨fewer, rfl⟩ : ∃ fewer, rounds = fewer + 1 := ⟨rounds - 1, by omega⟩
  have none : operator next = none := by
    cases found : operator next with
    | none => rfl
    | some combine => exact absurd (stops found) (by omega)
  refine ⟨between, ?_, there⟩
  rw [ran, chainRest, currentBind, there.current]
  simp only [none, Machine.pureRun]

/- The first item of a list is taken, and the others are whatever the number of rounds, if there are
enough. -/
def Lists (item : Parser α) (classes : ClassTable) (tokens : List Token) (values : List α) : Prop :=
  ∀ ⦃state next rest⦄, Stands state classes (tokens ++ next :: rest) → 8 < looseness next →
    ∃ head others between, values = head :: others ∧ item state = .done head between ∧
      between.upcoming.length ≤ state.upcoming.length ∧
      ∀ rounds, between.upcoming.length < rounds →
        ∃ final, commaRest item rounds between = .done others final ∧
          Stands final classes (next :: rest)

variable {item : Parser α}

theorem Lists.single {tokens : List Token} {value : α} (read : Reads item classes tokens value 7) :
    Lists item classes tokens [value] := by
  intro state next rest stands ended
  obtain ⟨between, parsed, there⟩ := read stands (by omega)
  have taken := Stands.taken tokens stands there
  refine ⟨value, [], between, rfl, parsed, by omega, ?_⟩
  rintro (_ | rounds) enough
  · omega
  · refine ⟨between, ?_, there⟩
    have stopped : next ≠ .char ',' := by
      rintro rfl
      exact absurd ended (by decide)
    rw [commaRest, currentBind, there.current, if_neg stopped]
    rfl

theorem Lists.more {tokens others : List Token} {value : α} {values : List α}
    (read : Reads item classes tokens value 7) (listed : Lists item classes others values) :
    Lists item classes (tokens ++ .char ',' :: others) (value :: values) := by
  intro state next rest stands ended
  rw [List.append_assoc, List.cons_append] at stands
  obtain ⟨between, parsed, there⟩ := read stands (by decide)
  have taken := Stands.taken tokens stands there
  refine ⟨value, values, between, rfl, parsed, by omega, ?_⟩
  rintro (_ | rounds) enough
  · omega
  · obtain ⟨moved, stepped, onward⟩ := advanceStands there (by simp)
    obtain ⟨head, tail, last, rfl, second, shorter, rest⟩ := listed onward ended
    have comma : between.upcoming.length = 1 + moved.upcoming.length :=
      Stands.taken [.char ','] there onward
    obtain ⟨final, repeated, beyond⟩ := rest rounds (by omega)
    refine ⟨final, ?_, beyond⟩
    rw [commaRest, currentBind, there.current]
    rw [if_pos rfl, Machine.bindOf stepped, Machine.bindOf second, Machine.bindOf repeated]
    rfl

theorem Lists.finish {tokens : List Token} {values : List α}
    (listed : Lists item classes tokens values) :
    Reads (commaSeparated item) classes tokens values 8 := by
  intro state next rest stands ended
  obtain ⟨head, others, between, rfl, parsed, -, repeats⟩ := listed stands ended
  obtain ⟨final, repeated, there⟩ := repeats _ (Nat.lt_succ_self _)
  have repeated : bounded (commaRest item) between = .done others final := repeated
  refine ⟨final, ?_, there⟩
  rw [commaSeparated, Machine.bindOf parsed, Machine.bindOf repeated]
  rfl

end Repetition

end Parser

end Offside
