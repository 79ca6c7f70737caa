import Mathlib.Logic.Function.Iterate
import Offside.Proofs.Token.Stream

/-! A lexer that is called again and again, also after a failure and after the end of the source. What
one call can do is said once. At any time the level is what the tokens delivered so far make of it, a
word or the end of a line is delivered at the level of its line, and the place in the line says whether
a word of it has been delivered. -/
namespace Offside

namespace Lexer
open Layout

/- In front of what is left of a line: the line that is being read, or the next one that is not
blank. -/
inductive Enters (lexer : Lexer) : Lexer → Cursor → Prop where
  | held {cursor : Cursor} (held : lexer.buffer = some cursor)
      (solid : Text.isBlank cursor.rest = false) : Enters lexer lexer cursor
  | fetched {text : List Char} {rest : Source} {line : Nat} (free : lexer.buffer = none)
      (found : lexer.fetch = .entered text rest line) :
      Enters lexer { lexer with source := rest, buffer := some (.atStart text), lineNumber := line }
        (.atStart text)

structure Settled (level : Nat) (text : List Char) : Prop where
  plain : ¬ (Text.dropSpaces text).head? = some '\t'
  level : level = levelOf text

inductive Step (lexer : Lexer) : Except LexError Token × Lexer → Prop where
  | lineEnd {cursor : Cursor} (held : lexer.buffer = some cursor)
      (blank : Text.isBlank cursor.rest = true) :
      Step lexer (.ok .newline, { lexer with buffer := none, current := .newline })
  | tab {inside : Lexer} {cursor : Cursor} (enters : lexer.Enters inside cursor)
      (fresh : cursor.done = []) (tab : (Text.dropSpaces cursor.rest).head? = some '\t') :
      Step lexer (.error (.tabIndent inside.lineNumber), inside)
  | up {inside : Lexer} {cursor : Cursor} (enters : lexer.Enters inside cursor)
      (fresh : cursor.done = []) (below : inside.level < levelOf cursor.rest) :
      Step lexer (.ok .indent, { inside with level := inside.level + 1, current := .indent })
  | down {inside : Lexer} {cursor : Cursor} (enters : lexer.Enters inside cursor)
      (fresh : cursor.done = []) (above : levelOf cursor.rest < inside.level) :
      Step lexer (.ok .dedent, { inside with level := inside.level - 1, current := .dedent })
  | word {inside : Lexer} {cursor : Cursor} {token : Token} {rest : List Char}
      (enters : lexer.Enters inside cursor)
      (settled : cursor.done = [] → Settled inside.level cursor.rest)
      (scanned : Token.scan (cursor.rest.dropWhile isGap) inside.lineNumber = .ok (token, rest)) :
      Step lexer (.ok token, { inside with buffer := some (cursor.moveTo rest), current := token })
  | stuck {inside : Lexer} {cursor : Cursor} {error : LexError}
      (enters : lexer.Enters inside cursor)
      (settled : cursor.done = [] → Settled inside.level cursor.rest)
      (failed : Token.scan (cursor.rest.dropWhile isGap) inside.lineNumber = .error error) :
      Step lexer (.error error, inside)
  | unreadable {cause : ReadError} {rest : Source} {line : Nat} (free : lexer.buffer = none)
      (found : lexer.fetch = .failed cause rest line) :
      Step lexer (.error (.unreadable cause (line + 1)),
        { lexer with source := rest, buffer := none, lineNumber := line })
  | close {line : Nat} (free : lexer.buffer = none) (found : lexer.fetch = .finished line)
      (opened : lexer.level ≠ 0) :
      Step lexer (.ok .dedent, { lexer with
        source := ⟨[]⟩, buffer := none, lineNumber := line, level := lexer.level - 1
        current := .dedent })
  | ended {line : Nat} (free : lexer.buffer = none) (found : lexer.fetch = .finished line)
      (bottom : lexer.level = 0) :
      Step lexer (.ok .eof, { lexer with
        source := ⟨[]⟩, buffer := none, lineNumber := line, current := .eof })

def deliver : Except LexError Token × Lexer → Except LexError Token × Lexer
  | (.ok token, after) => (.ok token, { after with current := token })
  | (.error error, after) => (.error error, after)

variable {lexer inside : Lexer} {cursor : Cursor}

theorem scanAtStep (enters : lexer.Enters inside cursor)
    (settled : cursor.done = [] → Settled inside.level cursor.rest) :
    Step lexer (deliver (inside.scanAt cursor)) := by
  cases scanned : Token.scan (cursor.rest.dropWhile isGap) inside.lineNumber with
  | error error =>
    rw [scanAtFailed scanned]
    exact .stuck enters settled scanned
  | ok found =>
    obtain ⟨token, rest⟩ := found
    rw [scanAtFound scanned]
    exact @Step.word lexer inside cursor token rest enters settled scanned

theorem settleStep (enters : lexer.Enters inside cursor) (fresh : cursor.done = []) :
    Step lexer (deliver (inside.settle cursor)) := by
  unfold settle
  split
  · rename_i tab
    exact .tab enters fresh tab
  · rename_i plain
    dsimp only
    split
    · rename_i below
      exact .up enters fresh below
    · rename_i low
      split
      · rename_i above
        exact .down enters fresh above
      · rename_i high
        have level : inside.level = levelOf cursor.rest :=
          Nat.le_antisymm (Nat.not_lt.mp high) (Nat.not_lt.mp low)
        exact scanAtStep enters fun _ => ⟨plain, level⟩

theorem nextStep (lexer : Lexer) : Step lexer lexer.next := by
  change Step lexer (deliver lexer.read)
  unfold read
  cases held : lexer.buffer with
  | some cursor =>
    dsimp only [readLine]
    split
    · rename_i blank
      exact .lineEnd held blank
    · rename_i solid
      have enters : lexer.Enters lexer cursor := .held held (by simpa using solid)
      split
      · rename_i fresh
        exact settleStep enters fresh
      · rename_i started
        exact scanAtStep enters fun fresh => absurd fresh started
  | none =>
    cases fetched : lexer.fetch with
    | finished line =>
      dsimp only [finish]
      split
      · rename_i bottom
        exact .ended held fetched bottom
      · rename_i opened
        exact .close held fetched opened
    | failed cause rest line => exact .unreadable held fetched
    | entered text rest line => exact settleStep (.fetched held fetched) rfl

def afterCalls (lexer : Lexer) (count : Nat) : Lexer := (fun lexer => lexer.next.2)^[count] lexer

def call (lexer : Lexer) (before : Nat) : Except LexError Token × Lexer :=
  (lexer.afterCalls before).next

def calls (lexer : Lexer) (count : Nat) : List (Except LexError Token × Lexer) :=
  (List.range count).map lexer.call

theorem afterSucc (lexer : Lexer) (count : Nat) :
    lexer.afterCalls (count + 1) = (lexer.call count).2 :=
  Function.iterate_succ_apply' _ count lexer

theorem callsSucc (lexer : Lexer) (count : Nat) :
    lexer.calls (count + 1) = lexer.calls count ++ [lexer.call count] := by
  rw [calls, List.range_succ, List.map_append]
  rfl

theorem startCall (source : Source) :
    start source = ((ofSource source).call 0).1.map fun _ => (ofSource source).afterCalls 1 := by
  rw [afterSucc]
  change (match (ofSource source).next with
    | (.ok _, lexer) => Except.ok lexer
    | (.error error, _) => .error error) = (ofSource source).next.1.map fun _ => _
  cases called : (ofSource source).next with
  | mk answer after =>
    have left : ((ofSource source).call 0).2 = after := congrArg Prod.snd called
    cases answer with
    | error error => rfl
    | ok token => rw [left]; rfl

def delivered (past : List (Except LexError Token × Lexer)) : List Token :=
  past.filterMap fun call => call.1.toOption

theorem deliveredNext (past : List (Except LexError Token × Lexer))
    (call : Except LexError Token × Lexer) :
    delivered (past ++ [call]) = delivered past ++ call.1.toOption.toList := by
  rw [delivered, List.filterMap_append]
  cases found : call.1.toOption <;> simp [delivered, found]

def linesTaken (source : Source) (lexer : Lexer) : Nat :=
  source.lines.length - lexer.source.lines.length

def lineTaken? (source : Source) (lexer : Lexer) : Option (Except ReadError (List Char)) :=
  (source.lines.take (lexer.linesTaken source)).getLast?

def wordsOn (source : Source) (line : Nat) (past : List (Except LexError Token × Lexer)) :
    List Token :=
  (delivered (past.filter fun call => call.2.linesTaken source = line)).filter (!·.isLayout)

def bufferText (lexer : Lexer) : List Char :=
  match lexer.buffer with
  | some cursor => cursor.line
  | none => []

def position (lexer : Lexer) : Nat :=
  match lexer.buffer with
  | some cursor => (String.ofList cursor.done).utf8ByteSize
  | none => 0

structure InLine (source : Source) (past : List (Except LexError Token × Lexer)) (lexer : Lexer)
    (cursor : Cursor) : Prop where
  line : lexer.lineTaken? source = some (.ok cursor.line)
  solid : Text.isBlank cursor.line = false
  level : cursor.done ≠ [] → lexer.level = levelOf cursor.line
  words : cursor.done = [] ↔ wordsOn source (lexer.linesTaken source) past = []

/- What holds of a lexer that was started on the source and has been called as `past` says. -/
structure Tracks (source : Source) (past : List (Except LexError Token × Lexer)) (lexer : Lexer) :
    Prop where
  balance : lexer.level + (delivered past).count .dedent = (delivered past).count .indent
  ahead : lexer.source.lines <:+ source.lines
  behind : ∀ call ∈ past, call.2.linesTaken source ≤ lexer.linesTaken source
  inside : ∀ cursor, lexer.buffer = some cursor → InLine source past lexer cursor

theorem lineTakenAt {source : Source} {front : List (Except ReadError (List Char))}
    (split : source.lines = front ++ lexer.source.lines) :
    lexer.linesTaken source = front.length ∧ lexer.lineTaken? source = front.getLast? := by
  have count : lexer.linesTaken source = front.length := by
    rw [linesTaken, split, List.length_append, Nat.add_sub_cancel_right]
  refine ⟨count, ?_⟩
  rw [lineTaken?, count, split, List.take_left]

theorem linesTakenLater {source : Source} {after : Lexer}
    (later : after.source.lines <:+ lexer.source.lines) :
    lexer.linesTaken source ≤ after.linesTaken source :=
  Nat.sub_le_sub_left later.length_le _

theorem fetchFailed {lines : List (Except ReadError (List Char))} {line read : Nat}
    {cause : ReadError} {rest : Source} (fetched : fetchFrom lines line = .failed cause rest read) :
    ∃ skipped, rest.lines = lines.drop (skipped + 1) ∧ skipped < lines.length := by
  obtain ⟨blanks, rfl, rfl⟩ := fetchPassed fetched
  refine ⟨blanks.length, ?_, ?_⟩
  · rw [← @List.length_map _ _ blanks Except.ok, List.drop_length_add_append]
    rfl
  · rw [List.length_append, List.length_map, List.length_cons]
    omega

theorem wordsOnNext (source : Source) (line : Nat) (past : List (Except LexError Token × Lexer))
    (call : Except LexError Token × Lexer) :
    wordsOn source line (past ++ [call]) =
      wordsOn source line past ++
        if call.2.linesTaken source = line then call.1.toOption.toList.filter (!·.isLayout)
        else [] := by
  rw [wordsOn, List.filter_append]
  by_cases here : call.2.linesTaken source = line
  · simp only [here, decide_true, List.filter_cons_of_pos, List.filter_nil, if_true, deliveredNext,
      List.filter_append, wordsOn]
  · simp [here, wordsOn]

theorem wordsOnBeyond {source : Source} {past : List (Except LexError Token × Lexer)} {line : Nat}
    (behind : ∀ call ∈ past, call.2.linesTaken source < line) : wordsOn source line past = [] := by
  have none : past.filter (fun call => call.2.linesTaken source = line) = [] := by
    simp only [List.filter_eq_nil_iff, decide_eq_true_eq]
    exact fun call member => Nat.ne_of_lt (behind call member)
  rw [wordsOn, none]
  rfl

section Tracking

variable {source : Source} {past : List (Except LexError Token × Lexer)}

theorem Enters.tracks (enters : lexer.Enters inside cursor) (tracks : Tracks source past lexer) :
    Tracks source past inside ∧ InLine source past inside cursor ∧ inside.buffer = some cursor := by
  cases enters with
  | held held solid => exact ⟨tracks, tracks.inside cursor held, held⟩
  | @fetched text rest line free found =>
    obtain ⟨solid, skipped, -, here, left⟩ := fetchEntered found
    obtain ⟨front, split⟩ := tracks.ahead
    have bound : skipped < lexer.source.lines.length := (List.getElem?_eq_some_iff.mp here).1
    have cut : lexer.source.lines = lexer.source.lines.take skipped ++ .ok text :: rest.lines := by
      rw [left, ← (List.getElem?_eq_some_iff.mp here).2, ← List.drop_eq_getElem_cons bound,
        List.take_append_drop]
    have whole : source.lines =
        (front ++ lexer.source.lines.take skipped ++ [.ok text]) ++ rest.lines := by
      rw [← split]
      nth_rewrite 1 [cut]
      simp
    have taken := @lineTakenAt
      { lexer with source := rest, buffer := some (.atStart text), lineNumber := line } source _ whole
    have before := (lineTakenAt split.symm).1
    have grown : ∀ call ∈ past, call.2.linesTaken source <
        linesTaken source
          { lexer with source := rest, buffer := some (.atStart text), lineNumber := line } := by
      intro call member
      have earlier := tracks.behind call member
      rw [taken.1]
      simp only [List.length_append, List.length_singleton]
      omega
    have inLine : InLine source past
        { lexer with source := rest, buffer := some (.atStart text), lineNumber := line }
        (.atStart text) := by
      refine ⟨?_, solid, fun started => absurd rfl started, ?_⟩
      · rw [taken.2]
        simp [Cursor.atStart, Cursor.line]
      · exact iff_of_true rfl (wordsOnBeyond grown)
    refine ⟨⟨tracks.balance, ⟨_, whole.symm⟩, fun call member => Nat.le_of_lt (grown call member), ?_⟩,
      inLine, rfl⟩
    intro cursor held
    cases held
    exact inLine

theorem Tracks.called {after : Lexer} {answer : Except LexError Token}
    (tracks : Tracks source past inside)
    (later : after.source.lines <:+ inside.source.lines)
    (balance : after.level + answer.toOption.toList.count .dedent =
      inside.level + answer.toOption.toList.count .indent)
    (inLine : ∀ cursor, after.buffer = some cursor →
      InLine source (past ++ [(answer, after)]) after cursor) :
    Tracks source (past ++ [(answer, after)]) after := by
  refine ⟨?_, later.trans tracks.ahead, ?_, inLine⟩
  · have before := tracks.balance
    rw [deliveredNext, List.count_append, List.count_append]
    dsimp only
    omega
  · intro call member
    rcases List.mem_append.mp member with earlier | last
    · exact Nat.le_trans (tracks.behind call earlier) (linesTakenLater later)
    · rw [List.mem_singleton.mp last]

theorem InLine.called {after : Lexer} {answer : Except LexError Token}
    (inLine : InLine source past inside cursor) (same : after.source = inside.source)
    (plain : answer.toOption.toList.filter (!·.isLayout) = [])
    (level : cursor.done ≠ [] → after.level = inside.level) :
    InLine source (past ++ [(answer, after)]) after cursor := by
  have taken : after.linesTaken source = inside.linesTaken source := by
    rw [linesTaken, linesTaken, same]
  refine ⟨?_, inLine.solid, fun started => (level started).trans (inLine.level started), ?_⟩
  · rw [lineTaken?, taken]
    exact inLine.line
  · rw [wordsOnNext, plain, taken, inLine.words]
    simp

theorem moveToLine {token : Token} {rest : List Char} {line : Nat}
    (scanned : Token.scan (cursor.rest.dropWhile isGap) line = .ok (token, rest)) :
    (cursor.moveTo rest).line = cursor.line := by
  obtain ⟨spelling, -, spelled⟩ := Token.scanSpelled scanned
  have left : cursor.rest = cursor.rest.takeWhile isGap ++ spelling ++ rest := by
    rw [List.append_assoc, spelled, List.takeWhile_append_dropWhile]
  generalize cursor.rest.takeWhile isGap ++ spelling = front at left
  simp only [Cursor.line, Cursor.moveTo, left, List.length_append, Nat.add_sub_cancel, List.take_left,
    List.append_assoc]

theorem InLine.settledLevel (inLine : InLine source past inside cursor)
    (settled : cursor.done = [] → Settled inside.level cursor.rest) :
    inside.level = levelOf cursor.line := by
  by_cases fresh : cursor.done = []
  · rw [Cursor.line, fresh]
    exact (settled fresh).level
  · exact inLine.level fresh

theorem InLine.word {token : Token} {rest : List Char} (inLine : InLine source past inside cursor)
    (settled : cursor.done = [] → Settled inside.level cursor.rest)
    (scanned : Token.scan (cursor.rest.dropWhile isGap) inside.lineNumber = .ok (token, rest)) :
    InLine source
      (past ++ [(.ok token, { inside with buffer := some (cursor.moveTo rest), current := token })])
      { inside with buffer := some (cursor.moveTo rest), current := token } (cursor.moveTo rest) := by
  have kept := moveToLine scanned
  refine ⟨by rw [kept]; exact inLine.line, by rw [kept]; exact inLine.solid, fun _ => ?_, ?_⟩
  · rw [kept]
    exact inLine.settledLevel settled
  · refine iff_of_false (moveToStarted scanned) ?_
    have word := Token.scanSolid scanned
    rw [wordsOnNext]
    simp [Except.toOption, word]

theorem Tracks.step {outcome : Except LexError Token × Lexer} (tracks : Tracks source past lexer)
    (step : Step lexer outcome) : Tracks source (past ++ [outcome]) outcome.2 := by
  cases step with
  | lineEnd held blank =>
    refine tracks.called List.suffix_rfl rfl fun cursor there => ?_
    cases there
  | tab enters fresh tab =>
    obtain ⟨there, inLine, held⟩ := enters.tracks tracks
    refine there.called List.suffix_rfl rfl fun cursor same => ?_
    rw [held] at same
    cases same
    exact inLine.called rfl rfl fun _ => rfl
  | up enters fresh below =>
    obtain ⟨there, inLine, held⟩ := enters.tracks tracks
    refine there.called List.suffix_rfl rfl fun cursor same => ?_
    rw [held] at same
    cases same
    exact inLine.called rfl rfl fun started => absurd fresh started
  | down enters fresh above =>
    obtain ⟨there, inLine, held⟩ := enters.tracks tracks
    refine there.called List.suffix_rfl (Nat.sub_add_cancel (Nat.zero_lt_of_lt above)) ?_
    intro cursor same
    rw [held] at same
    cases same
    exact inLine.called rfl rfl fun started => absurd fresh started
  | @word inside cursor token rest enters settled scanned =>
    obtain ⟨there, inLine, held⟩ := enters.tracks tracks
    refine there.called List.suffix_rfl ?_ fun cursor same => ?_
    · have solid := Token.scanSolid scanned
      cases token with
      | indent | dedent => cases solid
      | _ => rfl
    · cases same
      exact inLine.word settled scanned
  | stuck enters settled failed =>
    obtain ⟨there, inLine, held⟩ := enters.tracks tracks
    refine there.called List.suffix_rfl rfl fun cursor same => ?_
    rw [held] at same
    cases same
    exact inLine.called rfl rfl fun _ => rfl
  | unreadable free found =>
    obtain ⟨skipped, left, -⟩ := fetchFailed found
    refine tracks.called (left ▸ List.drop_suffix _ _) rfl fun cursor there => ?_
    cases there
  | close free found opened =>
    refine tracks.called (List.nil_suffix) (Nat.sub_add_cancel (Nat.pos_of_ne_zero opened)) ?_
    intro cursor there
    cases there
  | ended free found bottom =>
    refine tracks.called (List.nil_suffix) rfl fun cursor there => ?_
    cases there

theorem tracksCalls (source : Source) (count : Nat) :
    Tracks source ((ofSource source).calls count) ((ofSource source).afterCalls count) := by
  induction count with
  | zero =>
    refine ⟨rfl, List.suffix_rfl, fun call none => absurd none List.not_mem_nil, fun cursor held => ?_⟩
    cases held
  | succ count ih =>
    rw [callsSucc, afterSucc]
    exact ih.step (nextStep _)

/-- What an answer says of the lexer that it leaves: the end of the source comes at the lowest level,
words and line ends at the level of their line, and a failure changes no current token. -/
def Answers (source : Source) (lexer : Lexer) : Except LexError Token × Lexer → Prop
  | (.ok token, after) =>
    (token = .eof → after.level = 0) ∧
      (token = .newline ∨ token.isLayout = false → ∃ text,
        after.lineTaken? source = some (.ok text) ∧ after.level = levelOf text)
  | (.error _, after) => after.current = lexer.current

theorem Enters.current (enters : lexer.Enters inside cursor) : inside.current = lexer.current := by
  cases enters <;> rfl

theorem Tracks.answers {outcome : Except LexError Token × Lexer} (tracks : Tracks source past lexer)
    (step : Step lexer outcome) : Answers source lexer outcome := by
  cases step with
  | @lineEnd cursor held blank =>
    refine ⟨fun none => (by cases none), fun _ => ?_⟩
    have inLine := tracks.inside cursor held
    -- the line is not blank and what is left of it is, so a word of it has been delivered
    have started : cursor.done ≠ [] := by
      intro fresh
      have solid := inLine.solid
      rw [Cursor.line, fresh, List.nil_append, blank] at solid
      cases solid
    exact ⟨cursor.line, inLine.line, inLine.level started⟩
  | tab enters | stuck enters => exact enters.current
  | up | down | close =>
    refine ⟨fun none => (by cases none), fun word => ?_⟩
    rcases word with none | none <;> cases none
  | @word inside cursor token rest enters settled scanned =>
    obtain ⟨-, inLine, -⟩ := enters.tracks tracks
    refine ⟨?_, fun _ => ⟨cursor.line, inLine.line, inLine.settledLevel settled⟩⟩
    rintro rfl
    cases Token.scanSolid scanned
  | unreadable => rfl
  | ended free found bottom =>
    refine ⟨fun _ => bottom, fun word => ?_⟩
    rcases word with none | none <;> cases none

end Tracking

theorem positionZero (lexer : Lexer) :
    lexer.position = 0 ↔ ∀ cursor, lexer.buffer = some cursor → cursor.done = [] := by
  unfold position
  cases lexer.buffer with
  | none => simp
  | some cursor => simp [String.utf8ByteSize_eq_zero_iff]

theorem positionValid (lexer : Lexer) :
    String.Pos.Raw.IsValid (String.ofList lexer.bufferText) ⟨lexer.position⟩ := by
  rw [String.Pos.Raw.isValid_iff_exists_append]
  unfold bufferText position
  cases lexer.buffer with
  | none => exact ⟨"", "", rfl, rfl⟩
  | some cursor =>
    exact ⟨String.ofList cursor.done, String.ofList cursor.rest, String.ofList_append, rfl⟩

theorem callsKeepLayout (source : Source) (count : Nat) :
    let lexer := (ofSource source).afterCalls count
    let past := (ofSource source).calls count
    start source = ((ofSource source).call 0).1.map (fun _ => (ofSource source).afterCalls 1) ∧
    lexer.level + (delivered past).count .dedent = (delivered past).count .indent ∧
    Answers source lexer lexer.next ∧
    (lexer.position = 0 ↔
      lexer.buffer = none ∨ wordsOn source (lexer.linesTaken source) past = []) ∧
    (lexer.buffer = none ∨ lexer.lineTaken? source = some (.ok lexer.bufferText)) ∧
    String.Pos.Raw.IsValid (String.ofList lexer.bufferText) ⟨lexer.position⟩ := by
  intro lexer past
  have tracks : Tracks source past lexer := tracksCalls source count
  refine ⟨startCall source, tracks.balance, tracks.answers (nextStep lexer), ?_, ?_,
    positionValid lexer⟩
  · rw [positionZero]
    cases held : lexer.buffer with
    | none => simp
    | some cursor => simpa using (tracks.inside cursor held).words
  · cases held : lexer.buffer with
    | none => exact .inl rfl
    | some cursor =>
      refine .inr ?_
      rw [(tracks.inside cursor held).line, bufferText, held]

end Lexer

end Offside
