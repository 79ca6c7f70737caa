import Mathlib.Data.List.Chain
import Offside.Proofs.Token.Layout

/-! What a stream of tokens is like, whether the source ends it or a failure. The words of a line and
its end carry the number of that line, counted from one with the blank lines, and come in the order in
which the line alone is read. No indentation is closed right after it was opened. -/
namespace Offside

namespace Token

def isWritten : Token → Bool
  | indent | dedent | eof => false
  | _ => true

theorem scanWritten {text rest : List Char} {line : Nat} {token : Token}
    (scanned : scan text line = .ok (token, rest)) : token.isWritten = true := by
  have solid := scanSolid scanned
  cases token <;> simp_all [isLayout, isWritten]

end Token

namespace Layout

def reading (line : Nat) (text : List Char) : List Token :=
  if Text.isBlank text then [.newline]
  else
    match _ : Token.scan (text.dropWhile isGap) line with
    | .error _ => []
    | .ok (token, rest) => token :: reading line rest
termination_by text.length
decreasing_by
  exact Nat.lt_of_lt_of_le (Token.scanShorter ‹_›) (List.length_dropWhile_le isGap text)

theorem readingBlank {line : Nat} {text : List Char} (blank : Text.isBlank text = true) :
    reading line text = [.newline] := by
  rw [reading, if_pos blank]

theorem readingScanned {line : Nat} {text rest : List Char} {token : Token}
    (solid : Text.isBlank text = false)
    (scanned : Token.scan (text.dropWhile isGap) line = .ok (token, rest)) :
    reading line text = token :: reading line rest := by
  rw [reading, if_neg (by simp [solid])]
  split
  · rename_i failed
    rw [scanned] at failed
    contradiction
  · rename_i found
    rw [scanned] at found
    cases Except.ok.inj found
    rfl

end Layout

namespace TokenStream

def onLine (line : Nat) (lexemes : List Lexeme) : List Token :=
  (lexemes.filter fun lexeme => lexeme.line = line ∧ lexeme.token.isWritten).map (·.token)

theorem onLineWritten (past : List Lexeme) (lexeme : Lexeme) (written : lexeme.token.isWritten = true) :
    onLine lexeme.line (past ++ [lexeme]) = onLine lexeme.line past ++ [lexeme.token] := by
  simp [onLine, written]

theorem onLineUnwritten {past : List Lexeme} {lexeme : Lexeme} (line : Nat)
    (unwritten : lexeme.token.isWritten = false) :
    onLine line (past ++ [lexeme]) = onLine line past := by
  simp [onLine, unwritten]

theorem onLineBeyond {past : List Lexeme} {line : Nat} (behind : ∀ lexeme ∈ past, lexeme.line < line) :
    onLine line past = [] := by
  simp only [onLine, List.map_eq_nil_iff, List.filter_eq_nil_iff]
  intro lexeme member
  have before := behind lexeme member
  simp only [decide_eq_true_eq, not_and]
  omega

def Located (source : Source) (past : List Lexeme) (lexeme : Lexeme) : Prop :=
  lexeme.token.isWritten = true → 0 < lexeme.line ∧ ∃ text,
    source.lines[lexeme.line - 1]? = some (.ok text) ∧
      onLine lexeme.line (past ++ [lexeme]) <+: Layout.reading lexeme.line text

end TokenStream

namespace Lexer
open Layout TokenStream

/- What a lexer has done with a source after it delivered these tokens. A line that it is in reads on
from the cursor as the line does behind what was delivered of it. -/
structure Reached (source : Source) (past : List Lexeme) (lexer : Lexer) : Prop where
  behind : ∀ lexeme ∈ past, lexeme.line ≤ lexer.lineNumber
  ahead : lexer.source.lines = source.lines.drop lexer.lineNumber
  inside : ∀ cursor, lexer.buffer = some cursor → 0 < lexer.lineNumber ∧ ∃ text,
    source.lines[lexer.lineNumber - 1]? = some (.ok text) ∧
      onLine lexer.lineNumber past ++ reading lexer.lineNumber cursor.rest =
        reading lexer.lineNumber text

def Advances (source : Source) (past : List Lexeme) : Except LexError Token × Lexer → Prop
  | (.error _, _) => True
  | (.ok token, after) => ∀ event, Located source past ⟨token, after.lineNumber, event⟩ ∧
      Reached source (past ++ [⟨token, after.lineNumber, event⟩]) after

variable {source : Source} {past : List Lexeme} {lexer after : Lexer} {cursor : Cursor}

theorem Reached.behindNext {lexeme : Lexeme} (reached : Reached source past lexer)
    (here : lexeme.line = lexer.lineNumber) :
    ∀ other ∈ past ++ [lexeme], other.line ≤ lexer.lineNumber := by
  intro other member
  rcases List.mem_append.mp member with earlier | last
  · exact reached.behind other earlier
  · rw [List.mem_singleton.mp last, here]

theorem Reached.step (reached : Reached source past lexer) (token : Token) (level : Nat)
    (unwritten : token.isWritten = false) :
    Advances source past (.ok token, { lexer with level := level }) := by
  intro event
  refine ⟨fun written => absurd (unwritten.symm.trans written) (by decide), ?_, reached.ahead, ?_⟩
  · exact reached.behindNext rfl
  · intro cursor held
    rw [onLineUnwritten _ unwritten]
    exact reached.inside cursor held

theorem scanAtAdvances (reached : Reached source past lexer) (held : lexer.buffer = some cursor)
    (solid : Text.isBlank cursor.rest = false) : Advances source past (lexer.scanAt cursor) := by
  cases scanned : Token.scan (cursor.rest.dropWhile isGap) lexer.lineNumber with
  | error error =>
    rw [scanAtFailed scanned]
    trivial
  | ok found =>
    obtain ⟨token, rest⟩ := found
    rw [scanAtFound scanned]
    intro event
    have written : Token.isWritten token = true := Token.scanWritten scanned
    obtain ⟨counted, text, inText, read⟩ := reached.inside cursor held
    rw [readingScanned solid scanned] at read
    have onward : onLine lexer.lineNumber (past ++ [⟨token, lexer.lineNumber, event⟩]) ++
        reading lexer.lineNumber rest = reading lexer.lineNumber text := by
      rw [onLineWritten past ⟨token, lexer.lineNumber, event⟩ written, List.append_assoc]
      exact read
    refine ⟨fun _ => ⟨counted, text, inText, ⟨_, onward⟩⟩, reached.behindNext rfl, reached.ahead, ?_⟩
    intro moved there
    cases there
    exact ⟨counted, text, inText, onward⟩

theorem settleAdvances (reached : Reached source past lexer) (held : lexer.buffer = some cursor)
    (solid : Text.isBlank cursor.rest = false) : Advances source past (lexer.settle cursor) := by
  unfold settle
  split
  · trivial
  · dsimp only
    split
    · exact reached.step .indent _ rfl
    · split
      · exact reached.step .dedent _ rfl
      · exact scanAtAdvances reached held solid

theorem readLineAdvances (reached : Reached source past lexer) (held : lexer.buffer = some cursor) :
    Advances source past (lexer.readLine cursor) := by
  unfold readLine
  split
  · rename_i blank
    intro event
    obtain ⟨counted, text, inText, read⟩ := reached.inside cursor held
    rw [readingBlank blank] at read
    refine ⟨fun written => ⟨counted, text, inText, ?_⟩, reached.behindNext rfl, reached.ahead, ?_⟩
    · rw [onLineWritten past _ written, read]
    · intro cursor there
      cases there
  · rename_i solid
    have solid : Text.isBlank cursor.rest = false := by simpa using solid
    split
    · exact settleAdvances reached held solid
    · exact scanAtAdvances reached held solid

theorem finishAdvances (reached : Reached source past lexer) :
    Advances source past lexer.finish := by
  unfold finish
  split
  · exact reached.step .eof lexer.level rfl
  · exact reached.step .dedent _ rfl

def Passed (lines : List (Except ReadError (List Char))) (line : Nat) (blanks : List (List Char)) :
    Fetched → Prop
  | .finished read => lines = blanks.map .ok ∧ read = line + blanks.length
  | .failed cause rest read =>
    lines = blanks.map .ok ++ .error cause :: rest.lines ∧ read = line + blanks.length
  | .entered text rest read => Text.isBlank text = false ∧
    lines = blanks.map .ok ++ .ok text :: rest.lines ∧ read = line + blanks.length + 1

theorem fetchPassed {lines : List (Except ReadError (List Char))} {line : Nat} {fetched : Fetched}
    (found : fetchFrom lines line = fetched) : ∃ blanks, Passed lines line blanks fetched := by
  subst found
  induction lines generalizing line with
  | nil => exact ⟨[], rfl, rfl⟩
  | cons head rest ih =>
    cases head with
    | error cause => exact ⟨[], rfl, rfl⟩
    | ok text =>
      by_cases blank : Text.isBlank text = true
      · obtain ⟨blanks, passed⟩ := @ih (line + 1)
        refine ⟨text :: blanks, ?_⟩
        have place : line + 1 + blanks.length = line + (text :: blanks).length := by
          rw [List.length_cons]
          omega
        rw [fetchFrom, if_pos blank]
        cases found : fetchFrom rest (line + 1) with
        | finished | failed =>
          rw [found, Passed, place] at passed
          exact ⟨congrArg _ passed.1, passed.2⟩
        | entered =>
          rw [found, Passed, place] at passed
          exact ⟨passed.1, congrArg _ passed.2.1, passed.2.2⟩
      · refine ⟨[], ?_⟩
        rw [fetchFrom, if_neg blank]
        exact ⟨eq_false_of_ne_true blank, rfl, rfl⟩

theorem fetchFinished {lines : List (Except ReadError (List Char))} {line read : Nat}
    (fetched : fetchFrom lines line = .finished read) : read = line + lines.length := by
  obtain ⟨blanks, rfl, rfl⟩ := fetchPassed fetched
  rw [List.length_map]

theorem fetchEntered {lines : List (Except ReadError (List Char))} {line read : Nat}
    {text : List Char} {rest : Source} (fetched : fetchFrom lines line = .entered text rest read) :
    Text.isBlank text = false ∧ ∃ skipped, read = line + skipped + 1 ∧
      lines[skipped]? = some (.ok text) ∧ rest.lines = lines.drop (skipped + 1) := by
  obtain ⟨blanks, solid, rfl, rfl⟩ := fetchPassed fetched
  refine ⟨solid, blanks.length, rfl, ?_, ?_⟩
  · rw [List.getElem?_append_right (by rw [List.length_map]), List.length_map, Nat.sub_self]
    rfl
  · rw [← @List.length_map _ _ blanks Except.ok, List.drop_length_add_append]
    rfl

theorem readAdvances (reached : Reached source past lexer) : Advances source past lexer.read := by
  unfold read
  cases held : lexer.buffer with
  | some cursor => exact readLineAdvances reached held
  | none =>
    unfold fetch
    cases fetched : fetchFrom lexer.source.lines lexer.lineNumber with
    | finished line =>
      have all := fetchFinished fetched
      refine finishAdvances ⟨?_, ?_, ?_⟩
      · intro lexeme member
        have before := reached.behind lexeme member
        change lexeme.line ≤ line
        omega
      · change [] = source.lines.drop line
        rw [reached.ahead, List.length_drop] at all
        exact (List.drop_eq_nil_of_le (by omega)).symm
      · intro cursor there
        cases there
    | failed cause rest line => trivial
    | entered text rest line =>
      obtain ⟨solid, skipped, count, found, left⟩ := fetchEntered fetched
      rw [reached.ahead] at found left
      refine settleAdvances ⟨?_, ?_, ?_⟩ rfl solid
      · intro lexeme member
        have before := reached.behind lexeme member
        change lexeme.line ≤ line
        omega
      · change rest.lines = source.lines.drop line
        rw [left, List.drop_drop]
        congr 1
        omega
      · intro cursor there
        cases there
        change 0 < line ∧ ∃ text, source.lines[line - 1]? = some (.ok text) ∧
          onLine line past ++ reading line (Cursor.atStart _).rest = reading line text
        refine ⟨by omega, text, ?_, ?_⟩
        · rw [List.getElem?_drop] at found
          rw [← found]
          congr 1
          omega
        · rw [onLineBeyond]
          · rfl
          · intro lexeme member
            have before := reached.behind lexeme member
            omega

theorem nextAdvances (reached : Reached source past lexer) : Advances source past lexer.next := by
  have advanced := readAdvances reached
  unfold next
  cases read : lexer.read with
  | mk answer after =>
    rw [read] at advanced
    cases answer with
    | error error => trivial
    | ok token =>
      intro event
      obtain ⟨located, there⟩ := advanced event
      exact ⟨located, there.behind, there.ahead, there.inside⟩

theorem startReached (source : Source) : Reached source [] (ofSource source) := by
  refine ⟨fun _ member => absurd member List.not_mem_nil, rfl, ?_⟩
  intro cursor held
  cases held

def Rising (lexer : Lexer) : Prop :=
  ∃ cursor, lexer.buffer = some cursor ∧ cursor.done = [] ∧ Text.isBlank cursor.rest = false ∧
    lexer.level ≤ levelOf cursor.rest

variable {token : Token}

theorem scanAtSolid (delivered : lexer.scanAt cursor = (.ok token, after)) :
    token.isLayout = false := by
  cases scanned : Token.scan (cursor.rest.dropWhile isGap) lexer.lineNumber with
  | error error =>
    rw [scanAtFailed scanned] at delivered
    cases delivered
  | ok found =>
    rw [scanAtFound scanned] at delivered
    cases delivered
    exact Token.scanSolid scanned

theorem settleRises (held : lexer.buffer = some cursor) (fresh : cursor.done = [])
    (solid : Text.isBlank cursor.rest = false)
    (delivered : lexer.settle cursor = (.ok .indent, after)) : after.Rising := by
  unfold settle at delivered
  split at delivered
  · cases delivered
  · dsimp only at delivered
    split at delivered
    · rename_i below
      cases delivered
      exact ⟨cursor, held, fresh, solid, below⟩
    · split at delivered
      · cases delivered
      · have solid := scanAtSolid delivered
        contradiction

theorem readRises (delivered : lexer.read = (.ok .indent, after)) : after.Rising := by
  unfold read at delivered
  cases held : lexer.buffer with
  | some cursor =>
    rw [held] at delivered
    dsimp only [readLine] at delivered
    split at delivered
    · cases delivered
    · rename_i solid
      split at delivered
      · rename_i fresh
        exact settleRises held fresh (by simpa using solid) delivered
      · have solid := scanAtSolid delivered
        contradiction
  | none =>
    rw [held] at delivered
    unfold fetch at delivered
    cases fetched : fetchFrom lexer.source.lines lexer.lineNumber with
    | finished line =>
      simp only [fetched, finish] at delivered
      split at delivered <;> cases delivered
    | failed cause rest line =>
      simp only [fetched] at delivered
      cases delivered
    | entered text rest line =>
      simp only [fetched] at delivered
      exact settleRises rfl rfl (fetchEntered fetched).1 delivered

theorem risingStays (rising : lexer.Rising) (delivered : lexer.read = (.ok token, after)) :
    token ≠ .dedent := by
  obtain ⟨cursor, held, fresh, solid, below⟩ := rising
  simp only [read, held, readLine, solid, fresh, settle, Bool.false_eq_true, if_false,
    if_true] at delivered
  split at delivered
  · cases delivered
  · split at delivered
    · cases delivered
      decide
    · have level : ¬ Text.indentation cursor.rest / levelWidth < lexer.level := Nat.not_lt.mpr below
      rw [if_neg level] at delivered
      have solid := scanAtSolid delivered
      rintro rfl
      contradiction

end Lexer

namespace TokenStream
open Lexer

theorem drainLocated {source : Source} {calls : Nat} {lexer : Lexer}
    {past before later : List Lexeme} {lexeme : Lexeme} (reached : Reached source past lexer)
    (split : (drain calls lexer).lexemes = before ++ lexeme :: later) :
    Located source (past ++ before) lexeme := by
  induction calls generalizing lexer past before with
  | zero => simp [drain] at split
  | succ calls ih =>
    have advanced := nextAdvances reached
    unfold drain at split
    cases called : lexer.next with
    | mk answer after =>
      rw [called] at advanced split
      cases answer with
      | error error => simp at split
      | ok token =>
        obtain ⟨located, onward⟩ := advanced lexer.upcoming?
        dsimp only at split
        cases before with
        | nil =>
          have first : lexeme = ⟨token, after.lineNumber, lexer.upcoming?⟩ := by
            split at split <;> exact (List.cons.inj split).1.symm
          rw [first, List.append_nil]
          exact located
        | cons first before =>
          split at split
          · simp at split
          · obtain ⟨same, others⟩ := List.cons.inj split
            have there := ih onward others
            rw [List.append_assoc, same] at there
            exact there

/- The case that the lexer was rising carries the induction from one token to the next. -/
theorem drainTidy (calls : Nat) (lexer : Lexer) :
    ((drain calls lexer).tokens.IsChain fun first second => first = .indent → second ≠ .dedent) ∧
      (lexer.Rising → (drain calls lexer).tokens.head? ≠ some .dedent) := by
  induction calls generalizing lexer with
  | zero => exact ⟨.nil, fun _ => by simp [drain, tokens]⟩
  | succ calls ih =>
    unfold drain Lexer.next
    cases read : lexer.read with
    | mk answer after =>
      cases answer with
      | error error => exact ⟨.nil, fun _ => by simp [tokens]⟩
      | ok token =>
        obtain ⟨apart, start⟩ := ih { after with current := token }
        have stays : lexer.Rising → some token ≠ some .dedent :=
          fun rising same => risingStays rising read (Option.some.inj same)
        dsimp only
        split
        · exact ⟨.singleton _, stays⟩
        · refine ⟨List.isChain_cons.mpr ⟨?_, apart⟩, stays⟩
          rintro second next rfl rfl
          have rising : after.Rising := readRises read
          exact start rising next

theorem sourceLocated {source : Source} {before later : List Lexeme} {lexeme : Lexeme}
    (split : (ofSource source).lexemes = before ++ lexeme :: later) : Located source before lexeme :=
  drainLocated (startReached source) split

end TokenStream

theorem Layout.readingScans {line : Nat} {text : List Char} {token : Token}
    (member : token ∈ reading line text) (written : token.isLayout = false) :
    ∃ part rest, part <:+ text ∧ Token.scan part line = .ok (token, rest) := by
  induction text using reading.induct line with
  | case1 text blank =>
    rw [readingBlank blank] at member
    rw [List.mem_singleton.mp member] at written
    cases written
  | case2 text solid error failed =>
    rw [reading, if_neg solid] at member
    split at member
    · cases member
    · rename_i found
      rw [failed] at found
      cases found
  | case3 text solid first rest scanned ih =>
    have behind : text.dropWhile isGap <:+ text := List.dropWhile_suffix isGap
    rw [readingScanned (by simpa using solid) scanned] at member
    rcases List.mem_cons.mp member with rfl | later
    · exact ⟨_, rest, behind, scanned⟩
    · obtain ⟨part, after, inside, found⟩ := ih later
      obtain ⟨spelling, -, parts⟩ := Token.scanSpelled scanned
      have left : rest <:+ text.dropWhile isGap := ⟨spelling, parts⟩
      exact ⟨part, after, (inside.trans left).trans behind, found⟩

theorem TokenStream.sourceScans {source : Source} {lexeme : Lexeme}
    (member : lexeme ∈ (ofSource source).lexemes) (written : lexeme.token.isLayout = false) :
    ∃ text part rest, .ok text ∈ source.lines ∧ part <:+ text ∧
      Token.scan part lexeme.line = .ok (lexeme.token, rest) := by
  obtain ⟨before, later, split⟩ := List.append_of_mem member
  have solid : lexeme.token.isWritten = true := by
    cases token : lexeme.token <;> simp_all [Token.isLayout, Token.isWritten]
  obtain ⟨-, text, found, read⟩ := sourceLocated split solid
  rw [onLineWritten before lexeme solid] at read
  have listed : lexeme.token ∈ Layout.reading lexeme.line text :=
    read.subset (List.mem_append_right _ List.mem_cons_self)
  obtain ⟨part, rest, inside, scanned⟩ := Layout.readingScans listed written
  exact ⟨text, part, rest, List.mem_of_getElem? found, inside, scanned⟩

end Offside
