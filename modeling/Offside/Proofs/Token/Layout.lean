import Offside.Proofs.Source.Lines
import Offside.Proofs.Token.Scan
import Offside.Token.Stream

/-! The tokens of a source, line by line. The layout of a line is settled as a whole: the steps from
the level of the line before it, its words, the end of the line. The lexer, asked for one token
at a time, delivers the same tokens, or fails where the layout fails first. -/
namespace Offside

namespace Layout

def levelOf (text : List Char) : Nat := (text.takeWhile (· == ' ')).length / 2

def isGap (c : Char) : Bool := c == ' ' || c == '\t'

/- Gaps are dropped before the scan, so the text that the scan sees can only be shorter than the
one the blanks were looked for in. -/
def words (line : Nat) (text : List Char) : Except LexError (List Token) :=
  if Text.isBlank text then .ok []
  else
    match _ : Token.scan (text.dropWhile isGap) line with
    | .error error => .error error
    | .ok (token, rest) => do
      let more ← words line rest
      pure (token :: more)
termination_by text.length
decreasing_by
  exact Nat.lt_of_lt_of_le (Token.scanShorter ‹_›) (List.length_dropWhile_le isGap text)

def steps (before after : Nat) : List Token :=
  List.replicate (after - before) .indent ++ List.replicate (before - after) .dedent

def lineTokens (before line : Nat) (text : List Char) : Except LexError (List Token) :=
  if (text.dropWhile (· == ' ')).head? = some '\t' then .error (.tabIndent line)
  else do
    let found ← words line text
    pure (steps before (levelOf text) ++ found ++ [.newline])

def tokensFrom (line before : Nat) :
    List (Except ReadError (List Char)) → Except LexError (List Token)
  | [] => .ok (List.replicate before .dedent ++ [.eof])
  | .error cause :: _ => .error (.unreadable cause (line + 1))
  | .ok text :: rest =>
    if Text.isBlank text then tokensFrom (line + 1) before rest
    else do
      let here ← lineTokens before (line + 1) text
      let more ← tokensFrom (line + 1) (levelOf text) rest
      pure (here ++ more)

def tokens (text : String) : Except LexError (List Token) :=
  tokensFrom 0 0 ((text.toList.splitOn '\n').map fun line => .ok (line.rdropWhile (· == '\r')))

theorem wordsBlank {line : Nat} {text : List Char} (blank : Text.isBlank text = true) :
    words line text = .ok [] := by
  rw [words, if_pos blank]

theorem wordsScanned {line : Nat} {text rest : List Char} {token : Token}
    (solid : Text.isBlank text = false)
    (scanned : Token.scan (text.dropWhile isGap) line = .ok (token, rest)) :
    words line text = (words line rest).map (token :: ·) := by
  rw [words, if_neg (by simp [solid])]
  split
  · rename_i failed
    rw [scanned] at failed
    contradiction
  · rename_i found
    rw [scanned] at found
    cases Except.ok.inj found
    rfl

theorem wordsFailed {line : Nat} {text : List Char} {error : LexError}
    (solid : Text.isBlank text = false)
    (failed : Token.scan (text.dropWhile isGap) line = .error error) :
    words line text = .error error := by
  rw [words, if_neg (by simp [solid])]
  split
  · rename_i found
    rw [failed] at found
    cases Except.error.inj found
    rfl
  · rename_i found
    rw [failed] at found
    contradiction

theorem stepsUp {before after : Nat} (below : before < after) :
    steps before after = .indent :: steps (before + 1) after := by
  have up : after - before = after - (before + 1) + 1 := by omega
  have none : before - after = 0 ∧ before + 1 - after = 0 := by omega
  simp only [steps, up, none.1, none.2, List.replicate_succ, List.cons_append]

theorem stepsDown {before after : Nat} (above : after < before) :
    steps before after = .dedent :: steps (before - 1) after := by
  have down : before - after = before - 1 - after + 1 := by omega
  have none : after - before = 0 ∧ after - (before - 1) = 0 := by omega
  simp only [steps, down, none.1, none.2, List.replicate_succ, List.replicate_zero,
    List.nil_append]

theorem stepsNone (before : Nat) : steps before before = [] := by simp [steps]

theorem lineTokensTab {before line : Nat} {text : List Char}
    (tab : (text.dropWhile (· == ' ')).head? = some '\t') :
    lineTokens before line text = .error (.tabIndent line) := by
  rw [lineTokens, if_pos tab]

theorem lineTokensPlain {before line : Nat} {text : List Char}
    (plain : ¬ (text.dropWhile (· == ' ')).head? = some '\t') :
    lineTokens before line text =
      (words line text).map fun found => steps before (levelOf text) ++ found ++ [.newline] := by
  rw [lineTokens, if_neg plain]
  cases words line text <;> rfl

theorem tokensFromFetched (line before : Nat) (lines : List (Except ReadError (List Char))) :
    match Lexer.fetchFrom lines line with
    | .finished _ => tokensFrom line before lines = tokensFrom line before []
    | .failed cause _ read => tokensFrom line before lines = .error (.unreadable cause (read + 1))
    | .entered text rest read => Text.isBlank text = false ∧
        tokensFrom line before lines = (do
          let here ← lineTokens before read text
          let more ← tokensFrom read (levelOf text) rest.lines
          pure (here ++ more)) := by
  induction lines generalizing line with
  | nil => rfl
  | cons head rest ih =>
    cases head with
    | error cause => rfl
    | ok text =>
      cases blank : Text.isBlank text with
      | true =>
        simp only [Lexer.fetchFrom, tokensFrom, blank, if_true]
        exact ih (line + 1)
      | false => simp [Lexer.fetchFrom, tokensFrom, blank]

theorem tokensFromBlankEnd (line before : Nat) (lines : List (Except ReadError (List Char))) :
    tokensFrom line before (lines ++ [.ok []]) = tokensFrom line before lines := by
  induction lines generalizing line before with
  | nil => rfl
  | cons head rest ih =>
    cases head with
    | error cause => rfl
    | ok text => simp only [List.cons_append, tokensFrom, ih]

end Layout

namespace Lexer
open Layout

def pending (lexer : Lexer) : Except LexError (List Token) :=
  match lexer.buffer with
  | none => tokensFrom lexer.lineNumber lexer.level lexer.source.lines
  | some cursor =>
    if cursor.done = [] ∧ Text.isBlank cursor.rest = false then do
      let here ← lineTokens lexer.level lexer.lineNumber cursor.rest
      let more ← tokensFrom lexer.lineNumber (levelOf cursor.rest) lexer.source.lines
      pure (here ++ more)
    else do
      let found ← words lexer.lineNumber cursor.rest
      let more ← tokensFrom lexer.lineNumber lexer.level lexer.source.lines
      pure (found ++ .newline :: more)

def Delivers (before : Except LexError (List Token)) : Except LexError Token × Lexer → Prop
  | (.error error, _) => before = .error error
  | (.ok token, after) =>
    if token = .eof then before = .ok [.eof] else before = after.pending.map (token :: ·)

theorem scanAtFailed {lexer : Lexer} {cursor : Cursor} {error : LexError}
    (failed : Token.scan (cursor.rest.dropWhile isGap) lexer.lineNumber = .error error) :
    lexer.scanAt cursor = (.error error, lexer) := by
  unfold isGap at failed
  simp only [scanAt, failed]

theorem scanAtFound {lexer : Lexer} {cursor : Cursor} {token : Token} {rest : List Char}
    (scanned : Token.scan (cursor.rest.dropWhile isGap) lexer.lineNumber = .ok (token, rest)) :
    lexer.scanAt cursor = (.ok token, { lexer with buffer := some (cursor.moveTo rest) }) := by
  unfold isGap at scanned
  simp only [scanAt, scanned]

theorem moveToStarted {cursor : Cursor} {token : Token} {rest : List Char} {line : Nat}
    (scanned : Token.scan (cursor.rest.dropWhile isGap) line = .ok (token, rest)) :
    (cursor.moveTo rest).done ≠ [] := by
  have shorter := Nat.lt_of_lt_of_le (Token.scanShorter scanned)
    (List.length_dropWhile_le isGap cursor.rest)
  have taken : (cursor.rest.take (cursor.rest.length - rest.length)).length ≠ 0 := by
    rw [List.length_take]
    omega
  intro empty
  exact taken (List.length_eq_zero_iff.mpr (List.append_eq_nil_iff.mp empty).2)

theorem scanAtDelivers (lexer : Lexer) (cursor : Cursor)
    (solid : Text.isBlank cursor.rest = false) :
    Delivers
      (do
        let found ← words lexer.lineNumber cursor.rest
        let more ← tokensFrom lexer.lineNumber lexer.level lexer.source.lines
        pure (found ++ .newline :: more))
      (lexer.scanAt cursor) := by
  cases scanned : Token.scan (cursor.rest.dropWhile isGap) lexer.lineNumber with
  | error error =>
    rw [scanAtFailed scanned, wordsFailed solid scanned]
    rfl
  | ok found =>
    obtain ⟨token, rest⟩ := found
    have real : token ≠ .eof := by
      have solid := Token.scanSolid scanned
      rintro rfl
      contradiction
    rw [scanAtFound scanned, wordsScanned solid scanned]
    simp only [Delivers, if_neg real, pending, moveToStarted scanned, false_and, if_false]
    change _ = (words lexer.lineNumber rest >>= _).map _
    cases words lexer.lineNumber rest with
    | error error => rfl
    | ok more => cases tokensFrom lexer.lineNumber lexer.level lexer.source.lines <;> rfl

/- A line that has not been started can be entered from the level before it or from any level on
the way: one step fewer is pending then. -/
theorem stepDelivers {lexer : Lexer} {cursor : Cursor} {token : Token} {reached : Nat}
    (held : lexer.buffer = some cursor) (fresh : cursor.done = [])
    (solid : Text.isBlank cursor.rest = false)
    (plain : ¬ (cursor.rest.dropWhile (· == ' ')).head? = some '\t')
    (step : steps lexer.level (levelOf cursor.rest) =
      token :: steps reached (levelOf cursor.rest)) :
    lexer.pending = ({ lexer with level := reached }.pending).map (token :: ·) := by
  simp only [pending, held, fresh, solid, and_self, if_true, lineTokensPlain plain, step]
  cases words lexer.lineNumber cursor.rest with
  | error error => rfl
  | ok found =>
    cases tokensFrom lexer.lineNumber (levelOf cursor.rest) lexer.source.lines <;> rfl

theorem settleDelivers {lexer : Lexer} {cursor : Cursor} (held : lexer.buffer = some cursor)
    (fresh : cursor.done = []) (solid : Text.isBlank cursor.rest = false) :
    Delivers lexer.pending (lexer.settle cursor) := by
  unfold settle
  split
  · rename_i tab
    simp only [Delivers, pending, held, fresh, solid, and_self, if_true, lineTokensTab tab]
    rfl
  · rename_i plain
    dsimp only
    split
    · rename_i below
      exact stepDelivers held fresh solid plain (stepsUp below)
    · split
      · rename_i above
        exact stepDelivers held fresh solid plain (stepsDown above)
      · rename_i low high
        have settled : lexer.level = levelOf cursor.rest :=
          Nat.le_antisymm (Nat.not_lt.mp high) (Nat.not_lt.mp low)
        have started : lexer.pending = (do
            let found ← words lexer.lineNumber cursor.rest
            let more ← tokensFrom lexer.lineNumber lexer.level lexer.source.lines
            pure (found ++ .newline :: more)) := by
          simp only [pending, held, fresh, solid, and_self, if_true, lineTokensPlain plain,
            ← settled, stepsNone]
          cases words lexer.lineNumber cursor.rest with
          | error error => rfl
          | ok found =>
            cases tokensFrom lexer.lineNumber lexer.level lexer.source.lines with
            | error error => rfl
            | ok more =>
              change Except.ok ([] ++ found ++ [Token.newline] ++ more) = _
              simp only [List.nil_append, List.append_assoc, List.singleton_append]
              rfl
        rw [started]
        exact scanAtDelivers lexer cursor solid

theorem readLineDelivers {lexer : Lexer} {cursor : Cursor} (held : lexer.buffer = some cursor) :
    Delivers lexer.pending (lexer.readLine cursor) := by
  unfold readLine
  split
  · rename_i blank
    simp only [Delivers, pending, held, blank, wordsBlank blank, Bool.true_eq_false, and_false,
      if_false]
    cases tokensFrom lexer.lineNumber lexer.level lexer.source.lines <;> rfl
  · rename_i solid
    have solid : Text.isBlank cursor.rest = false := by simpa using solid
    split
    · rename_i fresh
      exact settleDelivers held fresh solid
    · rename_i started
      simp only [pending, held, started, false_and, if_false]
      exact scanAtDelivers lexer cursor solid

theorem finishDelivers {lexer : Lexer} (held : lexer.buffer = none)
    (read : lexer.source.lines = []) : Delivers lexer.pending lexer.finish := by
  unfold finish
  split
  · rename_i bottom
    simp only [Delivers, pending, held, read, tokensFrom, bottom, List.replicate_zero,
      List.nil_append, if_true]
  · rename_i opened
    have deeper : lexer.level = lexer.level - 1 + 1 := by omega
    simp only [Delivers, reduceCtorEq, if_false, pending, held, read, tokensFrom]
    nth_rewrite 1 [deeper]
    rfl

theorem readDelivers (lexer : Lexer) : Delivers lexer.pending lexer.read := by
  unfold read
  cases held : lexer.buffer with
  | some cursor => exact readLineDelivers held
  | none =>
    have found := tokensFromFetched lexer.lineNumber lexer.level lexer.source.lines
    have fresh : lexer.pending = tokensFrom lexer.lineNumber lexer.level lexer.source.lines := by
      simp only [pending, held]
    rw [fresh]
    unfold fetch
    cases fetched : fetchFrom lexer.source.lines lexer.lineNumber with
    | finished read =>
      simp only [fetched] at found
      rw [found]
      have ended : Lexer.buffer { lexer with source := ⟨[]⟩, lineNumber := read } = none := held
      simpa only [pending, held, tokensFrom] using finishDelivers ended rfl
    | failed cause rest read =>
      simp only [fetched] at found
      exact found
    | entered text rest read =>
      simp only [fetched] at found
      obtain ⟨solid, layout⟩ := found
      have entered : Lexer.buffer { lexer with
        source := rest, buffer := some (Cursor.atStart text), lineNumber := read } =
          some (Cursor.atStart text) := rfl
      have settled := settleDelivers entered rfl solid
      simp only [pending, Cursor.atStart, solid, and_self, if_true] at settled
      rw [layout]
      exact settled

theorem nextDelivers (lexer : Lexer) : Delivers lexer.pending lexer.next := by
  have step := readDelivers lexer
  unfold next
  cases read : lexer.read with
  | mk result after =>
    rw [read] at step
    cases result with
    | error error => exact step
    | ok token => exact step

/- The calls that a line can still take. Each level above the present one costs a step up and,
later, a step down. -/
def lineCalls (level : Nat) (cursor : Cursor) : Nat :=
  if cursor.done = [] then
    2 * (levelOf cursor.rest - level) + (cursor.rest.dropWhile isGap).length + 1
  else cursor.rest.length + 1

def callsLeft (lexer : Lexer) : Nat :=
  lexer.source.weight + lexer.level +
    match lexer.buffer with
    | none => 0
    | some cursor => lineCalls lexer.level cursor

theorem indentedLength (text : List Char) :
    2 * levelOf text + (text.dropWhile isGap).length ≤ text.length := by
  have spaces : (text.dropWhile isGap).length ≤ (text.dropWhile (· == ' ')).length := by
    induction text with
    | nil => exact Nat.le_refl _
    | cons c rest ih =>
      by_cases space : c = ' '
      · simpa [List.dropWhile, isGap, space] using ih
      · have whole := List.length_dropWhile_le isGap (c :: rest)
        simpa [List.dropWhile_cons_of_neg, space] using whole
  have parts := congrArg List.length
    (List.takeWhile_append_dropWhile (p := (· == ' ')) (l := text))
  simp only [List.length_append] at parts
  unfold levelOf
  omega

theorem lineCallsFresh (level : Nat) (text : List Char) :
    lineCalls level (Cursor.atStart text) ≤ text.length + 1 := by
  have bound := indentedLength text
  simp only [lineCalls, Cursor.atStart, if_true]
  omega

theorem fetchWeight {lines : List (Except ReadError (List Char))} {line read : Nat}
    {text : List Char} {rest : Source} (fetched : fetchFrom lines line = .entered text rest read) :
    rest.weight + text.length + 1 ≤ Source.weight ⟨lines⟩ := by
  induction lines generalizing line with
  | nil => contradiction
  | cons head tail ih =>
    cases head with
    | error cause => contradiction
    | ok first =>
      have cut : Source.weight ⟨.ok first :: tail⟩ = Source.weight ⟨tail⟩ + (first.length + 1) := rfl
      simp only [fetchFrom] at fetched
      split at fetched
      · have later := ih fetched
        omega
      · cases fetched
        omega

theorem scanAtCalls {lexer after : Lexer} {cursor : Cursor} {token : Token}
    (read : lexer.scanAt cursor = (.ok token, after)) :
    after.callsLeft ≤
      lexer.source.weight + lexer.level + (cursor.rest.dropWhile isGap).length := by
  cases scanned : Token.scan (cursor.rest.dropWhile isGap) lexer.lineNumber with
  | error error =>
    rw [scanAtFailed scanned] at read
    cases read
  | ok found =>
    obtain ⟨token, rest⟩ := found
    have shorter := Token.scanShorter scanned
    rw [scanAtFound scanned] at read
    cases read
    simp only [callsLeft, lineCalls, moveToStarted scanned, if_false]
    change _ + _ + (rest.length + 1) ≤ _
    omega

theorem settleCalls {lexer after : Lexer} {cursor : Cursor} {token : Token}
    (held : lexer.buffer = some cursor) (fresh : cursor.done = [])
    (read : lexer.settle cursor = (.ok token, after)) : after.callsLeft < lexer.callsLeft := by
  have before : lexer.callsLeft = lexer.source.weight + lexer.level +
      (2 * (levelOf cursor.rest - lexer.level) + (cursor.rest.dropWhile isGap).length + 1) := by
    simp only [callsLeft, held, lineCalls, fresh, if_true]
  unfold settle at read
  split at read
  · cases read
  · dsimp only at read
    change (if lexer.level < levelOf cursor.rest then _
      else if levelOf cursor.rest < lexer.level then _ else _) = _ at read
    split at read
    · cases read
      simp only [callsLeft, held, lineCalls, fresh, if_true]
      omega
    · split at read
      · cases read
        simp only [callsLeft, held, lineCalls, fresh, if_true]
        omega
      · have later := scanAtCalls read
        omega

theorem readLineCalls {lexer after : Lexer} {cursor : Cursor} {token : Token}
    (held : lexer.buffer = some cursor)
    (read : lexer.readLine cursor = (.ok token, after)) : after.callsLeft < lexer.callsLeft := by
  unfold readLine at read
  split at read
  · cases read
    simp only [callsLeft, held, lineCalls]
    split <;> omega
  · split at read
    · rename_i fresh
      exact settleCalls held fresh read
    · rename_i started
      have later := scanAtCalls read
      have gaps := List.length_dropWhile_le isGap cursor.rest
      simp only [callsLeft, held, lineCalls, started, if_false] at later ⊢
      omega

theorem readCalls {lexer after : Lexer} {token : Token} (real : token ≠ .eof)
    (read : lexer.read = (.ok token, after)) : after.callsLeft < lexer.callsLeft := by
  unfold Lexer.read at read
  cases held : lexer.buffer with
  | some cursor =>
    rw [held] at read
    exact readLineCalls held read
  | none =>
    have before : lexer.callsLeft = lexer.source.weight + lexer.level := by
      simp only [callsLeft, held, Nat.add_zero]
    rw [held] at read
    unfold fetch at read
    cases fetched : fetchFrom lexer.source.lines lexer.lineNumber with
    | finished line =>
      simp only [fetched, finish] at read
      split at read
      · cases read
        exact absurd rfl real
      · cases read
        simp only [callsLeft, Source.weight, List.foldr_nil] at before ⊢
        omega
    | failed cause rest line =>
      simp only [fetched] at read
      cases read
    | entered text rest line =>
      simp only [fetched] at read
      have weight : rest.weight + text.length + 1 ≤ lexer.source.weight := fetchWeight fetched
      have bound := lineCallsFresh lexer.level text
      have later := settleCalls rfl rfl read
      simp only [callsLeft] at later before ⊢
      omega

theorem nextCalls {lexer after : Lexer} {token : Token} (real : token ≠ .eof)
    (called : lexer.next = (.ok token, after)) : after.callsLeft < lexer.callsLeft := by
  unfold Lexer.next at called
  cases read : lexer.read with
  | mk answer inside =>
    rw [read] at called
    cases answer with
    | error error => cases called
    | ok delivered =>
      cases called
      have fewer := readCalls real read
      exact fewer

theorem startCalls (source : Source) : (ofSource source).callsLeft < source.weight + 1 := by
  change source.weight + 0 + 0 < source.weight + 1
  omega

end Lexer

namespace TokenStream
open Lexer

def result (stream : TokenStream) : Except LexError (List Token) :=
  match stream.failure with
  | some failure => .error failure.error
  | none => .ok stream.tokens

theorem drainPending (calls : Nat) (lexer : Lexer) (enough : lexer.callsLeft < calls) :
    (drain calls lexer).result = lexer.pending := by
  induction calls generalizing lexer with
  | zero => contradiction
  | succ calls ih =>
    have step := nextDelivers lexer
    unfold Lexer.next at step
    unfold drain Lexer.next
    cases read : lexer.read with
    | mk answer after =>
      rw [read] at step
      cases answer with
      | error error => exact step.symm
      | ok token =>
        by_cases last : token = .eof
        · simp only [Delivers, last, if_true] at step
          simp only [last, if_true, step]
          rfl
        -- a call that is not the last one leaves fewer to come, so the bound goes on to hold
        · have fewer := readCalls last read
          have rest := ih { after with current := token } (by
            change after.callsLeft < calls
            omega)
          simp only [Delivers, last, if_false] at step
          simp only [last, if_false, step, ← rest, result]
          cases (drain calls { after with current := token }).failure <;> rfl

theorem resultOfSource (source : Source) :
    (ofSource source).result = Layout.tokensFrom 0 0 source.lines :=
  drainPending _ _ (startCalls source)

end TokenStream

theorem Source.tokensLayout (source : Source) :
    source.tokens = Layout.tokensFrom 0 0 source.lines :=
  TokenStream.resultOfSource source

theorem Layout.tokensByLine (text : String) : (Source.ofString text).tokens = tokens text := by
  rw [Source.tokensLayout, tokens]
  rcases Source.ofStringLines text with whole | extra
  · rw [whole]
  · rw [extra, tokensFromBlankEnd]

end Offside
