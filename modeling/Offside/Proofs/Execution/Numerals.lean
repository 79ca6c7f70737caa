import Mathlib.Data.Nat.Digits.Defs
import Mathlib.Tactic.Ring
import Offside.Proofs.Execution.Arithmetic
import Offside.Proofs.Execution.Rejected
import Offside.Proofs.Token.Writing

/-! Integers written in decimal. Digits are read as the number that they stand for, however many there
are, as long as it is an integer of the language. The text of an integer is digits with a sign in front
of them if it is negative, and a sign is an operation on what comes behind it: so the text is read back
but for the least integer, whose digits stand for too large a number. -/
namespace Offside

namespace Integer

def decimal (digits : List Char) : Nat :=
  Nat.ofDigits 10 (digits.reverse.map fun c => c.toNat - '0'.toNat)

theorem decimalCons (c : Char) (rest : List Char) :
    decimal (c :: rest) = decimal rest + 10 ^ rest.length * (c.toNat - '0'.toNat) := by
  rw [decimal, decimal, List.map_reverse, List.map_reverse, List.map_cons, Nat.ofDigits_reverse_cons,
    List.length_map]

theorem decimalRead (digits : List Char) : Nat.ofDigitChars 10 digits 0 = decimal digits := by
  induction digits with
  | nil => rfl
  | cons c rest ih =>
    rw [Nat.ofDigitChars_cons, Nat.ofDigitChars_eq_ofDigitChars_zero, ih, decimalCons]
    ring

theorem ofDigitsExact {digits : List Char} (fits : decimal digits ≤ 2 ^ 63 - 1) :
    ∃ word : Int64, word.toInt = decimal digits ∧ ofDigits? digits = some word := by
  cases found : ofDigits? digits with
  | some word =>
    rw [ofDigits?, decimalRead] at found
    exact ⟨word, ofIntExact found, rfl⟩
  | none =>
    rw [ofDigits?, decimalRead, ofIntNone] at found
    omega

theorem ofDigitsTooLarge {digits : List Char} (large : 2 ^ 63 - 1 < decimal digits) :
    ofDigits? digits = none := by
  rw [ofDigits?, decimalRead, ofIntNone]
  omega

theorem decimalDigits (magnitude : Nat) : decimal (Nat.toDigits 10 magnitude) = magnitude := by
  rw [← decimalRead, Nat.ofDigitChars_ten_toDigits]

end Integer

namespace Layout
open Token (Compact)
open Text (Numeral Stops)

variable {digits text : List Char} {word : Int64}

theorem solidParts (compact : Compact text) :
    text.dropWhile isGap = text ∧ Text.isBlank text = false := by
  obtain ⟨-, -, trimmed, solid⟩ := indentedParts compact.first 0
  exact ⟨trimmed, solid⟩

theorem wordsBehindGap (compact : Compact text) (line : Nat) :
    words line ([' '] ++ text) = words line text := by
  obtain ⟨-, -, trimmed, solid⟩ := indentedParts compact.first 1
  rw [List.replicate_one] at trimmed solid
  obtain ⟨same, still⟩ := solidParts compact
  cases scanned : Token.scan text line with
  | error error =>
    rw [wordsFailed still (by rw [same, scanned]), wordsFailed solid (by rw [trimmed, scanned])]
  | ok found =>
    rw [wordsScanned still (by rw [same, scanned]), wordsScanned solid (by rw [trimmed, scanned])]

theorem wordsNumeral (numeral : Numeral digits) (line : Nat)
    (read : Integer.ofDigits? digits = some word) : words line digits = .ok [.number word] := by
  obtain ⟨same, solid⟩ := solidParts (Token.numeralCompact numeral)
  have scanned := Token.scanNumeral numeral (Text.stopsNil _) line read
  rw [List.append_nil] at scanned
  rw [wordsScanned solid (by rw [same, scanned]), wordsBlank Text.blankNil]
  rfl

theorem wordsTooLarge (numeral : Numeral digits) (line : Nat)
    (large : Integer.ofDigits? digits = none) :
    words line digits = .error (.integerTooLarge digits line) := by
  obtain ⟨same, solid⟩ := solidParts (Token.numeralCompact numeral)
  have scanned := Token.scanTooLarge numeral (Text.stopsNil _) line large
  rw [List.append_nil] at scanned
  exact wordsFailed solid (by rw [same, scanned])

theorem signedCompact (numeral : Numeral digits) : Compact ('-' :: digits) :=
  Token.compactSolid (List.cons_ne_nil _ _)
    (List.forall_mem_cons.mpr ⟨by decide, Text.numeralSolid numeral⟩)

theorem wordsSigned (numeral : Numeral digits) (line : Nat) :
    words line ('-' :: digits) = (words line digits).map (.char '-' :: ·) := by
  obtain ⟨same, solid⟩ := solidParts (signedCompact numeral)
  have stops : Stops (· == '=') digits := by
    intro c first
    have digit := numeral.decimal c (List.mem_of_mem_head? first)
    rw [beq_eq_false_iff_ne]
    rintro rfl
    cases digit
  exact wordsScanned solid (by rw [same, Token.scanSymbol line (by decide) stops])

theorem wordsAssigned (compact : Compact text) (line : Nat) :
    words line ("x = ".toList ++ text) =
      (words line text).map (.identifier "x" :: .char '=' :: ·) := by
  have gap : ∀ tail, Token.Parted ([' '] ++ tail) := fun tail c first => by cases first; rfl
  have named : (Token.identifier "x").Writable := by decide
  have marked : (Token.char '=').Writable := by decide
  have name := wordsStep line 0 named (gap ('=' :: [' '] ++ text))
  have mark := wordsStep line 1 marked (gap text)
  rw [wordsBehindGap compact] at mark
  change words line ([' '] ++ ('=' :: [' '] ++ text)) = _ at mark
  rw [mark] at name
  refine name.trans ?_
  cases words line text <;> rfl

theorem tokensOfLine {line : String} (compact : Compact line.toList) :
    (Source.ofString line).tokens = (words 1 line.toList).map (· ++ [.newline, .eof]) := by
  have cut := List.splitOn_eq_singleton compact.oneLine
  obtain ⟨taken, left, -, solid⟩ := indentedParts compact.first 0
  change line.toList.takeWhile (· == ' ') = [] at taken
  change line.toList.dropWhile (· == ' ') = line.toList at left
  change Text.isBlank line.toList = false at solid
  have level : levelOf line.toList = 0 := by rw [levelOf, taken]; rfl
  have plain : ¬ (line.toList.dropWhile (· == ' ')).head? = some '\t' := by
    obtain ⟨c, first, visible⟩ := compact.first
    rw [left, Option.mem_def.mp first, Option.some.injEq]
    rintro rfl
    cases visible
  have whole : ∀ text ∈ [line.toList], text.rdropWhile (· == '\r') = text :=
    List.forall_mem_singleton.mpr (untrimmed compact.last)
  rw [tokensOfLines cut whole]
  simp only [List.map_cons, List.map_nil, tokensFrom, solid, lineTokensPlain plain, level, stepsNone]
  cases words 1 line.toList with
  | error error => rfl
  | ok found => simp [bind, Except.bind, pure, Except.pure, Except.map]

end Layout

section
variable {classes : ClassTable} {dispatch : Dispatch} {state : State}

theorem assignExec {tree : Stmt} {value : Value} (name : String)
    (ran : tree.exec classes dispatch state = .done value state) :
    execBlock classes dispatch [.assign name tree] state =
      .done .none { state with scope := state.scope.insert name value } := by
  rw [execBlock, Stmt.exec, Machine.bindRun, Machine.bindOf ran]
  rfl

theorem oppositeExec {word number : Int64} (opposite : number.toInt = -word.toInt) :
    (Stmt.arithmetic .multiply (.number word) (.number (-1))).exec classes dispatch state =
      .done (.number number) state := by
  let formula : Formula := .operation .multiply (.number word) (.number (-1))
  have value : formula.value = number.toInt := by
    change word.toInt * -1 = number.toInt
    omega
  have faultless : formula.firstFault? = none := by
    rw [Formula.firstFaultOperation]
    change formula.fault? = none
    have inside : Formula.InRange formula.value := by
      rw [value]
      exact Formula.wordRange number
    exact if_pos inside
  have ends := Formula.execFirstFault classes dispatch formula state
  rw [faultless] at ends
  obtain ⟨result, ran, exact⟩ := ends
  rw [value, Int64.toInt_inj] at exact
  rw [← exact]
  exact ran

end

namespace Program
open Grammar

theorem assignTokens {text : String} (compact : Token.Compact text.toList) :
    (Source.ofString ("x = " ++ text)).tokens = (Layout.words 1 text.toList).map fun found =>
      .identifier "x" :: .char '=' :: found ++ [.newline] ++ [.eof] := by
  have name : Token.Compact "x =".toList :=
    ⟨⟨'x', rfl, by decide⟩, ⟨'=', rfl, by decide⟩, by decide⟩
  have whole : ("x = " ++ text).toList = "x = ".toList ++ text.toList := String.toList_append
  have joined : Token.Compact ("x = " ++ text).toList := by
    rw [whole]
    exact name.join compact (by decide)
  rw [Layout.tokensOfLine joined, whole, Layout.wordsAssigned compact]
  cases Layout.words 1 text.toList with
  | error error => rfl
  | ok found => simp [Except.map]

theorem assignParsed {text : String} {tokens : List Token} {tree : Stmt}
    (compact : Token.Compact text.toList) (read : Layout.words 1 text.toList = .ok tokens)
    (derived : Expression .empty .factor tokens tree) :
    ∃ final, parse (.ofString ("x = " ++ text)) = .done ⟨[.assign "x" tree], .empty⟩ final := by
  have loose : Expression .empty .disjunction tokens tree :=
    .ofConjunction (.ofNegation (.ofComparison (.ofSum (.ofProduct (.ofFactor derived)))))
  have assigned : Parses (.identifier "x" :: .char '=' :: tokens ++ [.newline])
      ⟨[.assign "x" tree], .empty⟩ := by
    have simple : Simple .empty (.identifier "x" :: .char '=' :: tokens) (.assign "x" tree) :=
      .assign loose
    have derives := Derives.next (.simple simple) .finished
    rw [List.append_nil] at derives
    exact derives
  refine parseComplete ?_ assigned
  rw [assignTokens compact, read]
  rfl

theorem numeralAssigned {number : Int64} (readable : number.toInt ≠ -2 ^ 63) :
    ∃ tree final, parse (.ofString ("x = " ++ Integer.text number)) =
        .done ⟨[.assign "x" tree], .empty⟩ final ∧
      ∀ classes dispatch state,
        tree.exec classes dispatch state = .done (.number number) state := by
  have numeral := Text.numeralOf number.toInt.natAbs
  have exact := Integer.decimalDigits number.toInt.natAbs
  have range := Formula.wordRange number
  unfold Formula.InRange at range
  have fits : Integer.decimal (Nat.toDigits 10 number.toInt.natAbs) ≤ 2 ^ 63 - 1 := by
    rw [exact]
    omega
  obtain ⟨word, same, read⟩ := Integer.ofDigitsExact fits
  rw [exact] at same
  have found := Layout.wordsNumeral numeral 1 read
  rcases Integer.textDigits number with ⟨positive, text⟩ | ⟨negative, text⟩
  · obtain rfl : word = number := by
      rw [← Int64.toInt_inj]
      omega
    rw [← text] at numeral found
    obtain ⟨final, parsed⟩ := assignParsed (Token.numeralCompact numeral) found (.number word)
    refine ⟨_, final, parsed, fun classes dispatch state => ?_⟩
    rw [Stmt.exec]
    rfl
  · have signed := Layout.wordsSigned numeral 1
    rw [found, ← text] at signed
    have compact := Layout.signedCompact numeral
    rw [← text] at compact
    obtain ⟨final, parsed⟩ := assignParsed compact signed (.opposite (.number word))
    exact ⟨_, final, parsed, fun classes dispatch state => oppositeExec (by omega)⟩

theorem leastRejected : ∃ final, parse (.ofString ("x = " ++ Integer.text Int64.minValue)) =
    .failed (.lexical (.integerTooLarge "9223372036854775808".toList 1)) final := by
  have rejected : (match parse (.ofString ("x = " ++ Integer.text Int64.minValue)) with
      | .failed error _ => some error
      | _ => none) = some (.lexical (.integerTooLarge "9223372036854775808".toList 1)) := by
    decide +kernel
  cases parsed : parse (.ofString ("x = " ++ Integer.text Int64.minValue)) with
  | failed error final =>
    simp only [parsed, Option.some.injEq] at rejected
    exact ⟨final, by rw [rejected]⟩
  | done program final => simp [parsed] at rejected
  | exhausted => simp [parsed] at rejected

end Program

/- The text of an integer, assigned to a variable, is a program that binds the variable to the integer,
except that the least integer has no such program. Digits are read whole: as the number that they stand
for, or as a failure that tells all of them. -/
theorem numeralReadBack (classes : ClassTable) (depth : Nat) (number : Int64) (state : State) :
    (∃ text, (Dispatch.within classes depth).display (.number number) state = .done text state ∧
      (number.toInt ≠ -2 ^ 63 → ∃ program final,
        Program.parse (.ofString ("x = " ++ text)) = .done program final ∧
        ∀ depth state, execBlock program.classes (.within program.classes depth)
            program.statements state =
          .done .none { state with scope := state.scope.insert "x" (.number number) }) ∧
      (number.toInt = -2 ^ 63 → ∀ depth sink, ∃ report,
        interpret depth sink (.ofString ("x = " ++ text)) = some report ∧ report.sink = sink ∧
        report.failure = some (.lexical (.integerTooLarge "9223372036854775808".toList 1)))) ∧
    ∀ digits, Text.Numeral digits → ∀ line rest, Text.Stops Char.isDigit rest →
      (Integer.decimal digits ≤ 2 ^ 63 - 1 → ∃ word : Int64, word.toInt = Integer.decimal digits ∧
        Token.scan (digits ++ rest) line = .ok (.number word, rest) ∧
        (Source.ofString (String.ofList digits)).tokens = .ok [.number word, .newline, .eof]) ∧
      (2 ^ 63 - 1 < Integer.decimal digits →
        Token.scan (digits ++ rest) line = .error (.integerTooLarge digits line) ∧
        (Source.ofString (String.ofList digits)).tokens = .error (.integerTooLarge digits 1)) := by
  constructor
  · refine ⟨Integer.text number, ?_, fun readable => ?_, fun least depth sink => ?_⟩
    · cases depth <;> rfl
    · obtain ⟨tree, final, parsed, evaluated⟩ := Program.numeralAssigned readable
      exact ⟨_, final, parsed, fun depth state => assignExec "x" (evaluated _ _ state)⟩
    · obtain rfl : number = Int64.minValue := Int64.toInt_inj.mp least
      obtain ⟨final, rejected⟩ := Program.leastRejected
      exact ⟨_, Program.interpretRejected rejected depth sink, rfl, rfl⟩
  · intro digits numeral line rest stops
    have whole : (String.ofList digits).toList = digits := String.toList_ofList
    have compact : Token.Compact (String.ofList digits).toList := by
      rw [whole]
      exact Token.numeralCompact numeral
    rw [Layout.tokensOfLine compact, whole]
    constructor
    · intro fits
      obtain ⟨word, exact, read⟩ := Integer.ofDigitsExact fits
      refine ⟨word, exact, Token.scanNumeral numeral stops line read, ?_⟩
      rw [Layout.wordsNumeral numeral 1 read]
      rfl
    · intro large
      have unread := Integer.ofDigitsTooLarge large
      refine ⟨Token.scanTooLarge numeral stops line unread, ?_⟩
      rw [Layout.wordsTooLarge numeral 1 unread]
      rfl

end Offside
