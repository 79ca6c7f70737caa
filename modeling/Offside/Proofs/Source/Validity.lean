import Offside.Proofs.Source.Lines

/-! Which bytes are text. Bytes are text as a whole if and only if each of their lines is, because the
byte of a line feed is part of no other character. -/
namespace Offside.Source

def Valid (bytes : List UInt8) : Prop := ByteArray.IsValidUTF8 ⟨bytes.toArray⟩

instance (bytes : List UInt8) : Decidable (Valid bytes) :=
  inferInstanceAs (Decidable (ByteArray.IsValidUTF8 _))

/- The lines of bytes by their line feeds; behind a line feed at the end there is an empty one. -/
def pieces (bytes : List UInt8) : List (List UInt8) := bytes.splitOn 0x0A

theorem encodeAppend (front back : List Char) : encode (front ++ back) = encode front ++ encode back :=
  List.flatMap_append

theorem validEncoded {bytes : List UInt8} : Valid bytes ↔ ∃ text, bytes = encode text := by
  constructor
  · rintro ⟨text, same⟩
    have data := congrArg ByteArray.data same
    rw [List.utf8Encode, List.data_toByteArray] at data
    exact ⟨text, by simpa [encode] using congrArg Array.toList data⟩
  · rintro ⟨text, rfl⟩
    refine ⟨text, ByteArray.ext ?_⟩
    rw [List.utf8Encode, List.data_toByteArray]
    rfl

theorem decodeInvalid {bytes : List UInt8} (invalid : ¬ Valid bytes) :
    decodeLine bytes = .error .invalidText := by
  have undecoded : String.fromUTF8? ⟨bytes.toArray⟩ = none := dif_neg invalid
  rw [decodeLine, undecoded]

theorem decodeValid {bytes : List UInt8} (valid : Valid bytes) :
    ∃ text, decodeLine bytes = .ok text := by
  obtain ⟨text, rfl⟩ := validEncoded.mp valid
  exact ⟨_, decodeEncoded text⟩

theorem decodedWhole {bytes : List UInt8} (valid : Valid bytes) :
    ∃ text, String.fromUTF8? ⟨bytes.toArray⟩ = some text ∧ ofString text = ofBytes bytes := by
  exact ⟨_, dif_pos valid, rfl⟩

theorem encodeSplit {text : List Char} {front back : List UInt8}
    (cut : encode text = front ++ 0x0A :: back) :
    ∃ before behind, front = encode before ∧ back = encode behind := by
  induction text generalizing front with
  | nil => simp [encode] at cut
  | cons c rest ih =>
    change String.utf8EncodeChar c ++ encode rest = _ at cut
    rcases List.append_eq_append_iff.mp cut with ⟨more, rfl, behind⟩ | ⟨more, inside, behind⟩
    · obtain ⟨before, after, rfl, rfl⟩ := ih behind
      exact ⟨c :: before, after, rfl, rfl⟩
    · cases more with
      | nil =>
        obtain ⟨before, after, empty, rfl⟩ := @ih [] behind.symm
        exact ⟨[c], after, by simpa [encode] using inside.symm, rfl⟩
      | cons byte more =>
        rw [List.cons_append, List.cons.injEq] at behind
        obtain ⟨rfl, rfl⟩ := behind
        obtain rfl : c = '\n' := lineFeedByte (by rw [inside]; simp)
        have alone : String.utf8EncodeChar '\n' = [0x0A] := by decide
        rw [alone] at inside
        cases front with
        | nil =>
          obtain rfl : more = [] := by simpa using inside.symm
          exact ⟨[], rest, rfl, rfl⟩
        | cons first others => simp at inside

theorem validJoin (front back : List UInt8) :
    Valid (front ++ 0x0A :: back) ↔ Valid front ∧ Valid back := by
  simp only [validEncoded]
  constructor
  · rintro ⟨text, cut⟩
    obtain ⟨before, behind, rfl, rfl⟩ := encodeSplit cut.symm
    exact ⟨⟨before, rfl⟩, ⟨behind, rfl⟩⟩
  · rintro ⟨⟨before, rfl⟩, ⟨behind, rfl⟩⟩
    exact ⟨before ++ '\n' :: behind, by rw [encodeAppend]; rfl⟩

theorem validJoined {lines : List (List UInt8)} (nonempty : lines ≠ []) :
    Valid ([0x0A].intercalate lines) ↔ ∀ line ∈ lines, Valid line := by
  induction lines with
  | nil => exact absurd rfl nonempty
  | cons line rest ih =>
    cases rest with
    | nil => simp
    | cons next more =>
      have others := ih (List.cons_ne_nil next more)
      rw [List.intercalate_cons_cons, List.append_assoc, List.singleton_append, validJoin, others]
      exact List.forall_mem_cons.symm

theorem validPieces (bytes : List UInt8) : Valid bytes ↔ ∀ piece ∈ pieces bytes, Valid piece := by
  have joined := @validJoined (bytes.splitOn 0x0A) (List.splitOn_ne_nil _ _)
  rwa [List.intercalate_splitOn] at joined

theorem piecesLines (bytes : List UInt8) :
    pieces bytes = splitLines bytes ∨ pieces bytes = splitLines bytes ++ [[]] := by
  unfold pieces
  induction bytes with
  | nil => exact .inr rfl
  | cons byte rest ih =>
    rw [List.splitOn_cons_eq_if_modifyHead, splitLines]
    by_cases feed : byte = 0x0A
    · rw [if_pos feed, if_pos (by simpa using feed)]
      exact ih.imp (congrArg _) (congrArg _)
    · rw [if_neg feed, if_neg (by simpa using feed)]
      cases lines : splitLines rest with
      | nil =>
        rw [lines] at ih
        rcases ih with none | last
        · exact absurd none (List.splitOn_ne_nil _ _)
        · rw [last]
          exact .inl rfl
      | cons line more =>
        rw [lines] at ih
        rcases ih with same | last
        · rw [same]
          exact .inl rfl
        · rw [last]
          exact .inr rfl

theorem linesLength (bytes : List UInt8) : (ofBytes bytes).lines.length ≤ (pieces bytes).length := by
  rw [ofBytes, List.length_map]
  rcases piecesLines bytes with whole | extra
  · rw [whole]
  · rw [extra, List.length_append]
    exact Nat.le_add_right _ _

def FirstInvalid (bytes : List UInt8) (front : List (List UInt8)) : Prop :=
  ∃ line rest, pieces bytes = front ++ line :: rest ∧ (∀ earlier ∈ front, Valid earlier) ∧ ¬ Valid line

theorem invalidFirst (bytes : List UInt8) : ¬ Valid bytes ↔ ∃ front, FirstInvalid bytes front := by
  rw [validPieces]
  constructor
  · intro invalid
    simp only [not_forall] at invalid
    obtain ⟨line, member, broken⟩ := invalid
    have found : ((pieces bytes).find? fun line => ¬ Valid line).isSome :=
      List.find?_isSome.mpr ⟨line, member, by simpa using broken⟩
    obtain ⟨first, same⟩ := Option.isSome_iff_exists.mp found
    obtain ⟨invalid, front, rest, cut, before⟩ := List.find?_eq_some_iff_append.mp same
    refine ⟨front, first, rest, cut, fun earlier member => ?_, by simpa using invalid⟩
    simpa using before earlier member
  · rintro ⟨front, line, rest, cut, -, broken⟩ valid
    exact broken (valid line (by simp [cut]))

def invalidLines (bytes : List UInt8) (count : Nat) : List Nat :=
  ((pieces bytes).take count).findIdxs (fun line => ¬ Valid line) 1

def failures (lines : List (Except ReadError (List Char))) : List Nat :=
  lines.findIdxs (fun line => !line.isOk) 1

theorem decodeOk (bytes : List UInt8) : (decodeLine bytes).isOk = decide (Valid bytes) := by
  by_cases valid : Valid bytes
  · obtain ⟨text, decoded⟩ := decodeValid valid
    rw [decoded, decide_eq_true valid]
    rfl
  · rw [decodeInvalid valid, decide_eq_false valid]
    rfl

theorem failuresInvalid (bytes : List UInt8) (count : Nat) :
    failures ((ofBytes bytes).lines.take count) = invalidLines bytes count := by
  have same : (fun line : Except ReadError (List Char) => !line.isOk) ∘ decodeLine =
      fun line => decide (¬ Valid line) := by
    funext line
    simp [decodeOk]
  rw [failures, ofBytes, ← List.map_take, List.findIdxs_map, same, invalidLines]
  rcases piecesLines bytes with whole | extra
  · rw [whole]
  -- the empty line behind the last line feed is text
  · have empty : Valid [] := validEncoded.mpr ⟨[], rfl⟩
    rw [extra, List.take_append, List.findIdxs_append]
    cases count - (splitLines bytes).length <;> simp [empty]

end Offside.Source
