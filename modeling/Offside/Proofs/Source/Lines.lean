import Mathlib.Data.List.DropRight
import Offside.Source

/-! The lines of a text. Bytes are cut into lines before they are decoded; on the bytes of a text this
gives the lines of its characters, because no character but the line feed has the byte of a line
feed in its encoding. -/
namespace Offside.Source

def encode (text : List Char) : List UInt8 := text.flatMap String.utf8EncodeChar

theorem lineFeedByte {c : Char} (member : 0x0A ∈ String.utf8EncodeChar c) : c = '\n' := by
  have code : c.val.toNat = 10 := by
    simp only [String.utf8EncodeChar] at member
    split at member
    · have code : c.val.toNat = c.toNat := rfl
      simp [← UInt8.toNat_inj] at member
      omega
    -- a character of more than one byte has the high bit set in all of them
    · split at member
      · simp [← UInt8.toNat_inj] at member
        omega
      · split at member <;> simp [← UInt8.toNat_inj] at member <;> omega
  exact Char.ext (UInt32.toNat_inj.mp code)

def prepend (bytes : List UInt8) : List (List UInt8) → List (List UInt8)
  | [] => [bytes]
  | line :: more => (bytes ++ line) :: more

theorem splitLinesPrepend {bytes : List UInt8} (nonempty : bytes ≠ [])
    (plain : 0x0A ∉ bytes) (rest : List UInt8) :
    splitLines (bytes ++ rest) = prepend bytes (splitLines rest) := by
  induction bytes with
  | nil => contradiction
  | cons byte tail ih =>
    simp only [List.mem_cons, not_or] at plain
    rw [List.cons_append, splitLines, if_neg (Ne.symm plain.1)]
    by_cases last : tail = []
    · subst last
      rw [List.nil_append]
      cases splitLines rest <;> rfl
    · rw [ih last plain.2]
      cases splitLines rest <;> rfl

/- The characters are cut by the library, which keeps an empty piece after a line feed at the end;
the bytes are cut without it. -/
theorem splitLinesEncode (text : List Char) :
    (text.splitOn '\n').map encode = splitLines (encode text) ∨
      (text.splitOn '\n').map encode = splitLines (encode text) ++ [[]] := by
  induction text with
  | nil => exact .inr rfl
  | cons c rest ih =>
    rw [List.splitOn_cons_eq_if_modifyHead]
    by_cases feed : c = '\n'
    · subst feed
      have cut : splitLines (encode ('\n' :: rest)) = [] :: splitLines (encode rest) := rfl
      rw [cut, if_pos (beq_self_eq_true _), List.map_cons, List.cons_append]
      exact ih.imp (congrArg _) (congrArg _)
    · have plain : 0x0A ∉ String.utf8EncodeChar c := fun member => feed (lineFeedByte member)
      have cut : splitLines (encode (c :: rest)) =
          prepend (String.utf8EncodeChar c) (splitLines (encode rest)) :=
        splitLinesPrepend String.utf8EncodeChar_ne_nil plain _
      rw [cut, if_neg (by simpa using feed)]
      cases pieces : rest.splitOn '\n' with
      | nil => exact absurd pieces (List.splitOn_ne_nil _ _)
      | cons first more =>
        rw [pieces, List.map_cons] at ih
        have longer : encode (c :: first) = String.utf8EncodeChar c ++ encode first := rfl
        rw [List.modifyHead_cons, List.map_cons, longer]
        rcases ih with whole | extra
        · exact .inl (by rw [← whole]; rfl)
        · cases lines : splitLines (encode rest) with
          | nil =>
            rw [lines, List.nil_append, List.cons.injEq] at extra
            exact .inl (by rw [extra.1, extra.2, List.append_nil]; rfl)
          | cons line others =>
            rw [lines, List.cons_append, List.cons.injEq] at extra
            exact .inr (by rw [extra.1, extra.2]; rfl)

theorem encodeBytes (text : String) : text.toByteArray.data = (encode text.toList).toArray := by
  rw [← String.utf8Encode_toList, List.utf8Encode, List.data_toByteArray]
  rfl

theorem decodeEncoded (text : List Char) :
    decodeLine (encode text) = .ok (text.rdropWhile (· == '\r')) := by
  have bytes : ByteArray.mk (encode text).toArray = (String.ofList text).toByteArray := by
    have data := encodeBytes (String.ofList text)
    rw [String.toList_ofList] at data
    exact ByteArray.ext data.symm
  have decoded : String.fromUTF8? ⟨(encode text).toArray⟩ = some (String.ofList text) := by
    rw [bytes, String.fromUTF8?, dif_pos (String.ofList text).isValidUTF8]
    rfl
  rw [decodeLine, decoded]
  simp only [String.toList_ofList]
  rfl

theorem ofStringLines (text : String) :
    ((text.toList.splitOn '\n').map fun line => .ok (line.rdropWhile (· == '\r'))) =
        (ofString text).lines ∨
      ((text.toList.splitOn '\n').map fun line => .ok (line.rdropWhile (· == '\r'))) =
        (ofString text).lines ++ [.ok []] := by
  have lines : (ofString text).lines = (splitLines (encode text.toList)).map decodeLine := by
    rw [ofString, String.toUTF8_eq_toByteArray, encodeBytes, List.toList_toArray, ofBytes]
  have pieces : (text.toList.splitOn '\n').map (fun line => .ok (line.rdropWhile (· == '\r'))) =
      ((text.toList.splitOn '\n').map encode).map decodeLine := by
    rw [List.map_map]
    exact List.map_congr_left fun line _ => (decodeEncoded line).symm
  rw [pieces, lines]
  rcases splitLinesEncode text.toList with whole | extra
  · exact .inl (by rw [whole])
  · exact .inr (by rw [extra, List.map_append]; rfl)

/- A line that can be decoded holds the encoding of the characters that it is decoded to, and behind
them of the carriage returns that were dropped. -/
theorem decodeWhole {bytes : List UInt8} {text : List Char} (decoded : decodeLine bytes = .ok text) :
    ∃ whole, text = trimLineEnd whole ∧ bytes = encode whole := by
  unfold decodeLine at decoded
  split at decoded
  · rename_i whole found
    cases decoded
    have same : whole.toByteArray = ⟨bytes.toArray⟩ := by
      unfold String.fromUTF8? at found
      split at found
      · cases found
        rfl
      · cases found
    have data := encodeBytes whole
    rw [same] at data
    exact ⟨whole.toList, rfl, by simpa using congrArg Array.toList data⟩
  · cases decoded

theorem splitLinesPlain {bytes line : List UInt8} (member : line ∈ splitLines bytes) :
    0x0A ∉ line := by
  induction bytes generalizing line with
  | nil => cases member
  | cons byte rest ih =>
    rw [splitLines] at member
    split at member
    · rcases List.mem_cons.mp member with rfl | behind
      · exact List.not_mem_nil
      · exact ih behind
    · rename_i other
      have apart : 0x0A ≠ byte := Ne.symm other
      split at member
      · rw [List.mem_singleton.mp member]
        simpa using apart
      · rename_i pieces
        rw [pieces] at ih
        rcases List.mem_cons.mp member with rfl | behind
        · simpa [apart] using ih List.mem_cons_self
        · exact ih (List.mem_cons_of_mem _ behind)

theorem linesPlain {bytes : List UInt8} {text : List Char}
    (member : .ok text ∈ (ofBytes bytes).lines) : '\n' ∉ text := by
  obtain ⟨line, piece, decoded⟩ := List.mem_map.mp member
  obtain ⟨whole, rfl, rfl⟩ := decodeWhole decoded
  intro broken
  have inside : '\n' ∈ whole := by
    rw [trimLineEnd, List.mem_reverse] at broken
    exact List.mem_reverse.mp (List.dropWhile_subset _ broken)
  have feed : 0x0A ∈ String.utf8EncodeChar '\n' := by decide
  exact splitLinesPlain piece (List.mem_flatMap.mpr ⟨'\n', inside, feed⟩)

end Offside.Source
