/-
Module: NixSyntax.Proofs.Lines
Purpose: The place of a byte offset is the line around that byte, and past the end of the
  text it is the last line.
Main exports: LineAt, splitLines_lineAt, Place.ofOffset_inside, Place.ofOffset_past,
  Place.ofOffset_exact
-/
import NixSyntax.Proofs.Lossless
import NixSyntax.Text.Line

namespace NixSyntax

/-!
A line is described by what stands around it in the text, without its number.
Its number is then the count of the line feeds in front: every line in front of
another one ends in a line feed, and has no other.
-/

/-- `line` is a line of `text`, between `front` and `back`.  It starts where the
text does or behind a line feed, and it reaches to the next line feed, which
belongs to it, or to the end of the text. -/
structure LineAt (text front line back : List Char) : Prop where
  text_eq : text = front ++ line ++ back
  nonempty : line ≠ []
  starts : front = [] ∨ ∃ earlier, front = earlier ++ ['\n']
  ends : (∃ body, '\n' ∉ body ∧ line = body ++ ['\n']) ∨ '\n' ∉ line ∧ back = []

/-! ## Lines -/

/-- Every line ends in its only line feed, and the last one may have none. -/
def Ruled : List (List Char) → Prop
  | [] => True
  | line :: lines =>
    ((∃ body, '\n' ∉ body ∧ line = body ++ ['\n']) ∨ '\n' ∉ line ∧ line ≠ [] ∧ lines = []) ∧
      Ruled lines

theorem flatten_splitLines (text : List Char) : (splitLines text).flatten = text := by
  induction text with
  | nil => rfl
  | cons c rest ih =>
      unfold splitLines
      split
      · simp [ih]
      · cases lines : splitLines rest with
        | nil => simpa [lines] using ih
        | cons line lines' => simpa [lines] using ih

theorem ruled_splitLines (text : List Char) : Ruled (splitLines text) := by
  induction text with
  | nil => trivial
  | cons c rest ih =>
      unfold splitLines
      split
      · next feed => exact ⟨.inl ⟨[], by simp, by simp [feed]⟩, ih⟩
      · next other =>
          have apart : '\n' ≠ c := fun equal => other equal.symm
          cases lines : splitLines rest with
          | nil => exact ⟨.inr ⟨by simpa using apart, by simp, rfl⟩, trivial⟩
          | cons line lines' =>
              rw [lines] at ih
              refine ⟨?_, ih.2⟩
              rcases ih.1 with ⟨body, clean, rfl⟩ | ⟨clean, _, last⟩
              · exact .inl ⟨c :: body, by simp [apart, clean], rfl⟩
              · exact .inr ⟨by simp [apart, clean], by simp, last⟩

namespace Ruled

variable {front back : List (List Char)} {line : List Char}

/-- A line in front of another one has a line feed, as its last character. -/
theorem whole (ruled : Ruled (front ++ line :: back)) :
    ∀ earlier ∈ front, ∃ body, '\n' ∉ body ∧ earlier = body ++ ['\n'] := by
  induction front with
  | nil => simp
  | cons first front ih =>
      obtain ⟨shape, others⟩ := ruled
      refine List.forall_mem_cons.2 ⟨?_, ih others⟩
      rcases shape with whole | ⟨_, _, last⟩
      · exact whole
      · simp at last

theorem suffix (ruled : Ruled (front ++ line :: back)) : Ruled (line :: back) := by
  induction front with
  | nil => exact ruled
  | cons first front ih => exact ih ruled.2

theorem count_flatten (ruled : Ruled (front ++ line :: back)) :
    front.flatten.count '\n' = front.length := by
  have whole := ruled.whole
  clear ruled
  induction front with
  | nil => rfl
  | cons first front ih =>
      obtain ⟨⟨body, clean, rfl⟩, others⟩ := List.forall_mem_cons.1 whole
      rw [List.flatten_cons, List.count_append, ih others, List.count_append,
        List.count_eq_zero.2 clean, List.length_cons, List.count_singleton_self]
      omega

theorem lineAt (ruled : Ruled (front ++ line :: back)) :
    LineAt (front ++ line :: back).flatten front.flatten line back.flatten where
  text_eq := by simp
  nonempty := by
    rcases ruled.suffix.1 with ⟨body, _, rfl⟩ | ⟨_, nonempty, _⟩
    · simp
    · exact nonempty
  starts := by
    rcases List.eq_nil_or_concat front with rfl | ⟨earlier, last, rfl⟩
    · exact .inl rfl
    · obtain ⟨body, _, rfl⟩ := ruled.whole last (by simp)
      exact .inr ⟨earlier.flatten ++ body, by simp⟩
  ends := by
    rcases ruled.suffix.1 with whole | ⟨clean, _, rfl⟩
    · exact .inl whole
    · exact .inr ⟨clean, rfl⟩

end Ruled

/-- The parts that a text is split into are its lines, and as many line feeds
stand in front of a line as lines do. -/
theorem splitLines_lineAt {text : List Char} {front : List (List Char)} {line : List Char}
    {back : List (List Char)} (split : splitLines text = front ++ line :: back) :
    LineAt text front.flatten line back.flatten ∧ front.flatten.count '\n' = front.length := by
  have ruled := ruled_splitLines text
  have whole := flatten_splitLines text
  rw [split] at ruled whole
  exact ⟨whole ▸ ruled.lineAt, ruled.count_flatten⟩

/-! ## Bytes -/

/-- The byte of a line feed occurs in the encoding of no other character. -/
theorem count_utf8EncodeChar (c : Char) :
    (String.utf8EncodeChar c).count 10 = if c = '\n' then 1 else 0 := by
  split
  · next feed => rw [feed]; decide
  · next other =>
      have apart : c.val.toNat ≠ 10 := fun equal => other (Char.ext (UInt32.toNat.inj equal))
      rw [List.count_eq_zero, String.utf8EncodeChar]
      generalize c.val.toNat = v at apart ⊢
      split_ifs <;> simp [← UInt8.toNat_inj] <;> omega

/-- There are as many bytes of a line feed as there are line feeds. -/
theorem count_bytes (text : List Char) :
    (text.flatMap String.utf8EncodeChar).count 10 = text.count '\n' := by
  induction text with
  | nil => rfl
  | cons c text ih =>
      rw [List.flatMap_cons, List.count_append, ih, count_utf8EncodeChar, List.count_cons]
      simp only [beq_iff_eq]
      omega

/-- Text without a line feed has none among its bytes, however many are taken. -/
theorem count_take_bytes {text : List Char} (clean : '\n' ∉ text) (count : Nat) :
    ((text.flatMap String.utf8EncodeChar).take count).count 10 = 0 := by
  have none : (text.flatMap String.utf8EncodeChar).count 10 = 0 := by
    rw [count_bytes, List.count_eq_zero.2 clean]
  exact Nat.le_zero.1 (none ▸ (List.take_sublist _ _).count_le _)

theorem length_bytes (text : List Char) :
    (text.flatMap String.utf8EncodeChar).length = utf8Length text := by
  rw [← size_utf8Encode, List.utf8Encode, List.size_toByteArray]

theorem bytes_toList (source : String) :
    source.toByteArray.data.toList = source.toList.flatMap String.utf8EncodeChar := by
  rw [← String.utf8Encode_toList, List.utf8Encode, List.data_toByteArray, List.toList_toArray]

namespace LineAt

variable {text front line back : List Char}

/-- Up to any byte of a line, the text has the line feeds in front of the line
and no other: the one that may end it is its last byte. -/
theorem count_take (lineAt : LineAt text front line back) {column : Nat}
    (inside : column < utf8Length line) :
    ((text.flatMap String.utf8EncodeChar).take (utf8Length front + column)).count 10 =
      front.count '\n' := by
  have clean : ((line.flatMap String.utf8EncodeChar).take column).count 10 = 0 := by
    rcases lineAt.ends with ⟨body, clean, rfl⟩ | ⟨clean, _⟩
    · have short : column ≤ (body.flatMap String.utf8EncodeChar).length := by
        rw [utf8Length_append] at inside
        rw [length_bytes]
        exact Nat.le_of_lt_succ inside
      rw [List.flatMap_append, List.take_append_of_le_length short]
      exact count_take_bytes clean column
    · exact count_take_bytes clean column
  have within : column ≤ (line.flatMap String.utf8EncodeChar).length := by
    rw [length_bytes]
    exact Nat.le_of_lt inside
  rw [lineAt.text_eq, List.append_assoc, List.flatMap_append, List.flatMap_append,
    ← length_bytes front, List.take_length_add_append, List.take_append_of_le_length within,
    List.count_append, count_bytes, clean, Nat.add_zero]

/-- The length of a line is that of what stands in front of its line feed, and
one byte more if it has one. -/
theorem length_body (lineAt : LineAt text front line back) :
    utf8Length (line.takeWhile (· ≠ '\n')) + (if line.getLast? = some '\n' then 1 else 0) =
      utf8Length line := by
  rcases lineAt.ends with ⟨body, clean, rfl⟩ | ⟨clean, _⟩
  · have kept : (body ++ ['\n']).takeWhile (· ≠ '\n') = body := by
      rw [List.takeWhile_append_of_pos (by
        intro c member
        simpa using fun equal : c = '\n' => clean (equal ▸ member))]
      simp
    rw [kept, if_pos (by simp), utf8Length_append]
    rfl
  · have kept : line.takeWhile (· ≠ '\n') = line := by
      rw [List.takeWhile_eq_self_iff]
      intro c member
      simpa using fun equal : c = '\n' => clean (equal ▸ member)
    have absent : line.getLast? ≠ some '\n' := fun last => clean (List.mem_of_getLast? last)
    rw [kept, if_neg absent, Nat.add_zero]

end LineAt

/-! ## The walk down the lines -/

namespace Place

/-- The search stops at the line that covers the byte. -/
theorem search_inside (number : Nat) {offset : Nat} (fallback : Place)
    {lines : List (List Char)} (inside : offset < utf8Length lines.flatten) :
    ∃ front line back column, lines = front ++ line :: back ∧
      utf8Length front.flatten + column = offset ∧ column < utf8Length line ∧
      search number offset fallback lines =
        { line := number + front.length, text := line, column := column } := by
  induction lines generalizing number offset fallback with
  | nil => exact absurd inside (Nat.not_lt_zero _)
  | cons line lines ih =>
      unfold search
      split
      · next covered => exact ⟨[], line, lines, offset, rfl, Nat.zero_add _, covered, rfl⟩
      · next before =>
          rw [List.flatten_cons, utf8Length_append] at inside
          obtain ⟨front, found, back, column, rfl, place, covered, result⟩ :=
            ih (number + 1) _ (Nat.sub_lt_left_of_lt_add (Nat.le_of_not_lt before) inside)
          refine ⟨line :: front, found, back, column, rfl, ?_, covered, ?_⟩
          · rw [List.flatten_cons, utf8Length_append]
            omega
          · rw [result, List.length_cons, Nat.add_right_comm, Nat.add_assoc]

/-- Past the end the search answers with the last line. -/
theorem search_past (number : Nat) {offset : Nat} (fallback : Place)
    {front : List (List Char)} {line : List Char}
    (past : utf8Length (front ++ [line]).flatten ≤ offset) :
    search number offset fallback (front ++ [line]) =
      { line := number + front.length, text := line,
        column := utf8Length (line.takeWhile (· ≠ '\n')) } := by
  induction front generalizing number offset fallback with
  | nil =>
      have after : ¬ offset < utf8Length line := by simpa using past
      simp [search, after]
  | cons first front ih =>
      rw [List.cons_append, List.flatten_cons, utf8Length_append] at past
      rw [List.cons_append, search, if_neg (by omega), ih _ _ (by omega), List.length_cons,
        Nat.add_right_comm, Nat.add_assoc]

/-- A byte of the text lies on the line around it. -/
theorem ofOffset_inside {source : String} {offset : Nat} (inside : offset < source.utf8ByteSize) :
    ∃ front back, LineAt source.toList front (ofOffset source offset).text back ∧
      utf8Length front + (ofOffset source offset).column = offset ∧
      (ofOffset source offset).column < utf8Length (ofOffset source offset).text ∧
      (ofOffset source offset).line =
        1 + (source.toByteArray.data.toList.take offset).count 10 := by
  rw [← utf8Length_toList, ← flatten_splitLines source.toList] at inside
  obtain ⟨front, line, back, column, split, place, covered, result⟩ :=
    search_inside 1 { line := 1, text := [], column := 0 } inside
  obtain ⟨lineAt, count⟩ := splitLines_lineAt split
  rw [ofOffset, result]
  refine ⟨front.flatten, back.flatten, lineAt, place, covered, ?_⟩
  rw [bytes_toList, ← place, lineAt.count_take covered, count]

/-- An offset past the end of a text lies at the end of its last line, in front
of the line feed. -/
theorem ofOffset_past {source : String} {offset : Nat} (nonempty : source ≠ "")
    (past : source.utf8ByteSize ≤ offset) :
    ∃ front, LineAt source.toList front (ofOffset source offset).text [] ∧
      (ofOffset source offset).line = 1 + front.count '\n' ∧
      (ofOffset source offset).column +
          (if (ofOffset source offset).text.getLast? = some '\n' then 1 else 0) =
        utf8Length (ofOffset source offset).text := by
  have whole := flatten_splitLines source.toList
  rcases List.eq_nil_or_concat' (splitLines source.toList) with none | ⟨front, line, split⟩
  · rw [none] at whole
    exact absurd (String.toList_inj.1 whole.symm) nonempty
  · obtain ⟨lineAt, count⟩ := splitLines_lineAt split
    have passed : utf8Length (front ++ [line]).flatten ≤ offset := by
      rwa [← split, whole, utf8Length_toList]
    have result := search_past 1 { line := 1, text := [], column := 0 } passed
    rw [ofOffset, split, result]
    exact ⟨front.flatten, lineAt, by rw [count], lineAt.length_body⟩

/-- The place of an offset inside the text is the line around that byte, with the
number of line feeds among the bytes in front of it.  Past the end it is the last
line, without its line feed; the empty text has a line that is empty. -/
theorem ofOffset_exact (source : String) (offset : Nat) :
    if offset < source.utf8ByteSize then
      ∃ front back, LineAt source.toList front (ofOffset source offset).text back ∧
        utf8Length front + (ofOffset source offset).column = offset ∧
        (ofOffset source offset).column < utf8Length (ofOffset source offset).text ∧
        (ofOffset source offset).line =
          1 + (source.toByteArray.data.toList.take offset).count 10
    else if source = "" then
      ofOffset source offset = { line := 1, text := [], column := 0 }
    else
      ∃ front, LineAt source.toList front (ofOffset source offset).text [] ∧
        (ofOffset source offset).line = 1 + front.count '\n' ∧
        (ofOffset source offset).column +
            (if (ofOffset source offset).text.getLast? = some '\n' then 1 else 0) =
          utf8Length (ofOffset source offset).text := by
  by_cases inside : offset < source.utf8ByteSize
  · rw [if_pos inside]
    exact ofOffset_inside inside
  · by_cases empty : source = ""
    · rw [if_neg inside, if_pos empty, empty]
      rfl
    · rw [if_neg inside, if_neg empty]
      exact ofOffset_past empty (Nat.le_of_not_lt inside)

/-- The byte may lie within a character: the euro sign takes three. -/
example : ofOffset "a\n€b\n" 4 = { line := 2, text := ['€', 'b', '\n'], column := 2 } := by
  decide

end Place

end NixSyntax
