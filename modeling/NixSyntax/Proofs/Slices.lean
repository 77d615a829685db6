/-
Module: NixSyntax.Proofs.Slices
Purpose: Parts of a text that are named by byte offsets, and when there is such a part.
Main exports: utf8Length_eq_length, prefix_of_utf8Length_le, StandsAt.unique, slice?,
  slice?_eq_some, slice?_isSome, find?_close
-/
import NixSyntax.Proofs.Places

namespace NixSyntax

/-!
A part of a text that is named by two byte offsets exists only if they are in
order, lie in the text and split no character.  Here a text is divided at an
offset one character at a time, so nothing is there if the offset lies inside of
a character.
-/

/-- Divides a text behind the given number of bytes, if a character ends there. -/
def splitBytes? : List Char → Nat → Option (List Char × List Char)
  | text, 0 => some ([], text)
  | [], _ + 1 => none
  | c :: rest, bytes + 1 =>
    if c.utf8Size ≤ bytes + 1 then
      (splitBytes? rest (bytes + 1 - c.utf8Size)).map fun parts => (c :: parts.1, parts.2)
    else none

/-- The part of a text from the byte `start` up to, and without, the byte
`stop`. -/
def slice? (text : List Char) (start stop : Nat) : Option (List Char) :=
  if start ≤ stop then
    (splitBytes? text start).bind fun parts =>
      (splitBytes? parts.2 (stop - start)).map Prod.fst
  else none

/-- The byte at which the first occurrence of `word` in a text starts. -/
def find? (word : List Char) : List Char → Option Nat
  | [] => if word.isEmpty then some 0 else none
  | c :: rest =>
    if word.isPrefixOf (c :: rest) then some 0 else (find? word rest).map (c.utf8Size + ·)

/-! ## Bytes and characters -/

theorem utf8Length_cons (c : Char) (text : List Char) :
    utf8Length (c :: text) = c.utf8Size + utf8Length text :=
  rfl

theorem length_le_utf8Length (text : List Char) : text.length ≤ utf8Length text := by
  induction text with
  | nil => exact Nat.le_refl 0
  | cons c text ih =>
      have positive := c.utf8Size_pos
      rw [List.length_cons, utf8Length_cons]
      omega

/-- There are as many bytes as characters if each character has one. -/
theorem utf8Length_eq_length {text : List Char} :
    utf8Length text = text.length ↔ ∀ c ∈ text, c.utf8Size = 1 := by
  induction text with
  | nil => simp
  | cons c text ih =>
      have positive := c.utf8Size_pos
      have least := length_le_utf8Length text
      rw [List.forall_mem_cons, ← ih, List.length_cons, utf8Length_cons]
      omega

/-- What takes fewer bytes of a text from its front takes fewer characters. -/
theorem prefix_of_utf8Length_le {first second rest rest' : List Char}
    (same : first ++ rest = second ++ rest') (fewer : utf8Length first ≤ utf8Length second) :
    ∃ between, second = first ++ between ∧ rest = between ++ rest' := by
  rcases List.append_eq_append_iff.1 same with split | ⟨more, rfl, rfl⟩
  · exact split
  · rw [utf8Length_append] at fewer
    have least := length_le_utf8Length more
    obtain rfl : more = [] := List.length_eq_zero_iff.1 (by omega)
    exact ⟨[], by simp, rfl⟩

theorem StandsAt.inside {source : String} {place : Nat} {c : Char} {back : List Char}
    (stands : StandsAt source place (c :: back)) : place < source.utf8ByteSize := by
  obtain ⟨front, split, rfl⟩ := stands
  have positive := c.utf8Size_pos
  rw [← utf8Length_toList, split, utf8Length_append, utf8Length_cons]
  omega

theorem StandsAt.unique {source : String} {place : Nat} {back back' : List Char}
    (stands : StandsAt source place back) (again : StandsAt source place back') :
    back = back' := by
  obtain ⟨front, split, rfl⟩ := stands
  obtain ⟨front', split', size⟩ := again
  obtain ⟨between, rfl, rfl⟩ :=
    prefix_of_utf8Length_le (split.symm.trans split') (Nat.le_of_eq size.symm)
  have least := length_le_utf8Length between
  rw [utf8Length_append] at size
  obtain rfl : between = [] := List.length_eq_zero_iff.1 (by omega)
  rfl

/-! ## Dividing -/

variable {text front part back : List Char} {start stop : Nat}

theorem splitBytes?_append (front back : List Char) :
    splitBytes? (front ++ back) (utf8Length front) = some (front, back) := by
  induction front with
  | nil => cases back <;> rfl
  | cons c front ih =>
      have positive := c.utf8Size_pos
      rw [List.cons_append, utf8Length_cons]
      obtain ⟨bytes, size⟩ : ∃ bytes, c.utf8Size + utf8Length front = bytes + 1 :=
        ⟨_, (Nat.succ_pred_eq_of_pos (by omega)).symm⟩
      rw [size, splitBytes?, if_pos (by omega), ← size, Nat.add_sub_cancel_left, ih]
      rfl

theorem splitBytes?_eq_some {bytes : Nat} :
    splitBytes? text bytes = some (front, back) ↔
      text = front ++ back ∧ utf8Length front = bytes := by
  refine ⟨fun found => ?_, ?_⟩
  · fun_induction splitBytes? text bytes generalizing front with
    | case1 =>
        cases found
        exact ⟨rfl, rfl⟩
    | case2 => cases found
    | case3 c rest bytes fits ih =>
        obtain ⟨⟨front, back⟩, further, same⟩ := Option.map_eq_some_iff.1 found
        cases same
        obtain ⟨rfl, size⟩ := ih further
        exact ⟨rfl, by rw [utf8Length_cons, size]; omega⟩
    | case4 => cases found
  · rintro ⟨rfl, rfl⟩
    exact splitBytes?_append front back

/-! ## Parts -/

theorem slice?_append (front part back : List Char) :
    slice? (front ++ (part ++ back)) (utf8Length front) (utf8Length front + utf8Length part) =
      some part := by
  rw [slice?, if_pos (Nat.le_add_right _ _), splitBytes?_append, Nat.add_sub_cancel_left]
  simp only [Option.bind_some, splitBytes?_append, Option.map_some]

theorem slice?_eq_some : slice? text start stop = some part ↔
    ∃ front back, text = front ++ (part ++ back) ∧ utf8Length front = start ∧
      start + utf8Length part = stop := by
  constructor
  · intro found
    unfold slice? at found
    split at found
    · next order =>
        obtain ⟨⟨front, ahead⟩, first, second⟩ := Option.bind_eq_some_iff.1 found
        obtain ⟨⟨middle, back⟩, inner, rfl⟩ := Option.map_eq_some_iff.1 second
        obtain ⟨rfl, size⟩ := splitBytes?_eq_some.1 first
        obtain ⟨rfl, width⟩ := splitBytes?_eq_some.1 inner
        exact ⟨front, back, rfl, size, by rw [width, Nat.add_sub_cancel' order]⟩
    · cases found
  · rintro ⟨front, back, rfl, rfl, rfl⟩
    exact slice?_append front part back

theorem isValid_iff_standsAt {source : String} {place : Nat} :
    String.Pos.Raw.IsValid source ⟨place⟩ ↔ ∃ back, StandsAt source place back := by
  constructor
  · rw [String.Pos.Raw.isValid_iff_exists_append]
    rintro ⟨front, back, rfl, size⟩
    refine ⟨back.toList, front.toList, String.toList_append, ?_⟩
    rw [String.Pos.Raw.ext_iff, String.byteIdx_rawEndPos] at size
    rw [utf8Length_toList, ← size]
  · rintro ⟨back, stands⟩
    exact stands.isValid

/-- Two offsets name a part of a text if and only if they are in order and split
no character. -/
theorem slice?_isSome {source : String} : (slice? source.toList start stop).isSome ↔
    start ≤ stop ∧ String.Pos.Raw.IsValid source ⟨start⟩ ∧
      String.Pos.Raw.IsValid source ⟨stop⟩ := by
  rw [Option.isSome_iff_exists, isValid_iff_standsAt, isValid_iff_standsAt]
  constructor
  · rintro ⟨part, found⟩
    obtain ⟨front, back, split, size, width⟩ := slice?_eq_some.1 found
    refine ⟨by omega, ⟨_, front, split, size⟩, back, front ++ part, ?_, ?_⟩
    · rw [split, List.append_assoc]
    · rw [utf8Length_append, size, width]
  · rintro ⟨order, ⟨ahead, front, split, rfl⟩, back, longer, split', rfl⟩
    obtain ⟨part, rfl, rfl⟩ := prefix_of_utf8Length_le (split.symm.trans split') order
    exact ⟨part, slice?_eq_some.2 ⟨front, back, split, rfl, (utf8Length_append ..).symm⟩⟩

/-- A character of two bytes, split and not split. -/
example : slice? ['a', 'é'] 0 2 = none ∧ slice? ['a', 'é'] 1 3 = some ['é'] := by decide

/-- The rest of a text. -/
theorem slice?_rest (front back : List Char) {size : Nat}
    (whole : utf8Length (front ++ back) = size) :
    slice? (front ++ back) (utf8Length front) size = some back := by
  rw [utf8Length_append] at whole
  rw [← whole]
  simpa using slice?_append front back []

/-- The end of a block comment is searched for as its text is read. -/
theorem find?_close (text : List Char) :
    find? ['*', '/'] text = (blockCommentBody? text).map utf8Length := by
  fun_induction blockCommentBody? text with
  | case1 => rfl
  | case2 rest => rfl
  | case3 c rest open_ ih =>
      have other : ['*', '/'].isPrefixOf (c :: rest) = false := by
        rw [Bool.eq_false_iff, Ne, List.isPrefixOf_iff_prefix]
        rintro ⟨more, same⟩
        cases same
        exact open_ more rfl rfl
      rw [find?, other, if_neg Bool.false_ne_true, ih, Option.map_map, Option.map_map]
      rfl

end NixSyntax
