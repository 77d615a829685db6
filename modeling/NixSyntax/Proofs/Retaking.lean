/-
Module: NixSyntax.Proofs.Retaking
Purpose: What the scanner has taken of one text it takes again of another that goes on with a
  blank, or, in a string, with the same delimiter.
Main exports: IsFloat, readPiece_float, readPiece_symbol, readPiece_spaced, quotedText_take,
  indentedText_take, literalText?_take
-/
import NixSyntax.Proofs.Indenting
import NixSyntax.Proofs.Lexed

namespace NixSyntax

/-!
The scanner decides on a lexeme by the text behind it too.  So for each class of
lexeme it is shown that what was taken of one text is taken again where a blank
follows: a run of digits, letters or segments ends at a blank as it ended before.
In a string nothing may be put in between, and it is enough that the text behind
starts as it did, since one character decides whether literal text goes on.
-/

/-! ## Numbers in front of a blank -/

/-- One digit or more. -/
def IsDigits (text : List Char) : Prop :=
  text ≠ [] ∧ ∀ c ∈ text, c.isDigit

/-- The exponent of a number. -/
inductive IsExponent : List Char → Prop where
  | intro {mark : Char} {sign digits : List Char} (marked : mark = 'e' ∨ mark = 'E')
      (signed : sign = [] ∨ sign = ['+'] ∨ sign = ['-']) (some_digits : IsDigits digits) :
      IsExponent (mark :: (sign ++ digits))

/-- A number with a fraction, an exponent, or both. -/
inductive IsFloat : List Char → Prop where
  | fraction {whole fraction exponent : List Char} (some_digits : IsDigits whole)
      (behind : IsDigits fraction) (raised : exponent = [] ∨ IsExponent exponent) :
      IsFloat (whole ++ '.' :: (fraction ++ exponent))
  | exponent {whole exponent : List Char} (some_digits : IsDigits whole)
      (raised : IsExponent exponent) : IsFloat (whole ++ exponent)

section Numbers

variable {text rest : List Char}

theorem IsDigits.take (positive : intWidth text ≠ 0) : IsDigits (text.take (intWidth text)) := by
  have taken : text.take (intWidth text) = text.takeWhile Char.isDigit :=
    (List.prefix_iff_eq_take.1 (List.takeWhile_prefix _)).symm
  rw [taken]
  refine ⟨fun empty => positive ?_, fun c member => List.mem_takeWhile_imp member⟩
  rw [intWidth, empty, List.length_nil]

theorem IsDigits.intWidth_append (digits : IsDigits text) (ends : ∀ c ∈ rest.head?, ¬ c.isDigit) :
    intWidth (text ++ rest) = text.length := by
  rw [intWidth, takeWhile_append_of_ends digits.2 ends]

theorem IsDigits.length_ne_zero (digits : IsDigits text) : text.length ≠ 0 :=
  fun empty => digits.1 (List.length_eq_zero_iff.1 empty)

theorem IsExponent.take (positive : exponentWidth text ≠ 0) :
    IsExponent (text.take (exponentWidth text)) := by
  unfold exponentWidth at positive ⊢
  split at positive
  · next mark rest =>
      split at positive
      · next marked =>
          rw [if_pos marked]
          generalize sign :
            (if rest.head? == some '+' || rest.head? == some '-' then 1 else 0) = width at positive ⊢
          dsimp only at positive ⊢
          split at positive
          · exact absurd rfl positive
          · next some_digits =>
              rw [if_neg some_digits, Nat.add_assoc, Nat.add_comm, List.take_succ_cons,
                List.take_add]
              refine .intro (by simpa using marked) ?_ (.take some_digits)
              split at sign
              · next signed =>
                  subst sign
                  cases rest with
                  | nil => cases signed
                  | cons c rest => right; simpa using signed
              · subst sign
                exact .inl rfl
      · exact absurd rfl positive
  · exact absurd rfl positive

theorem IsExponent.exponentWidth_append (exponent : IsExponent text)
    (ends : ∀ c ∈ rest.head?, ¬ c.isDigit) : exponentWidth (text ++ rest) = text.length := by
  cases exponent with
  | @intro mark sign digits marked signed some_digits =>
      have width := some_digits.intWidth_append ends
      have positive := some_digits.length_ne_zero
      have first : ∀ c ∈ (digits ++ rest).head?, c ≠ '+' ∧ c ≠ '-' := by
        obtain ⟨c, tail, rfl⟩ := List.exists_cons_of_ne_nil some_digits.1
        rintro d ⟨⟩
        constructor <;> rintro rfl <;> exact Bool.noConfusion (some_digits.2 _ List.mem_cons_self)
      rw [List.cons_append, List.append_assoc, exponentWidth, if_pos (by simpa using marked)]
      rcases signed with rfl | rfl | rfl
      · have unsigned : ((digits ++ rest).head? == some '+' ||
            (digits ++ rest).head? == some '-') = false := by
          cases head : (digits ++ rest).head? with
          | none => rfl
          | some c => simpa using first c head
        simp only [List.nil_append, unsigned, Bool.false_eq_true, if_false, List.drop_zero, width,
          positive, List.length_cons]
        omega
      all_goals
        simp [width, positive]
        omega

theorem IsExponent.head (exponent : IsExponent text) :
    ∃ mark tail, text = mark :: tail ∧ mark ≠ '.' ∧ ¬ mark.isDigit := by
  cases exponent with
  | intro marked => rcases marked with rfl | rfl <;> exact ⟨_, _, rfl, by decide, by decide⟩

/-- A number has digits in front, and then a fraction or an exponent. -/
theorem floatWidth_pos (positive : 0 < floatWidth text) :
    intWidth text ≠ 0 ∧
      ((∃ rest, text.drop (intWidth text) = '.' :: rest ∧ intWidth rest ≠ 0 ∧
          floatWidth text =
            intWidth text + (intWidth rest + exponentWidth (rest.drop (intWidth rest)) + 1)) ∨
        exponentWidth (text.drop (intWidth text)) ≠ 0 ∧
          floatWidth text = intWidth text + exponentWidth (text.drop (intWidth text))) := by
  unfold floatWidth at positive ⊢
  dsimp only at positive ⊢
  split at positive
  · cases positive
  next whole =>
  refine ⟨whole, ?_⟩
  rw [if_neg whole]
  split at positive
  · next rest point =>
      split at positive
      · cases positive
      · next fraction =>
          refine .inl ⟨rest, point, fraction, ?_⟩
          rw [if_neg fraction]
          omega
  · split at positive
    · cases positive
    · next raised => exact .inr ⟨raised, if_neg raised⟩

theorem IsFloat.take (positive : 0 < floatWidth text) : IsFloat (text.take (floatWidth text)) := by
  obtain ⟨whole, ⟨rest, point, fraction, width⟩ | ⟨raised, width⟩⟩ := floatWidth_pos positive
  · rw [width, List.take_add, point, List.take_succ_cons, List.take_add]
    refine .fraction (.take whole) (.take fraction) ?_
    by_cases raised : exponentWidth (rest.drop (intWidth rest)) = 0
    · exact .inl (by rw [raised, List.take_zero])
    · exact .inr (.take raised)
  · rw [width, List.take_add]
    exact .exponent (.take whole) (.take raised)

theorem exponentWidth_of_breaks (ends : Breaks rest) : exponentWidth rest = 0 := by
  cases rest with
  | nil => rfl
  | cons c rest =>
      have marks : ¬ (c == 'e' || c == 'E') := by
        intro mark
        have inside : isPathChar c := by
          rcases Bool.or_eq_true_iff.1 mark with same | same <;> rw [eq_of_beq same] <;> decide
        exact (ends c rfl).2.1 inside
      rw [exponentWidth, if_neg marks]

theorem Breaks.not_digit (ends : Breaks rest) : ∀ c ∈ rest.head?, ¬ c.isDigit :=
  fun c head digit => (ends c head).2.1 (isDigit_pathChar digit)

/-- A number is read as a whole where nothing makes it longer. -/
theorem IsFloat.floatWidth_append (float : IsFloat text) (ends : Breaks rest) :
    floatWidth (text ++ rest) = text.length := by
  cases float with
  | @fraction whole fraction exponent some_digits behind raised =>
      have raisedEnds : exponentWidth (exponent ++ rest) = exponent.length := by
        rcases raised with rfl | raised
        · exact exponentWidth_of_breaks ends
        · exact raised.exponentWidth_append ends.not_digit
      have fractionEnds : ∀ c ∈ (exponent ++ rest).head?, ¬ c.isDigit := by
        rcases raised with rfl | raised
        · exact ends.not_digit
        · obtain ⟨mark, tail, rfl, -, digit⟩ := raised.head
          rintro c ⟨⟩
          exact digit
      have first : intWidth (whole ++ '.' :: (fraction ++ (exponent ++ rest))) = whole.length :=
        some_digits.intWidth_append (by rintro c ⟨⟩; decide)
      have second : intWidth (fraction ++ (exponent ++ rest)) = fraction.length :=
        behind.intWidth_append fractionEnds
      rw [List.append_assoc, List.cons_append, List.append_assoc, floatWidth, first]
      simp only [some_digits.length_ne_zero, if_false, List.drop_left, second,
        behind.length_ne_zero, raisedEnds, List.length_append, List.length_cons]
      omega
  | @exponent whole exponent some_digits raised =>
      have raisedEnds : exponentWidth (exponent ++ rest) = exponent.length :=
        raised.exponentWidth_append ends.not_digit
      have positive : exponent.length ≠ 0 := by
        obtain ⟨mark, tail, rfl, -⟩ := raised.head
        exact Nat.succ_ne_zero _
      obtain ⟨mark, tail, rfl, point, digit⟩ := raised.head
      have first : intWidth (whole ++ (mark :: tail ++ rest)) = whole.length :=
        some_digits.intWidth_append (by rintro c ⟨⟩; exact digit)
      rw [List.append_assoc, floatWidth, first]
      simp only [some_digits.length_ne_zero, if_false, List.drop_left, List.length_append]
      split
      · next shape => exact absurd (List.cons.inj shape).1 point
      · rw [raisedEnds, if_neg positive]

/-- All of a number could stand in a path. -/
theorem IsExponent.chars (exponent : IsExponent text) : ∀ c ∈ text, isPathChar c := by
  cases exponent with
  | intro marked signed some_digits =>
      refine List.forall_mem_cons.2 ⟨?_, List.forall_mem_append.2 ⟨?_, ?_⟩⟩
      · rcases marked with rfl | rfl <;> decide
      · rcases signed with rfl | rfl | rfl <;> simp [isPathChar]
      · exact fun c member => isDigit_pathChar (some_digits.2 c member)

theorem IsFloat.chars (float : IsFloat text) :
    (∃ c tail, text = c :: tail ∧ c.isDigit) ∧ ∀ c ∈ text, isPathChar c := by
  have front : ∀ whole back, IsDigits whole → (∀ c ∈ back, isPathChar c) →
      (∃ c tail, whole ++ back = c :: tail ∧ c.isDigit) ∧ ∀ c ∈ whole ++ back, isPathChar c := by
    intro whole back some_digits inside
    obtain ⟨c, tail, rfl⟩ := List.exists_cons_of_ne_nil some_digits.1
    refine ⟨⟨c, tail ++ back, rfl, some_digits.2 c List.mem_cons_self⟩, ?_⟩
    exact List.forall_mem_append.2
      ⟨fun c member => isDigit_pathChar (some_digits.2 c member), inside⟩
  cases float with
  | fraction some_digits behind raised =>
      refine front _ _ some_digits
        (List.forall_mem_cons.2 ⟨by decide, List.forall_mem_append.2 ⟨?_, ?_⟩⟩)
      · exact fun c member => isDigit_pathChar (behind.2 c member)
      · rcases raised with rfl | raised
        · nofun
        · exact raised.chars
  | exponent some_digits raised => exact front _ _ some_digits raised.chars

theorem readPiece_float (float : IsFloat text) {opened : List Enclosure} (code : InCode opened)
    (ends : Breaks rest) :
    readPiece opened (text ++ rest) = .ok (.lexeme (.plain .float text)) := by
  obtain ⟨⟨c, tail, rfl, digit⟩, inside⟩ := float.chars
  have other := isPathChar_other (isDigit_pathChar digit)
  simp only [List.mem_cons, List.not_mem_nil, or_false, not_or] at other
  obtain ⟨hash, slash, angle, tilde⟩ := other
  have path : pathWidth (c :: (tail ++ rest)) = 0 := by
    apply pathWidth_eq_zero angle tilde
    have slashless : '/' ∉ c :: tail := fun member => isPathChar_other (inside _ member) (by simp)
    exact pathRun_append slashless (by simp [ends.pathRun])
  have width : floatWidth (c :: (tail ++ rest)) = (c :: tail).length :=
    float.floatWidth_append ends
  have whole : (c :: (tail ++ rest)).take (c :: tail).length = c :: tail := List.take_left
  rw [List.cons_append, readPiece_lexeme code (isPathChar_solid (isDigit_pathChar digit)) hash
    fun same => absurd same slash, readLexeme]
  have positive : 0 < (c :: tail).length := Nat.succ_pos _
  simp only [path, width, whole, Nat.lt_irrefl, if_false, positive, if_true]
  rfl

end Numbers

/-! ## Lexemes in front of a blank -/

theorem readPiece_symbol {kind : Kind} (listed : kind ∈ Kind.symbols) {opened : List Enclosure}
    (code : InCode opened) {rest : List Char}
    (ends : kind ∈ [.quoteOpen, .indentOpen, .curlyClose] ∨ rest.head? = some ' ') :
    readPiece opened (kind.spelling.toList ++ rest) =
      .ok (.lexeme (.plain (closingKind opened kind) kind.spelling.toList)) := by
  have classes : ∀ kind ∈ Kind.symbols, kind ∈ Kind.standsAlone ∨
      kind ∉ [Kind.quoteOpen, .indentOpen, .curlyClose] ∧ kind ∈ Kind.standsOff ∨
      kind = .indentOpen ∨ kind = .not ∨ kind = .dot := by
    decide
  have known : ∀ kind ∈ [Kind.not, .dot] ++ Kind.standsOff, kind ≠ .curlyClose := by decide
  have same : kind ≠ .curlyClose → closingKind opened kind = kind :=
    fun other => if_neg fun both => other both.1
  rcases classes kind listed with alone | ⟨other, off⟩ | rfl | rfl | rfl
  · exact readPiece_alone alone code rest
  · obtain ⟨rest, rfl⟩ := List.head?_eq_some_iff.1 (ends.resolve_left other)
    rw [same (known kind (List.mem_append_right _ off))]
    exact readPiece_off off code rest
  · rw [readPiece_code code]
    rfl
  all_goals
    obtain ⟨rest, rfl⟩ := List.head?_eq_some_iff.1 (ends.resolve_left (by decide))
    rw [readPiece_code code]
    rfl

/-- What is read in code is read again in front of a blank.  The quotes that open a
string and closing braces are read again whatever follows. -/
theorem readPiece_spaced {opened : List Enclosure} (code : InCode opened) {text : List Char}
    {lexeme : Lexeme} (read : readLexeme opened text = .ok lexeme) {rest : List Char}
    (ends : lexeme.kind ∈ [.quoteOpen, .indentOpen, .curlyClose, .interpClose] ∨
      rest.head? = some ' ') :
    readPiece opened (lexeme.raw ++ rest) = .ok (.lexeme lexeme) := by
  have taken := readLexeme_read opened text
  rw [read] at taken
  cases taken with
  | path positive =>
      have breaks : Breaks rest := .of_head ' ' (ends.resolve_left (by simp [Lexeme.plain])) rfl
      have whole := readPiece_path (isPath_take positive) code breaks
      rwa [String.toList_ofList] at whole
  | float positive =>
      have breaks : Breaks rest := .of_head ' ' (ends.resolve_left (by simp [Lexeme.plain])) rfl
      exact readPiece_float (.take positive) code breaks
  | int positive =>
      have breaks : Breaks rest := .of_head ' ' (ends.resolve_left (by simp [Lexeme.plain])) rfl
      have digits : IsDigits (text.take (intWidth text)) := .take (Nat.pos_iff_ne_zero.1 positive)
      rw [← String.toList_ofList (l := text.take (intWidth text))] at digits ⊢
      exact readPiece_int digits.1 digits.2 code breaks
  | word positive =>
      have words : ∀ kind ∈ Kind.identifier :: Kind.reserved,
          kind ∉ [Kind.quoteOpen, .indentOpen, .curlyClose, .interpClose] := by
        decide
      have other := words _
        (List.mem_cons.2 (ofWord_kind (String.ofList (text.take (wordWidth text)))))
      have breaks : EndsWord rest := .of_head ' ' (ends.resolve_left other) rfl
      have whole := readPiece_word (isWord_take positive) code breaks
      rwa [String.toList_ofList] at whole
  | @symbol kind found =>
      refine readPiece_symbol (List.mem_of_find?_eq_some found) code ?_
      rcases ends with alone | blank
      · left
        simp only [Lexeme.plain, closingKind] at alone
        split at alone
        · next closes => rw [closes.1]; decide
        · have symbols : ∀ kind ∈ Kind.symbols, kind ≠ .interpClose := by decide
          have other := symbols kind (List.mem_of_find?_eq_some found)
          simpa [other] using alone
      · exact .inr blank

/-- In code no blank stands at the front of a lexeme. -/
theorem readCode_solid {opened : List Enclosure} {text : List Char} {lexeme : Lexeme}
    (read : readCode opened text = .ok (.lexeme lexeme)) : EndsBlank text := by
  unfold readCode at read
  split at read
  · next solid =>
      intro c head blank
      obtain ⟨rest, rfl⟩ := List.head?_eq_some_iff.1 head
      simp [blank] at solid
  · cases read

/-! ## Text of a string in front of the same delimiter -/

theorem head?_take_append {text rest : List Char} {width : Nat}
    (same : rest.head? = (text.drop width).head?) :
    (text.take width ++ rest).head? = text.head? := by
  cases width with
  | zero => simpa using same
  | succ width =>
      cases text with
      | nil => simpa using same
      | cons c text => rfl

/-- What is neither a dollar sign nor a brace leaves a dollar sign alone. -/
theorem head?_not_mem {text : List Char} (brace : ∀ tail, text ≠ '{' :: tail)
    (dollar : ∀ tail, text ≠ '$' :: tail) : ∀ c ∈ text.head?, c ∉ ['$', '{'] := by
  intro c isHead
  obtain ⟨tail, rfl⟩ := List.head?_eq_some_iff.1 isHead
  simp only [List.mem_cons, List.not_mem_nil, or_false, not_or]
  exact ⟨fun equal => dollar tail (equal ▸ rfl), fun equal => brace tail (equal ▸ rfl)⟩

/-- Characters are read again in front of what is read again, if they are read in the
same way in front of every text that starts as the one behind them did. -/
theorem taken_behind (front : List Char) {reader : List Char → Option (List Char × Nat)}
    {text value shown rest : List Char} {width : Nat}
    (read : (reader text).map (consText shown front.length) = some (value, width))
    (same : rest.head? = ((front ++ text).drop width).head?)
    (step : ∀ other, other.head? = text.head? →
      reader (front ++ other) = (reader other).map (consText shown front.length))
    (again : ∀ {value : List Char} {width : Nat}, reader text = some (value, width) →
      rest.head? = (text.drop width).head? →
        reader (text.take width ++ rest) = some (value, width)) :
    reader ((front ++ text).take width ++ rest) = some (value, width) := by
  obtain ⟨⟨value, width⟩, inner, ⟨⟩⟩ := Option.map_eq_some_iff.1 read
  rw [List.drop_length_add_append] at same
  rw [List.take_length_add_append, List.append_assoc, step _ (head?_take_append same),
    again inner same]
  rfl

/-- Literal text that is taken of one text is taken again, if what follows starts in
the same way and is a delimiter too. -/
theorem quotedText_take {text value rest : List Char} {width : Nat}
    (read : quotedText text = some (value, width)) (shut : quotedText rest = some ([], 0))
    (same : rest.head? = (text.drop width).head?) :
    quotedText (text.take width ++ rest) = some (value, width) := by
  fun_induction quotedText text generalizing value width with
  | case1 => cases read
  | case2 | case3 =>
      cases read
      exact shut
  | case4 text ih => exact taken_behind ['$', '$'] read same (fun _ _ => by rfl) ih
  | case5 c text ih => exact taken_behind ['\\', c] read same (fun _ _ => by rfl) ih
  | case6 c text quote brace dollars escape ih =>
      refine taken_behind [c] read same (fun other head => ?_) ih
      by_cases dollar : c = '$'
      · subst dollar
        exact quotedText_dollar (head ▸ head?_not_mem (fun _ => brace _ rfl) fun _ => dollars _ rfl)
      · refine quotedText_plain ?_ other
        simp only [List.mem_cons, List.not_mem_nil, or_false, not_or]
        refine ⟨quote, dollar, fun backslash => ?_⟩
        cases text with
        | nil => cases read
        | cons d tail => exact escape d tail backslash rfl

theorem indentedText_take {text value rest : List Char} {width : Nat}
    (read : indentedText text = some (value, width)) (shut : indentedText rest = some ([], 0))
    (same : rest.head? = (text.drop width).head?) :
    indentedText (text.take width ++ rest) = some (value, width) := by
  fun_induction indentedText text generalizing value width with
  | case1 | case5 => cases read
  | case6 | case7 =>
      cases read
      exact shut
  | case2 text ih => exact taken_behind ['\'', '\'', '\''] read same (fun _ _ => by rfl) ih
  | case3 text ih => exact taken_behind ['\'', '\'', '$'] read same (fun _ _ => by rfl) ih
  | case4 c text ih => exact taken_behind ['\'', '\'', '\\', c] read same (fun _ _ => by rfl) ih
  | case8 text ih => exact taken_behind ['$', '$'] read same (fun _ _ => by rfl) ih
  | case9 c text _ _ _ _ quotes brace dollars ih =>
      refine taken_behind [c] read same (fun other head => ?_) ih
      by_cases dollar : c = '$'
      · subst dollar
        exact indentedText_dollar
          (head ▸ head?_not_mem (fun _ => brace _ rfl) fun _ => dollars _ rfl)
      by_cases quote : c = '\''
      · subst quote
        have single : other.head? ≠ some '\'' := by
          rw [head]
          intro isHead
          obtain ⟨tail, rfl⟩ := List.head?_eq_some_iff.1 isHead
          exact quotes tail rfl rfl
        exact indentedText_quote single
      · exact indentedText_plain (by simp [quote, dollar]) other

theorem literalText?_take {opened : List Enclosure} {text value rest : List Char} {width : Nat}
    (read : literalText? opened text = some (value, width))
    (shut : literalText? opened rest = some ([], 0))
    (same : rest.head? = (text.drop width).head?) :
    literalText? opened (text.take width ++ rest) = some (value, width) := by
  unfold literalText? at read shut ⊢
  split at read
  · exact quotedText_take read shut same
  · exact indentedText_take read shut same
  · cases read

end NixSyntax
