/-
Module: NixSyntax.Proofs.Quoting
Purpose: Printed strings in double quotes are read back as the text they stand for.
Main exports: endRun, endDollars, quotedText_escape, InQuotes, Legible.quotes
-/
import NixSyntax.Proofs.Legible

namespace NixSyntax

/-!
The printer escapes a text character by character, but for `${`, which it
escapes as a whole, and the scanner reads two dollar signs at once.  The two
fall out of step only where a text ends in an odd number of dollar signs and an
interpolation follows: there the scanner takes the last dollar sign of the text
together with the first character of the interpolation.
-/

/-! ## Runs of one character -/

/-- How often a character stands at the end of a text, one after another. -/
def endRun (mark : Char) (text : List Char) : Nat :=
  (text.reverse.takeWhile (· == mark)).length

section Runs

variable {mark c : Char} {text : List Char}

theorem endRun_cons_of_ne (other : c ≠ mark) : endRun mark (c :: text) = endRun mark text := by
  rw [endRun, List.reverse_cons, List.takeWhile_append]
  split
  · next whole => simp [other, endRun, whole]
  · rfl

/-- A mark does not count in front of something else. -/
theorem endRun_mark (other : c ≠ mark) :
    endRun mark (mark :: c :: text) = endRun mark (c :: text) := by
  rw [endRun, List.reverse_cons, List.takeWhile_append, if_neg]
  · rfl
  · intro whole
    have all := (List.takeWhile_prefix (· == mark)).eq_of_length whole
    have same := List.takeWhile_eq_self_iff.1 all c (by simp)
    exact other (eq_of_beq same)

/-- A pair of marks does not change the parity. -/
theorem endRun_pair (mark : Char) (text : List Char) :
    endRun mark (mark :: mark :: text) % 2 = endRun mark text % 2 := by
  rw [endRun, List.reverse_cons, List.reverse_cons, List.append_assoc, List.takeWhile_append]
  split
  · next whole => simp [endRun, whole, List.takeWhile]
  · rfl

end Runs

/-! ## Escapes -/

/-- The number of dollar signs at the end of a text. -/
def endDollars (text : List Char) : Nat :=
  (text.reverse.takeWhile (· == '$')).length

theorem endDollars_cons_of_ne {c : Char} {text : List Char} (other : c ≠ '$') :
    endDollars (c :: text) = endDollars text :=
  endRun_cons_of_ne other

theorem endDollars_dollar {c : Char} {text : List Char} (other : c ≠ '$') :
    endDollars ('$' :: c :: text) = endDollars (c :: text) :=
  endRun_mark other

theorem endDollars_pair (text : List Char) :
    endDollars ('$' :: '$' :: text) % 2 = endDollars text % 2 :=
  endRun_pair '$' text

theorem escapeQuoted_ne_nil {text : List Char} (present : text ≠ []) : escapeQuoted text ≠ [] := by
  unfold escapeQuoted
  split
  · exact absurd rfl present
  · exact List.cons_ne_nil _ _
  · unfold escapeChar
    split <;> exact List.cons_ne_nil _ _

/-! ## Reading them -/

/-- A character that means nothing special stands for itself. -/
theorem quotedText_plain {c : Char} (other : c ∉ ['"', '$', '\\']) (rest : List Char) :
    quotedText (c :: rest) = (quotedText rest).map (consText [c] 1) := by
  simp only [List.mem_cons, List.not_mem_nil, or_false, not_or] at other
  rw [quotedText] <;> simp_all

/-- So does a dollar sign in front of something else. -/
theorem quotedText_dollar {text : List Char} (other : ∀ c ∈ text.head?, c ∉ ['$', '{']) :
    quotedText ('$' :: text) = (quotedText text).map (consText ['$'] 1) := by
  cases text with
  | nil => rfl
  | cons c text =>
      have special := other c rfl
      simp only [List.mem_cons, List.not_mem_nil, or_false, not_or] at special
      rw [quotedText] <;> simp_all

/-- An escaped character is read back. -/
theorem quotedText_escapeChar {c : Char} (other : c ≠ '$') (rest : List Char) :
    quotedText (escapeChar c ++ rest) =
      (quotedText rest).map (consText [c] (escapeChar c).length) := by
  unfold escapeChar
  split
  · rfl
  · rfl
  · rfl
  · rfl
  · rfl
  · next backslash quote _ _ _ =>
      refine quotedText_plain ?_ rest
      simp only [List.mem_cons, List.not_mem_nil, or_false, not_or]
      exact ⟨quote, other, backslash⟩

theorem escapeQuoted_cons {c : Char} {text : List Char} (other : c ≠ '$') :
    escapeQuoted (c :: text) = escapeChar c ++ escapeQuoted text := by
  rw [escapeQuoted]
  rintro _ rfl
  exact absurd rfl other

theorem escapeQuoted_dollar {text : List Char} (other : text.head? ≠ some '{') :
    escapeQuoted ('$' :: text) = '$' :: escapeQuoted text := by
  rw [escapeQuoted]
  · rfl
  · rintro rest - rfl
    exact other rfl

/-- The escape of a character starts with no dollar sign, and with no brace unless
it is one. -/
theorem escapeChar_head {c : Char} (other : c ∉ ['$', '{']) (rest : List Char) :
    ∀ d ∈ (escapeChar c ++ rest).head?, d ∉ ['$', '{'] := by
  unfold escapeChar
  split
  all_goals rintro d ⟨⟩
  · decide
  · decide
  · decide
  · decide
  · decide
  · exact other

section Escapes

variable {rest : List Char}

/-- The text in front of the rest is read back. -/
def ReadsBack (rest text : List Char) : Prop :=
  quotedText (escapeQuoted text ++ rest) = some (text, (escapeQuoted text).length)

/-- A character that is escaped on its own. -/
theorem ReadsBack.cons {c : Char} {text : List Char} (other : c ≠ '$')
    (whole : ReadsBack rest text) : ReadsBack rest (c :: text) := by
  rw [ReadsBack, escapeQuoted_cons other, List.append_assoc, quotedText_escapeChar other, whole,
    List.length_append]
  rfl

/-- A dollar sign in front of something else. -/
theorem ReadsBack.dollar {text : List Char} (brace : text.head? ≠ some '{')
    (other : ∀ c ∈ (escapeQuoted text ++ rest).head?, c ∉ ['$', '{'])
    (whole : ReadsBack rest text) : ReadsBack rest ('$' :: text) := by
  rw [ReadsBack, escapeQuoted_dollar brace, List.cons_append, quotedText_dollar other, whole,
    List.length_cons, Nat.add_comm]
  rfl

/-- A pair of dollar signs. -/
theorem ReadsBack.pair {text : List Char} (brace : text.head? ≠ some '{')
    (whole : ReadsBack rest text) : ReadsBack rest ('$' :: '$' :: text) := by
  have front : escapeQuoted ('$' :: '$' :: text) = '$' :: '$' :: escapeQuoted text := by
    rw [escapeQuoted_dollar (by simp), escapeQuoted_dollar brace]
  rw [ReadsBack, front, List.cons_append, List.cons_append, quotedText, whole, List.length_cons,
    List.length_cons, Nat.add_assoc, Nat.add_comm]
  rfl

/-- A dollar sign and a brace. -/
theorem ReadsBack.brace {text : List Char} (whole : ReadsBack rest text) :
    ReadsBack rest ('$' :: '{' :: text) := by
  have front : escapeQuoted ('$' :: '{' :: text) = '\\' :: '$' :: '{' :: escapeQuoted text := by
    rw [escapeQuoted]
  have read : quotedText ('\\' :: '$' :: '{' :: (escapeQuoted text ++ rest)) =
      ((quotedText (escapeQuoted text ++ rest)).map (consText ['{'] 1)).map (consText ['$'] 2) := by
    rw [quotedText, quotedText_plain (by decide)]
    rfl
  rw [ReadsBack, front, List.cons_append, List.cons_append, List.cons_append, read, whole,
    List.length_cons, List.length_cons, List.length_cons]
  simp [consText]
  omega

/-- A dollar sign with more text behind it, if all shorter texts are read back. -/
theorem ReadsBack.after_dollar {d : Char} {text : List Char}
    (paired : rest.head? = some '$' → endDollars ('$' :: d :: text) % 2 = 0)
    (shorter : ∀ {shorter : List Char}, shorter.length < ('$' :: d :: text).length →
      (rest.head? = some '$' → endDollars shorter % 2 = 0) → ReadsBack rest shorter) :
    ReadsBack rest ('$' :: d :: text) := by
  by_cases brace : d = '{'
  · subst brace
    rw [endDollars_dollar (by decide), endDollars_cons_of_ne (by decide)] at paired
    exact .brace (shorter (by simp only [List.length_cons]; omega) paired)
  by_cases double : d = '$'
  · subst double
    rw [endDollars_pair] at paired
    cases text with
    | nil => exact .pair nofun (shorter (by simp) paired)
    | cons e text =>
        by_cases opens : e = '{'
        · -- The second dollar sign belongs to the brace, so the first stands alone.
          subst opens
          refine .dollar (by simp) ?_ (shorter (by simp) ?_)
          · rintro c ⟨⟩
            decide
          · rwa [endDollars_dollar (by decide)]
        · exact .pair (by simpa using opens) (shorter (by simp) paired)
  · refine .dollar (by simpa using brace) ?_ (shorter (by simp) ?_)
    · rw [escapeQuoted_cons double, List.append_assoc]
      exact escapeChar_head (by simp [brace, double]) _
    · rwa [endDollars_dollar double] at paired

/-- An escaped text is read back, in front of a delimiter that its last dollar
signs leave alone. -/
theorem quotedText_escape {text : List Char} (shut : quotedText rest = some ([], 0))
    (paired : rest.head? = some '$' → endDollars text % 2 = 0) : ReadsBack rest text := by
  induction size : text.length using Nat.strong_induction_on generalizing text with
  | _ size ih =>
  subst size
  cases text with
  | nil => exact shut
  | cons c text =>
      by_cases first : c = '$'
      · subst first
        cases text with
        | nil =>
            refine .dollar nofun ?_ shut
            rcases quotedText_zero shut with ⟨after, rfl⟩ | ⟨after, rfl⟩
            · rintro c ⟨⟩
              decide
            · exact absurd (paired rfl) (by decide)
        | cons d text =>
            exact .after_dollar paired fun {shorter} less even => ih _ less even rfl
      · rw [endDollars_cons_of_ne first] at paired
        exact .cons first (ih _ (Nat.lt_succ_self _) paired rfl)

end Escapes

/-! ## Between quotes -/

/-- Between the quotes of a string the text is read as tokens with the given
signs. -/
def InQuotes (text : String) (signs : List Sign) : Prop :=
  ∀ opened start offset rest, ∃ offset',
    Cursor.Reaches ⟨.quoted start :: opened, offset, text.toList ++ '"' :: rest⟩ signs
      ⟨.quoted start :: opened, offset', '"' :: rest⟩

/-- A scan reaches the place behind a delimiter in a string. -/
theorem Cursor.Reaches.inQuotes {kind : Kind} (listed : kind ∈ [Kind.interpOpen, .quoteClose])
    (opened : List Enclosure) (start offset : Nat) (rest : List Char) :
    Cursor.Reaches ⟨.quoted start :: opened, offset, kind.spelling.toList ++ rest⟩ [.mark kind]
      ⟨Enclosure.next (.quoted start :: opened) offset kind,
        offset + utf8Length kind.spelling.toList, rest⟩ := by
  have present : kind.spelling.toList ≠ [] := by
    revert kind
    decide
  have read : readPiece (.quoted start :: opened) (kind.spelling.toList ++ rest) =
      .ok (.lexeme (.plain kind kind.spelling.toList)) := by
    simp only [List.mem_cons, List.not_mem_nil, or_false] at listed
    rcases listed with rfl | rfl <;> rfl
  have reached : Cursor.Reaches _ [(Lexeme.plain kind kind.spelling.toList).sign] _ :=
    .lexeme offset present read
  rwa [Lexeme.sign, Lexeme.plain, String.ofList_toList] at reached

namespace InQuotes

variable {text text' : String} {signs signs' : List Sign}

theorem empty : InQuotes "" [] :=
  fun _ _ offset _ => ⟨offset, .refl _⟩

/-- Literal text in front of an interpolation or of the closing quote. -/
theorem literal (present : text ≠ "") (inner : InQuotes text' signs)
    (shut : ∀ rest, quotedText (text'.toList ++ '"' :: rest) = some ([], 0))
    (paired : text'.toList.head? = some '$' → endDollars text.toList % 2 = 0) :
    InQuotes (escapeLiteral false text ++ text') (⟨.fragment, text⟩ :: signs) := by
  intro opened start offset rest
  have whole : ReadsBack (text'.toList ++ '"' :: rest) text.toList := by
    apply quotedText_escape (shut rest)
    intro head
    cases chars : text'.toList with
    | nil =>
        rw [chars] at head
        cases head
    | cons c more =>
        rw [chars] at head
        exact paired (chars ▸ head)
  have width : 0 < (escapeQuoted text.toList).length :=
    List.length_pos_iff.2 (escapeQuoted_ne_nil (by simpa using present))
  have read : readPiece (.quoted start :: opened)
      (escapeQuoted text.toList ++ (text'.toList ++ '"' :: rest)) =
      .ok (.lexeme ⟨.fragment, text.toList, escapeQuoted text.toList⟩) := by
    rw [ReadsBack] at whole
    rw [readPiece, whole, stringPiece, if_pos width, List.take_left]
  obtain ⟨offset', reached⟩ := inner opened start _ rest
  refine ⟨offset', ?_⟩
  have front : Cursor.Reaches _ [(⟨.fragment, text.toList, escapeQuoted text.toList⟩ : Lexeme).sign]
      _ := .lexeme offset (List.length_pos_iff.1 width) read
  rw [Lexeme.sign, String.ofList_toList] at front
  rw [String.toList_append, escapeLiteral, String.toList_ofList, List.append_assoc]
  exact front.trans reached

/-- An interpolation in front of the rest. -/
theorem interpolation {breaks : List Char → Prop} (value : Legible breaks text signs)
    (meets : ∀ rest, breaks ('}' :: rest)) (inner : InQuotes text' signs') :
    InQuotes (NixSyntax.interpolation text ++ text')
      (.mark .interpOpen :: (signs ++ .mark .interpClose :: signs')) := by
  intro opened start offset rest
  have opening := Cursor.Reaches.inQuotes (by decide : Kind.interpOpen ∈ _) opened start offset
    (text.toList ++ '}' :: (text'.toList ++ '"' :: rest))
  have code : InCode (.interpolation :: .quoted start :: opened) := by
    rintro top ⟨⟩
    rfl
  obtain ⟨middle, within⟩ := value _ _ _ code (meets _)
  have closing := Cursor.Reaches.delimiter (by decide : Kind.curlyClose ∈ Kind.standsAlone)
      code middle (text'.toList ++ '"' :: rest)
  obtain ⟨offset', reached⟩ := inner opened start _ rest
  refine ⟨offset', ?_⟩
  have whole := opening.trans (within.trans (closing.trans reached))
  simp only [NixSyntax.interpolation, String.toList_append, List.append_assoc]
  exact whole

end InQuotes

/-- A string in double quotes. -/
theorem Legible.quotes {text : String} {signs : List Sign} (inner : InQuotes text signs) :
    Legible (fun _ => True) (stringQuotes false ++ text ++ stringQuotes false)
      (.mark .quoteOpen :: (signs ++ [.mark .quoteClose])) := by
  intro opened offset rest code _
  have opening := Cursor.Reaches.delimiter (by decide : Kind.quoteOpen ∈ Kind.standsAlone) code
    offset (text.toList ++ '"' :: rest)
  obtain ⟨middle, within⟩ := inner opened offset _ rest
  have closing :=
    Cursor.Reaches.inQuotes (by decide : Kind.quoteClose ∈ _) opened offset middle rest
  have whole := opening.trans (within.trans closing)
  refine ⟨middle + utf8Length Kind.quoteClose.spelling.toList, ?_⟩
  simp only [stringQuotes, String.toList_append, List.append_assoc]
  exact whole

end NixSyntax
