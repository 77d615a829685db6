/-
Module: NixSyntax.Proofs.Indenting
Purpose: Which printed indented strings are read back as the text they stand for.
Main exports: QuotesPaired, Peels, rereadIndented_paired, paired_of_rereadIndented
-/
import NixSyntax.Proofs.Quoting

namespace NixSyntax

/-!
The printer writes a third quote behind every two, and two quotes in front of
`${`.  The scanner reads three quotes as two, so an escape that starts right
behind a quote of the text takes that quote along, and so does the closing
delimiter.  Everything else is read back.  A text is therefore taken apart from
its front, as the printer and the scanner both do, up to its end or up to such
a quote.
-/

/-! ## Quotes that come in pairs -/

/-- No odd run of single quotes stands at the end of the text or in front of the
start of an interpolation. -/
def QuotesPaired (text : List Char) : Prop :=
  ∀ front back, text = front ++ back → back = [] ∨ ['$', '{'] <+: back →
    endRun '\'' front % 2 = 0

namespace QuotesPaired

variable {c : Char} {text : List Char}

theorem nil : QuotesPaired [] := by
  intro front back whole _
  rw [(List.append_eq_nil_iff.1 whole.symm).1]
  rfl

/-- Another character changes nothing. -/
theorem cons_iff (other : c ≠ '\'') : QuotesPaired (c :: text) ↔ QuotesPaired text := by
  constructor
  · rintro paired front back rfl ends
    rw [← endRun_cons_of_ne other]
    exact paired (c :: front) back rfl ends
  · intro paired front back whole ends
    cases front with
    | nil => rfl
    | cons d front =>
        obtain ⟨rfl, rfl⟩ := List.cons.inj whole
        rw [endRun_cons_of_ne other]
        exact paired front back rfl ends

/-- A pair of quotes changes nothing. -/
theorem pair_iff : QuotesPaired ('\'' :: '\'' :: text) ↔ QuotesPaired text := by
  constructor
  · rintro paired front back rfl ends
    rw [← endRun_pair]
    exact paired ('\'' :: '\'' :: front) back rfl ends
  · intro paired front back whole ends
    rcases front with _ | ⟨d, _ | ⟨e, front⟩⟩
    · rfl
    · obtain ⟨rfl, rfl⟩ := List.cons.inj whole
      rcases ends with ends | ends <;> simp at ends
    · obtain ⟨rfl, rest⟩ := List.cons.inj whole
      obtain ⟨rfl, rfl⟩ := List.cons.inj rest
      rw [endRun_pair]
      exact paired front back rfl ends

/-- A quote on its own changes nothing, unless the text ends behind it or an
interpolation starts there. -/
theorem quote_iff (other : c ≠ '\'') (plain : ¬ ['$', '{'] <+: c :: text) :
    QuotesPaired ('\'' :: c :: text) ↔ QuotesPaired (c :: text) := by
  constructor
  · intro paired front back whole ends
    cases front with
    | nil => rfl
    | cons d front =>
        obtain ⟨rfl, rfl⟩ := List.cons.inj whole
        rw [← endRun_mark other]
        exact paired ('\'' :: c :: front) back rfl ends
  · intro paired front back whole ends
    rcases front with _ | ⟨d, _ | ⟨e, front⟩⟩
    · rfl
    · obtain ⟨rfl, rfl⟩ := List.cons.inj whole
      rcases ends with ends | ends
      · cases ends
      · exact absurd ends plain
    · obtain ⟨rfl, rest⟩ := List.cons.inj whole
      obtain ⟨rfl, rfl⟩ := List.cons.inj rest
      rw [endRun_mark other]
      exact paired (c :: front) back rfl ends

instance : DecidablePred QuotesPaired := fun text =>
  decidable_of_iff
    (∀ count ≤ text.length, text.drop count = [] ∨ ['$', '{'] <+: text.drop count →
      endRun '\'' (text.take count) % 2 = 0) <| by
    constructor
    · rintro each front back rfl ends
      have paired := each front.length (by simp)
      rw [List.drop_left, List.take_left] at paired
      exact paired ends
    · intro paired count _ ends
      exact paired _ _ (List.take_append_drop count text).symm ends

theorem not_quote : ¬ QuotesPaired ['\''] :=
  fun paired => absurd (paired ['\''] [] rfl (.inl rfl)) (by decide)

theorem not_quote_brace : ¬ QuotesPaired ('\'' :: '$' :: '{' :: text) :=
  fun paired => absurd (paired ['\''] ('$' :: '{' :: text) rfl (.inr ⟨text, rfl⟩)) (by decide)

end QuotesPaired

/-! ## Reading escapes -/

/-- What is read of an escaped text up to the closing quotes. -/
def rereadIndented (text : List Char) : Option (List Char × Nat) :=
  indentedText (escapeIndented text ++ ['\'', '\''])

theorem indentedText_plain {c : Char} (other : c ∉ ['\'', '$']) (rest : List Char) :
    indentedText (c :: rest) = (indentedText rest).map (consText [c] 1) := by
  simp only [List.mem_cons, List.not_mem_nil, or_false, not_or] at other
  rw [indentedText] <;> simp_all

theorem indentedText_dollar {text : List Char} (other : ∀ c ∈ text.head?, c ∉ ['$', '{']) :
    indentedText ('$' :: text) = (indentedText text).map (consText ['$'] 1) := by
  cases text with
  | nil => rfl
  | cons c text =>
      have special := other c rfl
      simp only [List.mem_cons, List.not_mem_nil, or_false, not_or] at special
      rw [indentedText] <;> simp_all

theorem indentedText_quote {text : List Char} (other : text.head? ≠ some '\'') :
    indentedText ('\'' :: text) = (indentedText text).map (consText ['\''] 1) := by
  cases text with
  | nil => rfl
  | cons c text =>
      have special : c ≠ '\'' := fun same => other (by rw [same]; rfl)
      rw [indentedText] <;> simp_all

theorem escapeIndented_cons {c : Char} {text : List Char} (quotes : ¬ ['\'', '\''] <+: c :: text)
    (brace : ¬ ['$', '{'] <+: c :: text) :
    escapeIndented (c :: text) = c :: escapeIndented text := by
  rw [escapeIndented]
  · rintro rest rfl rfl
    exact quotes ⟨rest, rfl⟩
  · rintro rest rfl rfl
    exact brace ⟨rest, rfl⟩

/-- The front of a text is read back as it is, so that the rest decides on the
whole. -/
structure Peels (front rest : List Char) : Prop where
  present : front ≠ []
  paired : QuotesPaired (front ++ rest) ↔ QuotesPaired rest
  read : ∃ width, (escapeIndented (front ++ rest)).length = width + (escapeIndented rest).length ∧
    rereadIndented (front ++ rest) = (rereadIndented rest).map (consText front width)

namespace Peels

variable {c : Char} {rest : List Char}

theorem quotes (rest : List Char) : Peels ['\'', '\''] rest where
  present := List.cons_ne_nil _ _
  paired := QuotesPaired.pair_iff
  read := by
    have shape : escapeIndented (['\'', '\''] ++ rest) =
        ['\'', '\'', '\''] ++ escapeIndented rest := by
      simp [escapeIndented]
    refine ⟨3, ?_, ?_⟩
    · rw [shape, List.length_append]
      rfl
    · rw [rereadIndented, shape]
      simp [indentedText, rereadIndented]

theorem brace (rest : List Char) : Peels ['$', '{'] rest where
  present := List.cons_ne_nil _ _
  paired := (QuotesPaired.cons_iff (by decide)).trans (QuotesPaired.cons_iff (by decide))
  read := by
    have shape : escapeIndented (['$', '{'] ++ rest) =
        ['\'', '\'', '$', '{'] ++ escapeIndented rest := by
      simp [escapeIndented]
    have read : indentedText ('{' :: (escapeIndented rest ++ ['\'', '\''])) =
        (rereadIndented rest).map (consText ['{'] 1) := indentedText_plain (by decide) _
    refine ⟨4, ?_, ?_⟩
    · rw [shape, List.length_append]
      rfl
    · rw [rereadIndented, shape]
      cases result : rereadIndented rest <;> simp [indentedText, read, result, consText]
      omega

/-- A character that the printer and the scanner both take for itself. -/
theorem plain (paired : QuotesPaired (c :: rest) ↔ QuotesPaired rest)
    (shape : escapeIndented (c :: rest) = c :: escapeIndented rest)
    (read : indentedText (c :: (escapeIndented rest ++ ['\'', '\''])) =
      (rereadIndented rest).map (consText [c] 1)) : Peels [c] rest where
  present := List.cons_ne_nil _ _
  paired := paired
  read := by
    refine ⟨1, ?_, ?_⟩
    · rw [List.singleton_append, shape, List.length_cons, Nat.add_comm]
    · rw [List.singleton_append, rereadIndented, shape]
      exact read

/-- A pair of dollar signs. -/
theorem dollars (brace : ¬ ['{'] <+: rest) : Peels ['$', '$'] rest where
  present := List.cons_ne_nil _ _
  paired := (QuotesPaired.cons_iff (by decide)).trans (QuotesPaired.cons_iff (by decide))
  read := by
    have shape : escapeIndented (['$', '$'] ++ rest) = ['$', '$'] ++ escapeIndented rest := by
      have second : escapeIndented ('$' :: rest) = '$' :: escapeIndented rest :=
        escapeIndented_cons (by simp) (by simpa using brace)
      have first : escapeIndented ('$' :: '$' :: rest) = '$' :: escapeIndented ('$' :: rest) :=
        escapeIndented_cons (by simp) (by simp)
      rw [List.cons_append, List.singleton_append, first, second]
      rfl
    refine ⟨2, ?_, ?_⟩
    · rw [shape, List.length_append]
      rfl
    · rw [rereadIndented, shape]
      simp [indentedText, rereadIndented]

end Peels

/-- What follows a dollar sign in an escaped text, if it does not follow one in the
text, is none. -/
theorem escapeIndented_head {text : List Char} (other : ∀ c ∈ text.head?, c ∉ ['$', '{']) :
    ∀ c ∈ (escapeIndented text ++ ['\'', '\'']).head?, c ∉ ['$', '{'] := by
  unfold escapeIndented
  split
  · rintro c ⟨⟩
    decide
  · rintro c ⟨⟩
    decide
  · rintro c ⟨⟩
    decide
  · next c rest _ _ =>
      rintro d ⟨⟩
      exact other c rfl

theorem escapeIndented_head_quote {text : List Char} (present : text ≠ [])
    (quote : text.head? ≠ some '\'') (brace : ¬ ['$', '{'] <+: text) :
    (escapeIndented text ++ ['\'', '\'']).head? ≠ some '\'' := by
  unfold escapeIndented
  split
  · exact absurd rfl present
  · exact absurd rfl quote
  · next rest => exact absurd ⟨rest, rfl⟩ brace
  · exact quote

/-- A dollar sign that no brace follows is read back, on its own or along with the
next one. -/
theorem Peels.dollar {text : List Char} (brace : ¬ ['{'] <+: text) :
    ∃ front rest, '$' :: text = front ++ rest ∧ Peels front rest := by
  have shape : escapeIndented ('$' :: text) = '$' :: escapeIndented text :=
    escapeIndented_cons (by simp) (by simpa using brace)
  have single : (∀ c ∈ (escapeIndented text ++ ['\'', '\'']).head?, c ∉ ['$', '{']) →
      Peels ['$'] text :=
    fun other => .plain (QuotesPaired.cons_iff (by decide)) shape (indentedText_dollar other)
  rcases text with _ | ⟨c, rest⟩
  · exact ⟨['$'], [], rfl, single (escapeIndented_head nofun)⟩
  have notBrace : c ≠ '{' := by
    rintro rfl
    exact brace ⟨rest, rfl⟩
  by_cases double : c = '$'
  · subst double
    by_cases opens : ['{'] <+: rest
    · -- The second dollar sign belongs to the brace, which is escaped.
      obtain ⟨more, rfl⟩ := opens
      refine ⟨['$'], _, rfl, single ?_⟩
      rintro d ⟨⟩
      decide
    · exact ⟨['$', '$'], rest, rfl, .dollars opens⟩
  · refine ⟨['$'], _, rfl, single (escapeIndented_head ?_)⟩
    rintro d ⟨⟩
    simp [double, notBrace]

/-- A quote without a partner is taken for the start of the escape behind it. -/
theorem rereadIndented_quote {text : List Char} (ends : text = [] ∨ ['$', '{'] <+: text) :
    ¬ QuotesPaired ('\'' :: text) ∧
      ∀ width, rereadIndented ('\'' :: text) ≠ some ('\'' :: text, width) := by
  rcases ends with rfl | ⟨rest, rfl⟩
  · exact ⟨QuotesPaired.not_quote, nofun⟩
  · refine ⟨QuotesPaired.not_quote_brace, ?_⟩
    intro width
    simp [rereadIndented, escapeIndented, indentedText, consText]

/-- Text is read back from its front, unless an unpaired quote stands there. -/
theorem peels_or (text : List Char) :
    text = [] ∨ (∃ front rest, text = front ++ rest ∧ Peels front rest) ∨
      (¬ QuotesPaired text ∧ ∀ width, rereadIndented text ≠ some (text, width)) := by
  rcases text with _ | ⟨c, text⟩
  · exact .inl rfl
  right
  by_cases quotes : ['\'', '\''] <+: c :: text
  · obtain ⟨rest, same⟩ := quotes
    exact .inl ⟨_, rest, same.symm, .quotes rest⟩
  by_cases brace : ['$', '{'] <+: c :: text
  · obtain ⟨rest, same⟩ := brace
    exact .inl ⟨_, rest, same.symm, .brace rest⟩
  by_cases quote : c = '\''
  · subst quote
    by_cases ends : text = [] ∨ ['$', '{'] <+: text
    · exact .inr (rereadIndented_quote ends)
    · left
      rw [not_or] at ends
      obtain ⟨d, rest, rfl⟩ := List.exists_cons_of_ne_nil ends.1
      have other : d ≠ '\'' := by
        rintro rfl
        exact quotes ⟨rest, rfl⟩
      have differs := fun same => other (Option.some.inj same)
      have head := escapeIndented_head_quote ends.1 differs ends.2
      exact ⟨['\''], _, rfl, .plain (QuotesPaired.quote_iff other ends.2)
        (escapeIndented_cons quotes brace) (indentedText_quote head)⟩
  · left
    by_cases dollar : c = '$'
    · subst dollar
      exact Peels.dollar (by simpa using brace)
    · exact ⟨[c], _, rfl, .plain (QuotesPaired.cons_iff quote) (escapeIndented_cons quotes brace)
        (indentedText_plain (by simp [quote, dollar]) _)⟩

/-- Text is taken apart from its front, up to its end or to an unpaired quote. -/
theorem indented_induction {motive : List Char → Prop} (text : List Char) (nil : motive [])
    (peels : ∀ front rest, Peels front rest → motive rest → motive (front ++ rest))
    (unpaired : ∀ text, ¬ QuotesPaired text →
      (∀ width, rereadIndented text ≠ some (text, width)) → motive text) : motive text := by
  induction size : text.length using Nat.strong_induction_on generalizing text with
  | _ size ih =>
  subst size
  rcases peels_or text with rfl | ⟨front, rest, rfl, peeled⟩ | ⟨not_paired, differs⟩
  · exact nil
  · refine peels front rest peeled (ih rest.length ?_ rest rfl)
    have present := List.length_pos_iff.2 peeled.present
    rw [List.length_append]
    omega
  · exact unpaired text not_paired differs

/-- A text whose quotes are paired is read back from its escapes. -/
theorem rereadIndented_paired {text : List Char} (paired : QuotesPaired text) :
    rereadIndented text = some (text, (escapeIndented text).length) := by
  induction text using indented_induction with
  | nil => rfl
  | peels front rest peeled ih =>
      obtain ⟨width, length, read⟩ := peeled.read
      rw [read, ih (peeled.paired.1 paired), length]
      rfl
  | unpaired text not_paired _ => exact absurd paired not_paired

/-- No other text is. -/
theorem paired_of_rereadIndented {text : List Char} {width : Nat}
    (read : rereadIndented text = some (text, width)) : QuotesPaired text := by
  induction text using indented_induction generalizing width with
  | nil => exact .nil
  | peels front rest peeled ih =>
      obtain ⟨wide, -, shape⟩ := peeled.read
      rw [shape, Option.map_eq_some_iff] at read
      obtain ⟨⟨value, width⟩, inner, same⟩ := read
      obtain rfl : value = rest := List.append_cancel_left (congrArg Prod.fst same)
      exact peeled.paired.2 (ih inner)
  | unpaired text _ differs => exact absurd read (differs width)

end NixSyntax
