/-
Module: NixSyntax.Proofs.Lexicon
Purpose: The patterns of code as languages, and the texts that begin with none of them.
Main exports: Lexicon.patterns, Lexicon.Absent, readCode_unrecognised
-/
import Mathlib.Computability.Language
import NixSyntax.Proofs.Legible

namespace NixSyntax

/-!
What the scanner tries in code, one after another, are regular patterns.  They
are written down here as such, apart from the functions that recognise them.
The scanner gives a text up exactly when no word of any pattern stands at its
front.  Nearly always the first character settles that: it is a digit or starts
a word, or some symbol is spelled with it.  Only a path behind a tilde takes a
longer look.
-/

open scoped Computability

namespace Lexicon

/-! ## Patterns -/

/-- One character of a class. -/
def oneOf (accepts : Char → Bool) : Language Char :=
  {word | ∃ c, word = [c] ∧ accepts c}

/-- One or more characters of a class. -/
def run (accepts : Char → Bool) : Language Char :=
  oneOf accepts * (oneOf accepts)∗

/-- Nothing but the given text. -/
def spelled (text : String) : Language Char :=
  {text.toList}

def lineComment : Language Char :=
  spelled "#" * (oneOf fun c => c != '\r' && c != '\n')∗

/-- A slash with a segment of a path behind it. -/
def slashed : Language Char :=
  spelled "/" * run isPathChar

/-- A path in angle brackets, or one that has a slash. -/
def path : Language Char :=
  spelled "<" * run isPathChar * slashed∗ * spelled ">" +
    (1 + spelled "~") * (oneOf isPathChar)∗ * (slashed * slashed∗)

def exponent : Language Char :=
  (spelled "e" + spelled "E") * (1 + spelled "+" + spelled "-") * run Char.isDigit

def float : Language Char :=
  run Char.isDigit * spelled "." * run Char.isDigit * (1 + exponent) + run Char.isDigit * exponent

def word : Language Char :=
  oneOf isWordStart * (oneOf isWordChar)∗

/-- What may stand in code.  Of a block comment only the start is a pattern. -/
def patterns : List (Language Char) :=
  [run isBlank, lineComment, spelled "/*", path, float, run Char.isDigit, word] ++
    Kind.symbols.map fun kind => spelled kind.spelling

/-! ## Texts without a pattern -/

/-- No word of the language stands at the front of the text. -/
def Absent (language : Language Char) (text : List Char) : Prop :=
  ∀ word ∈ language, ¬ word <+: text

variable {first second : Language Char} {accepts : Char → Bool} {c : Char} {text rest : List Char}

/-- Where a word does not begin, nothing longer does. -/
theorem Absent.mul (absent : Absent first text) : Absent (first * second) text := by
  intro word member front
  obtain ⟨start, starts, tail, -, rfl⟩ := Language.mem_mul.1 member
  exact absent start starts ((List.prefix_append start tail).trans front)

theorem absent_add : Absent (first + second) text ↔ Absent first text ∧ Absent second text := by
  constructor
  · intro absent
    exact ⟨fun word member => absent word (.inl member), fun word member => absent word (.inr member)⟩
  · rintro ⟨absent, absentToo⟩ word (member | member)
    · exact absent word member
    · exact absentToo word member

/-- What may follow any number of times does not matter. -/
@[simp] theorem absent_mul_kstar : Absent (first * second∗) text ↔ Absent first text := by
  refine ⟨fun absent word member => absent word ?_, Absent.mul⟩
  exact ⟨word, member, [], Language.nil_mem_kstar second, List.append_nil word⟩

@[simp] theorem absent_spelled {spelling : String} :
    Absent (spelled spelling) text ↔ ¬ spelling.toList <+: text := by
  refine ⟨fun absent => absent _ rfl, ?_⟩
  rintro other word rfl
  exact other

theorem absent_spelled_mul {spelling : String} : Absent (spelled spelling * first) text ↔
    ∀ rest, text = spelling.toList ++ rest → Absent first rest := by
  constructor
  · rintro absent rest rfl word member front
    exact absent _ (Language.append_mem_mul rfl member) ((List.prefix_append_right_inj _).2 front)
  · rintro behind word ⟨start, rfl, tail, member, rfl⟩ ⟨more, rfl⟩
    exact behind _ (List.append_assoc _ tail more) tail member (List.prefix_append tail more)

theorem absent_oneOf_mul : Absent (oneOf accepts * first) (c :: rest) ↔
    (accepts c → Absent first rest) := by
  constructor
  · intro absent accepted word member front
    exact absent (c :: word) ⟨[c], ⟨c, rfl, accepted⟩, word, member, rfl⟩
      (List.cons_prefix_cons.2 ⟨rfl, front⟩)
  · rintro behind word ⟨start, ⟨d, rfl, accepted⟩, tail, member, rfl⟩ front
    obtain ⟨rfl, after⟩ := List.cons_prefix_cons.1 front
    exact behind accepted tail member after

@[simp] theorem absent_oneOf : Absent (oneOf accepts) text ↔
    ∀ c ∈ text.head?, accepts c = false := by
  constructor
  · intro absent c head
    rw [Option.mem_def, List.head?_eq_some_iff] at head
    obtain ⟨rest, rfl⟩ := head
    rw [← Bool.not_eq_true]
    exact fun accepted => absent [c] ⟨c, rfl, accepted⟩ ⟨rest, rfl⟩
  · rintro other word ⟨c, rfl, accepted⟩ ⟨rest, rfl⟩
    exact Bool.noConfusion ((other c rfl).symm.trans accepted)

/-- Characters of a class may stand in front, but need not. -/
theorem absent_kstar_mul : Absent ((oneOf accepts)∗ * first) (c :: rest) ↔
    Absent first (c :: rest) ∧ (accepts c → Absent ((oneOf accepts)∗ * first) rest) := by
  rw [← absent_oneOf_mul, ← absent_add, ← mul_assoc]
  nth_rewrite 1 [← Language.one_add_self_mul_kstar_eq_kstar]
  rw [add_mul, one_mul]

@[simp] theorem absent_run : Absent (run accepts) text ↔ ∀ c ∈ text.head?, accepts c = false := by
  rw [run, absent_mul_kstar, absent_oneOf]

/-- A path stands where a slash is reached through segments. -/
theorem absent_path (text : List Char) :
    Absent ((oneOf isPathChar)∗ * (slashed * slashed∗)) text ↔ '/' ∉ pathRun text := by
  induction text with
  | nil =>
      refine ⟨fun _ => List.not_mem_nil, fun _ => ?_⟩
      rintro word ⟨front, -, back, ⟨start, ⟨slash, rfl, tail, -, rfl⟩, more, -, rfl⟩, rfl⟩ empty
      simp at empty
  | cons c rest ih =>
      rw [absent_kstar_mul, ih, absent_mul_kstar, slashed, absent_spelled_mul, pathRun]
      by_cases inside : isPathChar c
      · have other : c ≠ '/' := by
          rintro rfl
          cases inside
        simp [inside, other, other.symm]
      · cases rest with
        | nil => simp [inside]
        | cons d rest =>
            by_cases slash : c = '/'
            · subst slash
              cases segment : isPathChar d <;> simp [inside, segment]
            · simp [inside, slash]

end Lexicon

/-! ## Texts that are given up -/

open Lexicon

/-- The scanner gives up at this character: none of its recognisers takes
anything here. -/
structure GivenUp (c : Char) (rest : List Char) : Prop where
  blank : isBlank c = false
  comment : c ≠ '#'
  path : pathWidth (c :: rest) = 0
  digit : c.isDigit = false
  word : isWordStart c = false
  symbol : ∀ kind ∈ Kind.symbols, ¬ kind.spelling.toList <+: c :: rest

theorem readCode_givenUp {opened : List Enclosure} {c : Char} {rest : List Char} {shown : String}
    (failed : readCode opened (c :: rest) = .error (.unrecognised shown)) :
    shown = String.singleton c ∧ GivenUp c rest := by
  have taken := readCode_read opened (c :: rest)
  rw [failed] at taken
  cases taken with
  | nothing solid noComment unread =>
      have lexed := readLexeme_read opened (c :: rest)
      rw [unread] at lexed
      cases lexed with
      | nothing path int word symbol =>
          refine ⟨rfl, ?_, fun same => noComment rest (same ▸ rfl), path, ?_, ?_, ?_⟩
          · simpa [List.takeWhile_cons] using solid
          · simpa [intWidth, List.takeWhile_cons] using int
          · simpa [wordWidth] using word
          · simpa [Kind.symbolAt] using symbol

/-- A character with which a symbol is spelled starts that symbol. -/
theorem ne_of_symbols {c d : Char} {rest : List Char}
    (symbol : ∀ kind ∈ Kind.symbols, ¬ kind.spelling.toList <+: c :: rest)
    (spelled : ∃ kind ∈ Kind.symbols, kind.spelling.toList = [d]) : c ≠ d := by
  rintro rfl
  obtain ⟨kind, member, spelling⟩ := spelled
  exact symbol kind member (spelling ▸ ⟨rest, rfl⟩)

theorem GivenUp.readCode {c : Char} {rest : List Char} (givenUp : GivenUp c rest)
    (opened : List Enclosure) :
    readCode opened (c :: rest) = .error (.unrecognised (String.singleton c)) := by
  obtain ⟨blank, comment, path, digit, word, symbol⟩ := givenUp
  have slash : c ≠ '/' := ne_of_symbols symbol ⟨.slash, by decide, by decide⟩
  have int : intWidth (c :: rest) = 0 := by simp [intWidth, digit]
  have float : floatWidth (c :: rest) = 0 := by simp [floatWidth, int]
  have words : wordWidth (c :: rest) = 0 := by simp [wordWidth, word]
  have symbols : Kind.symbolAt (c :: rest) = none := by simpa [Kind.symbolAt] using symbol
  have lexeme : readLexeme opened (c :: rest) = .error (.unrecognised (String.singleton c)) := by
    simp [readLexeme, path, float, int, words, symbols]
  have solid : readSolid opened (c :: rest) = (readLexeme opened (c :: rest)).map .lexeme := by
    unfold readSolid
    split
    · next shape => exact absurd (List.cons.inj shape).1 comment
    · next shape => exact absurd (List.cons.inj shape).1 slash
    · rfl
  simp only [NixSyntax.readCode, List.takeWhile_cons, blank, Bool.false_eq_true, if_false, solid,
    lexeme]
  rfl

/-- What starts no number, word or symbol is no character of a path either. -/
theorem isPathChar_eq_false {c : Char} {rest : List Char} (digit : c.isDigit = false)
    (word : isWordStart c = false)
    (symbol : ∀ kind ∈ Kind.symbols, ¬ kind.spelling.toList <+: c :: rest) :
    isPathChar c = false := by
  have dot : c ≠ '.' := ne_of_symbols symbol ⟨.dot, by decide, by decide⟩
  have plus : c ≠ '+' := ne_of_symbols symbol ⟨.plus, by decide, by decide⟩
  have dash : c ≠ '-' := ne_of_symbols symbol ⟨.dash, by decide, by decide⟩
  simp_all [isPathChar, isWordStart, Char.isAlphanum]

/-- Of all paths only one behind a tilde starts with nothing else. -/
theorem absent_path_iff {c : Char} {rest : List Char} (digit : c.isDigit = false)
    (word : isWordStart c = false)
    (symbol : ∀ kind ∈ Kind.symbols, ¬ kind.spelling.toList <+: c :: rest) :
    Absent Lexicon.path (c :: rest) ↔ pathWidth (c :: rest) = 0 := by
  have bracket : c ≠ '<' := ne_of_symbols symbol ⟨.less, by decide, by decide⟩
  have slash : c ≠ '/' := ne_of_symbols symbol ⟨.slash, by decide, by decide⟩
  have bare : pathRun (c :: rest) = [] := by
    simp [pathRun, isPathChar_eq_false digit word symbol, slash]
  have unbracketed : Absent (spelled "<" * run isPathChar * slashed∗ * spelled ">") (c :: rest) := by
    iterate 3 apply Absent.mul
    simp [bracket.symm]
  rw [Lexicon.path, absent_add, and_iff_right unbracketed, mul_assoc, add_mul, one_mul,
    absent_add, absent_path, absent_spelled_mul, bare]
  by_cases tilde : c = '~'
  · subst tilde
    simp [pathWidth, absent_path]
  · have width := pathWidth_eq_zero bracket tilde (bare ▸ List.not_mem_nil)
    simp [tilde, width]

/-- The scanner gives up at just those characters with which no pattern begins. -/
theorem givenUp_iff {c : Char} {rest : List Char} :
    GivenUp c rest ↔ ∀ pattern ∈ patterns, Absent pattern (c :: rest) := by
  simp only [patterns, List.forall_mem_append, List.forall_mem_cons, List.forall_mem_map,
    List.not_mem_nil, false_implies, implies_true, and_true]
  constructor
  · rintro ⟨blank, comment, path, digit, word, symbol⟩
    have slash : c ≠ '/' := ne_of_symbols symbol ⟨.slash, by decide, by decide⟩
    have digits : Absent (run Char.isDigit) (c :: rest) := by simpa using digit
    refine ⟨⟨?_, ?_, ?_, (absent_path_iff digit word symbol).2 path, ?_, digits, ?_⟩, ?_⟩
    · simpa using blank
    · simpa [lineComment] using comment.symm
    · simp [slash.symm]
    · exact absent_add.2 ⟨digits.mul.mul.mul, digits.mul⟩
    · simpa [Lexicon.word] using word
    · simpa using symbol
  · rintro ⟨⟨blank, comment, -, path, -, digits, words⟩, symbols⟩
    have digit : c.isDigit = false := by simpa using digits
    have word : isWordStart c = false := by simpa [Lexicon.word] using words
    have symbol : ∀ kind ∈ Kind.symbols, ¬ kind.spelling.toList <+: c :: rest := by
      simpa using symbols
    refine ⟨?_, ?_, (absent_path_iff digit word symbol).1 path, digit, word, symbol⟩
    · simpa using blank
    · simpa [lineComment, eq_comm] using comment

/-- In code a character is reported as unrecognised exactly where no pattern
matches. -/
theorem readCode_unrecognised {opened : List Enclosure} {c : Char} {rest : List Char}
    {shown : String} : readCode opened (c :: rest) = .error (.unrecognised shown) ↔
      shown = String.singleton c ∧ ∀ pattern ∈ patterns, Absent pattern (c :: rest) := by
  rw [← givenUp_iff]
  refine ⟨readCode_givenUp, ?_⟩
  rintro ⟨rfl, givenUp⟩
  exact givenUp.readCode opened

end NixSyntax
