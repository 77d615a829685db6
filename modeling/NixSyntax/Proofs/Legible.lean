/-
Module: NixSyntax.Proofs.Legible
Purpose: Texts that the scanner reads as the same tokens in front of all that breaks them off.
Main exports: Cursor.Reaches, Breaks, EndsWord, Legible, Legible.append, PathShape, isPath_iff,
  Legible.braces
-/
import NixSyntax.Proofs.Nesting
import NixSyntax.Tree.Printer

namespace NixSyntax

/-!
The scanner decides on a token by what stands behind it too: a letter makes a
word longer, and a slash makes a path of it.  A legible text is read as the
same tokens wherever the text behind it starts with something that belongs to
none of them, and whatever is open around it.  Legible texts are put together
side by side, if each of them breaks off the one in front of it.
-/

/-! ## Scanning a text from one place to another -/

/-- A place in a scan: what is open there, its byte offset and the text
ahead. -/
structure Cursor where
  opened : List Enclosure
  offset : Nat
  text : List Char

/-- From one place a scan reads pieces with the given signs, none of which is a
comment, and goes on as from another one. -/
def Cursor.Reaches (source : Cursor) (signs : List Sign) (target : Cursor) : Prop :=
  ∃ pieces, Piece.signs pieces = signs ∧
    (∀ comment, Piece.trivium (.comment comment) ∉ pieces) ∧
    scan source.opened source.offset source.text =
      (scan target.opened target.offset target.text).map (pieces ++ ·)

namespace Cursor.Reaches

variable {source middle target : Cursor} {signs signs' : List Sign}

theorem refl (source : Cursor) : source.Reaches [] source := by
  refine ⟨[], rfl, by simp, ?_⟩
  cases scan source.opened source.offset source.text <;> rfl

theorem trans (first : source.Reaches signs middle) (second : middle.Reaches signs' target) :
    source.Reaches (signs ++ signs') target := by
  obtain ⟨pieces, rfl, quiet, run⟩ := first
  obtain ⟨others, rfl, quietToo, continued⟩ := second
  refine ⟨pieces ++ others, Piece.signs_append pieces others, ?_, ?_⟩
  · intro comment member
    rcases List.mem_append.1 member with front | back
    · exact quiet comment front
    · exact quietToo comment back
  · rw [run, continued]
    cases scan target.opened target.offset target.text with
    | error fault => rfl
    | ok more => simp [Except.map]

/-- A scan reaches the place behind a lexeme. -/
theorem lexeme {opened : List Enclosure} {lexeme : Lexeme} {rest : List Char} (offset : Nat)
    (present : lexeme.raw ≠ [])
    (read : readPiece opened (lexeme.raw ++ rest) = .ok (.lexeme lexeme)) :
    Reaches ⟨opened, offset, lexeme.raw ++ rest⟩ [lexeme.sign]
      ⟨Enclosure.next opened offset lexeme.kind, offset + utf8Length lexeme.raw, rest⟩ :=
  ⟨[.lexeme lexeme], rfl, by simp,
    scan_read (show (Piece.lexeme lexeme).raw ≠ [] from present) read⟩

end Cursor.Reaches

/-! ## Legible texts -/

/-- The text is read as tokens with the given signs, if what stands behind it is
as `breaks` says.  All that is opened in it is closed in it. -/
def Legible (breaks : List Char → Prop) (text : String) (signs : List Sign) : Prop :=
  ∀ opened offset rest, InCode opened → breaks rest → ∃ offset',
    Cursor.Reaches ⟨opened, offset, text.toList ++ rest⟩ signs ⟨opened, offset', rest⟩

namespace Legible

variable {breaks breaks' : List Char → Prop} {text text' : String} {signs signs' : List Sign}

theorem mono (legible : Legible breaks text signs) (weaker : ∀ rest, breaks' rest → breaks rest) :
    Legible breaks' text signs :=
  fun opened offset rest code ends => legible opened offset rest code (weaker rest ends)

theorem empty : Legible breaks "" [] :=
  fun opened offset rest _ _ => ⟨offset, .refl ⟨opened, offset, rest⟩⟩

/-- A text is legible in front of a second one that breaks it off. -/
theorem append (first : Legible breaks text signs) (second : Legible breaks' text' signs')
    (meets : ∀ rest, breaks' rest → breaks (text'.toList ++ rest)) :
    Legible breaks' (text ++ text') (signs ++ signs') := by
  intro opened offset rest code ends
  obtain ⟨middle, reached⟩ := first opened offset (text'.toList ++ rest) code (meets rest ends)
  obtain ⟨offset', reachedToo⟩ := second opened middle rest code ends
  refine ⟨offset', ?_⟩
  rw [String.toList_append, List.append_assoc]
  exact reached.trans reachedToo

end Legible

/-! ## What breaks off -/

/-- No word, number or path goes on. -/
def Breaks (rest : List Char) : Prop :=
  ∀ c ∈ rest.head?, ¬ isWordChar c ∧ ¬ isPathChar c ∧ c ≠ '/'

/-- No word goes on, nor a path that the word would start. -/
def EndsWord (rest : List Char) : Prop :=
  (∀ c ∈ rest.head?, ¬ isWordChar c) ∧ '/' ∉ pathRun rest

/-- No run of blanks goes on. -/
def EndsBlank (rest : List Char) : Prop :=
  ∀ c ∈ rest.head?, ¬ isBlank c

theorem pathRun_of_stop {text : List Char} (stops : ∀ c ∈ text.head?, ¬ isPathChar c ∧ c ≠ '/') :
    pathRun text = [] := by
  cases text with
  | nil => rfl
  | cons c rest =>
      obtain ⟨other, slash⟩ := stops c rfl
      simp [pathRun, other, slash]

theorem Breaks.pathRun {rest : List Char} (breaks : Breaks rest) : pathRun rest = [] :=
  pathRun_of_stop fun c head => (breaks c head).2

theorem Breaks.endsWord {rest : List Char} (breaks : Breaks rest) : EndsWord rest :=
  ⟨fun c head => (breaks c head).1, by simp [breaks.pathRun]⟩

/-- A character that breaks off words, numbers and paths. -/
def isStop (c : Char) : Bool :=
  !isWordChar c && !isPathChar c && c != '/'

theorem Breaks.of_head {rest : List Char} (c : Char) (head : rest.head? = some c)
    (stop : isStop c) : Breaks rest := by
  intro d found
  rw [Option.mem_def, head] at found
  cases found
  simpa [isStop, and_assoc] using stop

theorem EndsWord.of_head {rest : List Char} (c : Char) (head : rest.head? = some c)
    (stop : isStop c) : EndsWord rest :=
  (Breaks.of_head c head stop).endsWord

theorem EndsBlank.of_head {rest : List Char} (c : Char) (head : rest.head? = some c)
    (solid : isBlank c = false) : EndsBlank rest := by
  intro d found
  rw [Option.mem_def, head] at found
  cases found
  simpa using solid

/-- Without a slash of its own, a text does not start a path if what stands
behind it does not. -/
theorem pathRun_append {text rest : List Char} (slashless : '/' ∉ text)
    (behind : '/' ∉ pathRun rest) : '/' ∉ pathRun (text ++ rest) := by
  induction text with
  | nil => exact behind
  | cons c text ih =>
      rw [List.mem_cons, not_or] at slashless
      rw [List.cons_append, pathRun]
      split
      · rw [List.mem_cons, not_or]
        exact ⟨slashless.1, ih slashless.2⟩
      · exact List.not_mem_nil

theorem pathWidth_eq_zero {c : Char} {rest : List Char} (angle : c ≠ '<') (tilde : c ≠ '~')
    (slashless : '/' ∉ pathRun (c :: rest)) : pathWidth (c :: rest) = 0 := by
  unfold pathWidth
  split
  · next shape => exact absurd (List.cons.inj shape).1 angle
  · next shape => exact absurd (List.cons.inj shape).1 tilde
  · simp [slashless]

/-! ## Characters -/

/-- The printing characters of ASCII separate no tokens. -/
theorem not_isBlank {c : Char} (low : 33 ≤ c.toNat) (high : c.toNat ≤ 126) : ¬ isBlank c := by
  simp only [isBlank, inRanges, blankRanges, List.any_cons, List.any_nil, Bool.or_eq_true,
    Bool.and_eq_true, decide_eq_true_eq, Bool.or_false]
  omega

theorem isPathChar_solid {c : Char} (inside : isPathChar c) : ¬ isBlank c := by
  simp only [isPathChar, Bool.or_eq_true, beq_iff_eq] at inside
  rcases inside with (((inside | rfl) | rfl) | rfl) | rfl
  · have range : '0'.val ≤ c.val ∧ c.val ≤ 'z'.val := by
      grind [Char.isAlphanum, Char.isAlpha, Char.isDigit, Char.isUpper, Char.isLower]
    have low := UInt32.le_iff_toNat_le.1 range.1
    have high := UInt32.le_iff_toNat_le.1 range.2
    exact not_isBlank (le_trans (by decide) low) (le_trans high (by decide))
  all_goals decide

/-- The characters with which a text starts that is not a path in brackets, a
path at home or a comment. -/
theorem isPathChar_other {c : Char} (inside : isPathChar c) : c ∉ ['#', '/', '<', '~'] := by
  intro member
  simp only [List.mem_cons, List.not_mem_nil, or_false] at member
  rcases member with rfl | rfl | rfl | rfl <;> revert inside <;> decide

theorem isWordStart_pathChar {c : Char} (start : isWordStart c) : isPathChar c := by
  grind [isWordStart, isPathChar, Char.isAlphanum]

theorem isWordStart_not_digit {c : Char} (start : isWordStart c) : ¬ c.isDigit := by
  simp only [isWordStart, Bool.or_eq_true, beq_iff_eq] at start
  rcases start with letter | rfl
  · grind [Char.isAlpha, Char.isDigit, Char.isUpper, Char.isLower]
  · decide

theorem isWordChar_ne_slash {c : Char} (inside : isWordChar c) : c ≠ '/' := by
  rintro rfl
  revert inside
  decide

/-! ## One token -/

/-- In code the class of a lexeme is found out unless a blank or a comment is
ahead. -/
theorem readPiece_lexeme {opened : List Enclosure} (code : InCode opened) {c : Char}
    {rest : List Char} (solid : ¬ isBlank c) (hash : c ≠ '#')
    (slash : c = '/' → rest.head? ≠ some '*') :
    readPiece opened (c :: rest) = (readLexeme opened (c :: rest)).map .lexeme := by
  rw [readPiece_code code, readCode, List.takeWhile_cons_of_neg solid]
  dsimp only
  unfold readSolid
  split
  · next shape => exact absurd (List.cons.inj shape).1 hash
  · next shape =>
      obtain ⟨same, rfl⟩ := List.cons.inj shape
      exact absurd rfl (slash same)
  · rfl

/-- A lexeme that opens and closes nothing. -/
theorem Legible.of_lexeme {breaks : List Char → Prop} {text : String} {kind : Kind}
    (present : text.toList ≠ []) (keeps : ∀ opened offset,
      Enclosure.next opened offset kind = opened)
    (read : ∀ opened rest, InCode opened → breaks rest →
      readPiece opened (text.toList ++ rest) = .ok (.lexeme (.plain kind text.toList))) :
    Legible breaks text [⟨kind, text⟩] := by
  intro opened offset rest code ends
  have reached : Cursor.Reaches ⟨opened, offset, text.toList ++ rest⟩
      [(Lexeme.plain kind text.toList).sign]
      ⟨Enclosure.next opened offset kind, offset + utf8Length text.toList, rest⟩ :=
    .lexeme offset present (read opened rest code ends)
  rw [keeps, Lexeme.sign, Lexeme.plain, String.ofList_toList] at reached
  exact ⟨_, reached⟩

/-- One blank. -/
theorem readPiece_blank {opened : List Enclosure} (code : InCode opened) {rest : List Char}
    (ends : EndsBlank rest) :
    readPiece opened (' ' :: rest) = .ok (.trivium (.blank [' '])) := by
  have run : (' ' :: rest).takeWhile isBlank = [' '] := by
    cases rest with
    | nil => rfl
    | cons c rest => simp [ends c rfl, show isBlank ' ' from rfl]
  rw [readPiece_code code, readCode, run]

theorem Legible.blank : Legible EndsBlank " " [] := by
  intro opened offset rest code ends
  have present : (Piece.trivium (.blank [' '])).raw ≠ [] := List.cons_ne_nil ' ' []
  exact ⟨_, [.trivium (.blank [' '])], rfl, by simp,
    scan_read present (readPiece_blank code ends)⟩

/-! ### Words -/

/-- The text is a word: an identifier or a reserved word. -/
def isWord (text : String) : Bool :=
  0 < text.toList.length && wordWidth text.toList == text.toList.length

theorem isWord_chars {text : String} (word : isWord text) :
    ∃ c tail, text.toList = c :: tail ∧ isWordStart c ∧ ∀ d ∈ tail, isWordChar d := by
  unfold isWord at word
  cases chars : text.toList with
  | nil => simp [chars] at word
  | cons c tail =>
      rw [chars, wordWidth] at word
      by_cases start : isWordStart c
      · have whole : (tail.takeWhile isWordChar).length = tail.length := by
          simp [start] at word
          omega
        refine ⟨c, tail, rfl, start, ?_⟩
        rw [← List.takeWhile_eq_self_iff]
        exact (List.takeWhile_prefix isWordChar).eq_of_length whole
      · simp [start] at word

theorem isWord_slashless {text : String} (word : isWord text) : '/' ∉ text.toList := by
  obtain ⟨c, tail, chars, start, inside⟩ := isWord_chars word
  rw [chars, List.mem_cons, not_or]
  refine ⟨?_, fun member => isWordChar_ne_slash (inside _ member) rfl⟩
  rintro rfl
  exact isPathChar_other (isWordStart_pathChar start) (by simp)

theorem takeWhile_append_of_ends {p : Char → Bool} {front rest : List Char}
    (inside : ∀ c ∈ front, p c) (ends : ∀ c ∈ rest.head?, ¬ p c) :
    (front ++ rest).takeWhile p = front := by
  rw [List.takeWhile_append_of_pos inside]
  cases rest with
  | nil => simp
  | cons c rest => simp [ends c rfl]

/-- A word that ends where the text goes on otherwise is read as a whole. -/
theorem readPiece_word {text : String} (word : isWord text) {opened : List Enclosure}
    (code : InCode opened) {rest : List Char} (ends : EndsWord rest) :
    readPiece opened (text.toList ++ rest) =
      .ok (.lexeme (.plain (.ofWord text) text.toList)) := by
  obtain ⟨c, tail, chars, start, inside⟩ := isWord_chars word
  have other := isPathChar_other (isWordStart_pathChar start)
  simp only [List.mem_cons, List.not_mem_nil, or_false, not_or] at other
  obtain ⟨hash, slash, angle, tilde⟩ := other
  have path : pathWidth (c :: (tail ++ rest)) = 0 := by
    apply pathWidth_eq_zero angle tilde
    rw [← List.cons_append, ← chars]
    exact pathRun_append (isWord_slashless word) ends.2
  have int : intWidth (c :: (tail ++ rest)) = 0 := by
    simp [intWidth, isWordStart_not_digit start]
  have float : floatWidth (c :: (tail ++ rest)) = 0 := by
    rw [floatWidth, int]
    rfl
  have width : wordWidth (c :: (tail ++ rest)) = text.toList.length := by
    rw [wordWidth, if_pos start, takeWhile_append_of_ends inside ends.1, chars,
      List.length_cons, Nat.add_comm]
  have whole : (c :: (tail ++ rest)).take text.toList.length = text.toList := by
    rw [← List.cons_append, ← chars, List.take_left]
  have lexed : readLexeme opened (c :: (tail ++ rest)) =
      .ok (.plain (.ofWord text) text.toList) := by
    have present : 0 < text.toList.length := by simp [chars]
    simp only [readLexeme, path, float, int, width, whole, String.ofList_toList, Nat.lt_irrefl,
      present, if_true, if_false]
  rw [chars, List.cons_append,
    readPiece_lexeme code (isPathChar_solid (isWordStart_pathChar start)) hash
      fun same => absurd same slash, lexed, chars]
  rfl

theorem Legible.word {text : String} (word : isWord text) :
    Legible EndsWord text [⟨.ofWord text, text⟩] := by
  apply Legible.of_lexeme
  · obtain ⟨c, tail, chars, -⟩ := isWord_chars word
    simp [chars]
  · intro opened offset
    have words : ∀ kind ∈ Kind.identifier :: Kind.reserved,
        Enclosure.next opened offset kind = opened := by
      simp [Kind.reserved, Enclosure.next]
    exact words _ (List.mem_cons.2 (ofWord_kind text))
  · exact fun opened rest code ends => readPiece_word word code ends

/-! ### Numbers -/

theorem isDigit_pathChar {c : Char} (digit : c.isDigit) : isPathChar c := by
  simp [isPathChar, Char.isAlphanum, digit]

/-- A run of digits is read as a whole. -/
theorem readPiece_int {text : String} (present : text.toList ≠ [])
    (digits : ∀ c ∈ text.toList, c.isDigit) {opened : List Enclosure} (code : InCode opened)
    {rest : List Char} (ends : Breaks rest) :
    readPiece opened (text.toList ++ rest) = .ok (.lexeme (.plain .int text.toList)) := by
  obtain ⟨c, tail, chars⟩ := List.exists_cons_of_ne_nil present
  have digit : c.isDigit := digits c (by simp [chars])
  have other := isPathChar_other (isDigit_pathChar digit)
  simp only [List.mem_cons, List.not_mem_nil, or_false, not_or] at other
  obtain ⟨hash, slash, angle, tilde⟩ := other
  have path : pathWidth (c :: (tail ++ rest)) = 0 := by
    apply pathWidth_eq_zero angle tilde
    rw [← List.cons_append, ← chars]
    refine pathRun_append ?_ (by simp [ends.pathRun])
    intro member
    exact isPathChar_other (isDigit_pathChar (digits _ member)) (by simp)
  have int : intWidth (c :: (tail ++ rest)) = text.toList.length := by
    rw [intWidth, ← List.cons_append, ← chars, takeWhile_append_of_ends digits]
    intro d head
    exact fun digit => (ends d head).2.1 (isDigit_pathChar digit)
  have float : floatWidth (c :: (tail ++ rest)) = 0 := by
    have behind : (c :: (tail ++ rest)).drop text.toList.length = rest := by
      rw [← List.cons_append, ← chars, List.drop_left]
    rw [floatWidth, int, behind]
    simp only [List.length_eq_zero_iff, present, if_false]
    cases rest with
    | nil => rfl
    | cons d rest =>
        have stops := (ends d rfl).2.1
        have point : d ≠ '.' := by
          rintro rfl
          exact stops rfl
        have small : d ≠ 'e' := by
          rintro rfl
          exact stops rfl
        have large : d ≠ 'E' := by
          rintro rfl
          exact stops rfl
        simp [point, exponentWidth, small, large]
  have whole : (c :: (tail ++ rest)).take text.toList.length = text.toList := by
    rw [← List.cons_append, ← chars, List.take_left]
  have lexed : readLexeme opened (c :: (tail ++ rest)) = .ok (.plain .int text.toList) := by
    have positive : 0 < text.toList.length := List.length_pos_iff.2 present
    simp only [readLexeme, path, float, int, whole, Nat.lt_irrefl, positive, if_true, if_false]
  rw [chars, List.cons_append,
    readPiece_lexeme code (isPathChar_solid (isDigit_pathChar digit)) hash
      fun same => absurd same slash, lexed, chars]
  rfl

theorem Legible.int {text : String} (present : text.toList ≠ [])
    (digits : ∀ c ∈ text.toList, c.isDigit) : Legible Breaks text [⟨.int, text⟩] :=
  .of_lexeme present (by intros; rfl)
    fun _ _ code ends => readPiece_int present digits code ends

/-! ### Paths -/

/-- The text is a path. -/
def isPath (text : String) : Bool :=
  0 < pathWidth text.toList && pathWidth text.toList == text.toList.length

theorem pathRun_pathRun (text : List Char) : pathRun (pathRun text) = pathRun text := by
  induction text with
  | nil => rfl
  | cons c rest ih =>
      rw [pathRun]
      split
      · next goes =>
          rw [pathRun, ih, if_pos]
          rcases Bool.or_eq_true_iff.1 goes with inside | joins
          · simp [inside]
          · -- What a slash joins to stays in the run.
            cases rest with
            | nil => simp at joins
            | cons d rest =>
                simp only [List.head?_cons, Option.map_some, Option.getD_some,
                  Bool.and_eq_true] at joins
                simp [pathRun, joins.1, joins.2]
      · rfl

theorem pathRun_append_of_stop {run rest : List Char} (whole : pathRun run = run)
    (stops : ∀ c ∈ rest.head?, ¬ isPathChar c ∧ c ≠ '/') : pathRun (run ++ rest) = run := by
  induction run with
  | nil => exact pathRun_of_stop stops
  | cons c run ih =>
      rw [pathRun] at whole
      split at whole
      · next goes =>
          rw [List.cons_append, pathRun, ih (List.cons.inj whole).2, if_pos]
          cases run with
          | nil =>
              simp only [List.head?_nil, Option.map_none, Option.getD_none, Bool.and_false,
                Bool.or_false] at goes
              simp [goes]
          | cons d run => exact goes
      · cases whole

theorem pathRun_front (text : List Char) : pathRun text <+: text := by
  induction text with
  | nil => exact List.nil_prefix
  | cons c rest ih =>
      rw [pathRun]
      split
      · exact (List.prefix_cons_inj c).2 ih
      · exact List.nil_prefix

/-- The shapes of a path: segments in angle brackets, and a run with a slash, behind
a tilde or without one. -/
inductive PathShape : List Char → Prop where
  | bracketed {run : List Char} (whole : pathRun run = run) (present : run ≠ [])
      (head : run.head? ≠ some '/') : PathShape ('<' :: (run ++ ['>']))
  | home {run : List Char} (whole : pathRun run = run) (slash : '/' ∈ run) : PathShape ('~' :: run)
  | plain {run : List Char} (whole : pathRun run = run) (slash : '/' ∈ run) : PathShape run

/-- What is read as a path has one of the shapes. -/
theorem pathWidth_front {text : List Char} (positive : 0 < pathWidth text) :
    ∃ path, path <+: text ∧ PathShape path ∧ pathWidth text = path.length := by
  unfold pathWidth at positive ⊢
  split at positive
  · next body =>
      simp only at positive ⊢
      split at positive
      · next shape =>
          rw [if_pos shape]
          simp only [Bool.and_eq_true, bne_iff_ne, beq_iff_eq, Bool.not_eq_true',
            List.isEmpty_eq_false_iff] at shape
          obtain ⟨⟨some_run, head⟩, close⟩ := shape
          obtain ⟨behind, split⟩ := pathRun_front body
          have dropped : (pathRun body ++ behind).drop (pathRun body).length = behind :=
            List.drop_left
          rw [split] at dropped
          rw [dropped] at close
          obtain ⟨more, rfl⟩ := List.head?_eq_some_iff.1 close
          refine ⟨_, ⟨more, ?_⟩, .bracketed (pathRun_pathRun body) some_run head, by simp⟩
          rw [List.cons_append, List.append_assoc, List.singleton_append, split]
      · cases positive
  · next body =>
      simp only at positive ⊢
      split at positive
      · next slash =>
          rw [if_pos slash]
          exact ⟨_, (List.prefix_cons_inj '~').2 (pathRun_front body),
            .home (pathRun_pathRun body) (by simpa using slash), rfl⟩
      · cases positive
  · simp only at positive ⊢
    split at positive
    · next slash =>
        rw [if_pos slash]
        exact ⟨_, pathRun_front text, .plain (pathRun_pathRun text) (by simpa using slash), rfl⟩
    · cases positive

/-- A run starts with a character of a segment, or with a slash and one of
them. -/
theorem pathRun_head {c : Char} {run : List Char} (whole : pathRun (c :: run) = c :: run) :
    isPathChar c ∨ c = '/' ∧ ∃ d ∈ run.head?, isPathChar d := by
  rw [pathRun] at whole
  split at whole
  · next goes =>
      rcases Bool.or_eq_true_iff.1 goes with inside | joins
      · exact .inl inside
      · cases run with
        | nil => simp at joins
        | cons d run =>
            simp only [List.head?_cons, Option.map_some, Option.getD_some, Bool.and_eq_true,
              beq_iff_eq] at joins
            exact .inr ⟨joins.1, d, rfl, joins.2⟩
  · cases whole

namespace PathShape

variable {path rest : List Char}

theorem ne_nil (shape : PathShape path) : path ≠ [] := by
  cases shape with
  | bracketed _ _ _ => exact List.cons_ne_nil _ _
  | home _ _ => exact List.cons_ne_nil _ _
  | plain _ slash => exact List.ne_nil_of_mem slash

/-- A path is read as a whole in front of what breaks it off. -/
theorem width_append (shape : PathShape path) (ends : Breaks rest) :
    pathWidth (path ++ rest) = path.length := by
  have stops : ∀ c ∈ rest.head?, ¬ isPathChar c ∧ c ≠ '/' := fun c head => (ends c head).2
  cases shape with
  | @bracketed run whole present head =>
      have bracket : pathRun (run ++ '>' :: rest) = run := by
        apply pathRun_append_of_stop whole
        rintro c ⟨⟩
        decide
      simp [pathWidth, bracket, present, head]
  | @home run whole slash =>
      have inside : pathRun (run ++ rest) = run := pathRun_append_of_stop whole stops
      simp [pathWidth, inside, slash]
  | plain whole slash =>
      cases path with
      | nil => cases slash
      | cons c run =>
          have inside : pathRun (c :: (run ++ rest)) = c :: run := pathRun_append_of_stop whole stops
          have other : c ≠ '<' ∧ c ≠ '~' := by
            rcases pathRun_head whole with inside | ⟨rfl, -⟩
            · constructor <;> rintro rfl <;> exact Bool.noConfusion inside
            · decide
          rw [List.cons_append]
          unfold pathWidth
          split
          · next shape => exact absurd (List.cons.inj shape).1 other.1
          · next shape => exact absurd (List.cons.inj shape).1 other.2
          · simp only [inside]
            rw [if_pos (by simpa using slash)]

/-- Whatever a path starts with, it is neither a blank nor a comment. -/
theorem solid {c : Char} {tail : List Char} (shape : PathShape (c :: tail)) :
    ¬ isBlank c ∧ c ≠ '#' ∧ (c = '/' → (tail ++ rest).head? ≠ some '*') := by
  generalize chars : c :: tail = path at shape
  cases shape with
  | bracketed _ _ _ =>
      cases chars
      exact ⟨by decide, by decide, fun same => absurd same (by decide)⟩
  | home _ _ =>
      cases chars
      exact ⟨by decide, by decide, fun same => absurd same (by decide)⟩
  | plain whole _ =>
      subst chars
      rcases pathRun_head whole with inside | ⟨rfl, d, head, inside⟩
      · refine ⟨isPathChar_solid inside, ?_, ?_⟩
        · rintro rfl
          exact isPathChar_other inside (by simp)
        · rintro rfl
          exact absurd (by simp) (isPathChar_other inside)
      · refine ⟨by decide, by decide, ?_⟩
        rintro - star
        cases tail with
        | nil => cases head
        | cons e tail =>
            cases head
            cases star
            exact Bool.noConfusion inside

end PathShape

theorem isPath_iff {text : String} : isPath text ↔ PathShape text.toList := by
  simp only [isPath, Bool.and_eq_true, decide_eq_true_eq, beq_iff_eq]
  constructor
  · rintro ⟨positive, whole⟩
    obtain ⟨path, front, shape, width⟩ := pathWidth_front positive
    rwa [← front.eq_of_length (width.symm.trans whole)]
  · intro shape
    have nothing : Breaks [] := nofun
    have width := shape.width_append nothing
    rw [List.append_nil] at width
    exact ⟨width ▸ List.length_pos_iff.2 shape.ne_nil, width⟩

/-- What is read as a path is a path by itself. -/
theorem isPath_take {text : List Char} (positive : 0 < pathWidth text) :
    isPath (String.ofList (text.take (pathWidth text))) := by
  obtain ⟨path, front, shape, width⟩ := pathWidth_front positive
  rw [isPath_iff, String.toList_ofList, width, ← List.prefix_iff_eq_take.1 front]
  exact shape

/-- A path is read as a whole. -/
theorem readPiece_path {text : String} (path : isPath text) {opened : List Enclosure}
    (code : InCode opened) {rest : List Char} (ends : Breaks rest) :
    readPiece opened (text.toList ++ rest) = .ok (.lexeme (.plain .path text.toList)) := by
  have shape := isPath_iff.1 path
  have positive := List.length_pos_iff.2 shape.ne_nil
  have lexed : readLexeme opened (text.toList ++ rest) = .ok (.plain .path text.toList) := by
    rw [readLexeme, shape.width_append ends, if_pos positive, List.take_left]
  obtain ⟨c, tail, chars⟩ := List.exists_cons_of_ne_nil shape.ne_nil
  rw [chars] at shape
  obtain ⟨solid, hash, slash⟩ := shape.solid
  rw [chars, List.cons_append] at lexed ⊢
  rw [readPiece_lexeme code solid hash slash, lexed]
  rfl

theorem Legible.path {text : String} (path : isPath text) :
    Legible Breaks text [⟨.path, text⟩] :=
  .of_lexeme (isPath_iff.1 path).ne_nil (by intros; rfl)
    fun _ _ code ends => readPiece_path path code ends

/-! ### Symbols -/

/-- The symbols that are read in the same way whatever stands behind them. -/
def Kind.standsAlone : List Kind :=
  [curlyOpen, curlyClose, interpOpen, quoteOpen, bracketOpen, bracketClose, parenOpen, parenClose,
   semicolon, colon, question, comma, atSign]

/-- The symbols that are read as such in front of a blank. -/
def Kind.standsOff : List Kind :=
  [assign, ellipsis, equal, notEqual, less, lessEqual, greater, greaterEqual, or, and, implies,
   plus, dash, slash, star, update, concat]

theorem readPiece_alone {kind : Kind} (alone : kind ∈ Kind.standsAlone) {opened : List Enclosure}
    (code : InCode opened) (rest : List Char) :
    readPiece opened (kind.spelling.toList ++ rest) =
      .ok (.lexeme (.plain (closingKind opened kind) kind.spelling.toList)) := by
  rw [readPiece_code code]
  simp only [Kind.standsAlone, List.mem_cons, List.not_mem_nil, or_false] at alone
  rcases alone with rfl | rfl | rfl | rfl | rfl | rfl | rfl | rfl | rfl | rfl | rfl | rfl | rfl <;>
    rfl

theorem readPiece_off {kind : Kind} (off : kind ∈ Kind.standsOff) {opened : List Enclosure}
    (code : InCode opened) (rest : List Char) :
    readPiece opened (kind.spelling.toList ++ ' ' :: rest) =
      .ok (.lexeme (.plain kind kind.spelling.toList)) := by
  rw [readPiece_code code]
  simp only [Kind.standsOff, List.mem_cons, List.not_mem_nil, or_false] at off
  rcases off with rfl | rfl | rfl | rfl | rfl | rfl | rfl | rfl | rfl | rfl | rfl | rfl | rfl | rfl |
    rfl | rfl | rfl <;> rfl

/-- A delimiter that opens and closes nothing that the scanner keeps track of. -/
theorem Legible.delimiter (kind : Kind) (listed : kind ∈ [Kind.bracketOpen, .bracketClose,
      .parenOpen, .parenClose, .semicolon, .colon, .question, .comma, .atSign]) :
    Legible (fun _ => True) kind.spelling [.mark kind] := by
  have known : ∀ kind ∈ [Kind.bracketOpen, .bracketClose, .parenOpen, .parenClose, .semicolon,
      .colon, .question, .comma, .atSign], kind ∈ Kind.standsAlone ∧ kind ≠ .curlyClose ∧
      kind.spelling.toList ≠ [] ∧ ∀ opened offset, Enclosure.next opened offset kind = opened := by
    simp [Kind.standsAlone, Kind.spelling, Enclosure.next]
  obtain ⟨alone, other, present, keeps⟩ := known kind listed
  apply Legible.of_lexeme present keeps
  intro opened rest code _
  rw [readPiece_alone alone code, closingKind, if_neg fun both => other both.1]

/-- An operator with a blank behind it. -/
theorem Legible.operator (kind : Kind) (off : kind ∈ Kind.standsOff) :
    Legible (fun rest => rest.head? = some ' ') kind.spelling [.mark kind] := by
  have known : ∀ kind ∈ Kind.standsOff, kind.spelling.toList ≠ [] ∧
      ∀ opened offset, Enclosure.next opened offset kind = opened := by
    simp [Kind.standsOff, Kind.spelling, Enclosure.next]
  obtain ⟨present, keeps⟩ := known kind off
  apply Legible.of_lexeme present keeps
  intro opened rest code blank
  cases rest with
  | nil => cases blank
  | cons c rest =>
      cases blank
      exact readPiece_off off code rest

/-- A dash, a dot or an exclamation mark is read as such unless it starts a path or a
longer symbol. -/
theorem readPiece_point {c : Char} {kind : Kind}
    (known : (c, kind) ∈ [('-', Kind.dash), ('.', .dot), ('!', .not)])
    {opened : List Enclosure} (code : InCode opened) {rest : List Char}
    (slashless : '/' ∉ pathRun (c :: rest)) (symbol : Kind.symbolAt (c :: rest) = some kind) :
    readPiece opened (c :: rest) = .ok (.lexeme (.plain kind kind.spelling.toList)) := by
  have chars : ∀ pair ∈ [('-', Kind.dash), ('.', .dot), ('!', .not)], ¬ isBlank pair.1 ∧
      pair.1 ≠ '#' ∧ pair.1 ≠ '/' ∧ pair.1 ≠ '<' ∧ pair.1 ≠ '~' ∧ ¬ pair.1.isDigit ∧
      ¬ isWordStart pair.1 ∧ pair.2 ≠ .curlyClose := by
    decide
  obtain ⟨solid, hash, slash, angle, tilde, digit, start, other⟩ := chars _ known
  have path : pathWidth (c :: rest) = 0 := pathWidth_eq_zero angle tilde slashless
  have int : intWidth (c :: rest) = 0 := by
    simp [intWidth, digit]
  have float : floatWidth (c :: rest) = 0 := by
    rw [floatWidth, int]
    rfl
  have word : wordWidth (c :: rest) = 0 := by
    rw [wordWidth, if_neg start]
  rw [readPiece_lexeme code solid hash fun same => absurd same slash, readLexeme]
  simp only [path, int, float, word, Nat.lt_irrefl, if_false, symbol]
  rw [closingKind, if_neg fun both => other both.1]
  rfl

/-- A dash in front of an operand. -/
theorem Legible.dash : Legible (fun rest => '/' ∉ pathRun rest ∧ rest.head? ≠ some '>') "-"
    [.mark .dash] := by
  apply Legible.of_lexeme (by decide) (by intros; rfl)
  rintro opened rest code ⟨slashless, arrow⟩
  show readPiece opened ('-' :: rest) = _
  refine readPiece_point (by simp) code (pathRun_append (by decide : '/' ∉ ['-']) slashless) ?_
  cases rest with
  | nil => rfl
  | cons c rest =>
      have other : '>' ≠ c := by
        rintro rfl
        exact arrow rfl
      simp [Kind.symbolAt, Kind.symbols, Kind.spelling, other]

/-- A dot in front of a segment. -/
theorem Legible.dot : Legible (fun rest => '/' ∉ pathRun rest ∧ rest.head? ≠ some '.') "."
    [.mark .dot] := by
  apply Legible.of_lexeme (by decide) (by intros; rfl)
  rintro opened rest code ⟨slashless, more⟩
  show readPiece opened ('.' :: rest) = _
  refine readPiece_point (by simp) code (pathRun_append (by decide : '/' ∉ ['.']) slashless) ?_
  cases rest with
  | nil => rfl
  | cons c rest =>
      have other : '.' ≠ c := by
        rintro rfl
        exact more rfl
      simp [Kind.symbolAt, Kind.symbols, Kind.spelling, other]

/-- An exclamation mark in front of an operand, which may be a path too. -/
theorem Legible.exclamation : Legible (fun rest => rest.head? ≠ some '=') "!" [.mark .not] := by
  apply Legible.of_lexeme (by decide) (by intros; rfl)
  intro opened rest code equals
  show readPiece opened ('!' :: rest) = _
  have run : pathRun ('!' :: rest) = [] := (Breaks.of_head '!' rfl rfl).pathRun
  refine readPiece_point (by simp) code (by simp [run]) ?_
  cases rest with
  | nil => rfl
  | cons c rest =>
      have other : '=' ≠ c := by
        rintro rfl
        exact equals rfl
      simp [Kind.symbolAt, Kind.symbols, Kind.spelling, other]

/-! ### Enclosures -/

/-- A scan reaches the place behind a delimiter. -/
theorem Cursor.Reaches.delimiter {kind : Kind} (alone : kind ∈ Kind.standsAlone)
    {opened : List Enclosure} (code : InCode opened) (offset : Nat) (rest : List Char) :
    Cursor.Reaches ⟨opened, offset, kind.spelling.toList ++ rest⟩
      [⟨closingKind opened kind, kind.spelling⟩]
      ⟨Enclosure.next opened offset (closingKind opened kind),
        offset + utf8Length kind.spelling.toList, rest⟩ := by
  have present : ∀ kind ∈ Kind.standsAlone, kind.spelling.toList ≠ [] := by decide
  have reached : Cursor.Reaches ⟨opened, offset, kind.spelling.toList ++ rest⟩
      [(Lexeme.plain (closingKind opened kind) kind.spelling.toList).sign] _ :=
    .lexeme offset (present kind alone) (readPiece_alone alone code rest)
  rwa [Lexeme.sign, Lexeme.plain, String.ofList_toList] at reached

/-- Text in an enclosure that is closed by a brace. -/
theorem Legible.enclosed (enclosure : Enclosure) (holds_code : enclosure.stringStart? = none)
    {breaks : List Char → Prop} {text : String} {signs : List Sign}
    (inner : Legible breaks text signs) (meets : ∀ rest, breaks ('}' :: rest)) :
    Legible (fun _ => True) (enclosure.opener.spelling ++ text ++ "\x7d")
      (.mark enclosure.opener :: (signs ++ [.mark (closingKind [enclosure] .curlyClose)])) := by
  intro opened offset rest code _
  have inside : InCode (enclosure :: opened) := by
    rintro top ⟨⟩
    exact holds_code
  have opening : Cursor.Reaches
      ⟨opened, offset, enclosure.opener.spelling.toList ++ (text.toList ++ '}' :: rest)⟩
      [.mark enclosure.opener]
      ⟨enclosure :: opened, offset + utf8Length enclosure.opener.spelling.toList,
        text.toList ++ '}' :: rest⟩ := by
    cases enclosure with
    | braces => exact .delimiter (by decide : Kind.curlyOpen ∈ Kind.standsAlone) code offset _
    | interpolation =>
        exact .delimiter (by decide : Kind.interpOpen ∈ Kind.standsAlone) code offset _
    | quoted start => cases holds_code
    | indented start => cases holds_code
  obtain ⟨middle, within⟩ := inner (enclosure :: opened) _ ('}' :: rest) inside (meets rest)
  have closing : Cursor.Reaches ⟨enclosure :: opened, middle, '}' :: rest⟩
      [.mark (closingKind [enclosure] .curlyClose)]
      ⟨opened, middle + utf8Length Kind.curlyClose.spelling.toList, rest⟩ := by
    have reached := Cursor.Reaches.delimiter (by decide : Kind.curlyClose ∈ Kind.standsAlone)
      inside middle rest
    cases enclosure with
    | braces => exact reached
    | interpolation => exact reached
    | quoted start => cases holds_code
    | indented start => cases holds_code
  refine ⟨middle + utf8Length Kind.curlyClose.spelling.toList, ?_⟩
  rw [String.toList_append, String.toList_append, List.append_assoc, List.append_assoc]
  exact opening.trans (within.trans closing)

theorem Legible.braces {breaks : List Char → Prop} {text : String} {signs : List Sign}
    (inner : Legible breaks text signs) (meets : ∀ rest, breaks ('}' :: rest)) :
    Legible (fun _ => True) ("\x7b" ++ text ++ "\x7d")
      (.mark .curlyOpen :: (signs ++ [.mark .curlyClose])) :=
  .enclosed .braces rfl inner meets

theorem Legible.interpolation {breaks : List Char → Prop} {text : String} {signs : List Sign}
    (inner : Legible breaks text signs) (meets : ∀ rest, breaks ('}' :: rest)) :
    Legible (fun _ => True) (interpolation text)
      (.mark .interpOpen :: (signs ++ [.mark .interpClose])) :=
  .enclosed .interpolation rfl inner meets

end NixSyntax
