/-
Module: NixSyntax.Proofs.Lossless
Purpose: The tokens of a source text and the gaps between them are that text, and the line
  rule says to which token each comment of a gap belongs.
Main exports: Gap.Shared, Tiles, Lossless, tokenize_ends, tokenize_lossless
-/
import Mathlib
import NixSyntax.Proofs.Cut
import NixSyntax.Token.Layout

namespace NixSyntax

/-! ## Bytes -/

@[simp] theorem utf8Length_nil : utf8Length [] = 0 := rfl

@[simp] theorem utf8Length_append (front back : List Char) :
    utf8Length (front ++ back) = utf8Length front + utf8Length back := by
  induction front with
  | nil => simp
  | cons c front ih =>
      have step : ∀ text, utf8Length (c :: text) = c.utf8Size + utf8Length text := fun _ => rfl
      rw [List.cons_append, step, step, ih, Nat.add_assoc]

/-- The length of a text is the number of bytes of its encoding. -/
theorem size_utf8Encode (text : List Char) : text.utf8Encode.size = utf8Length text := by
  induction text with
  | nil => simp
  | cons c text ih =>
      rw [List.utf8Encode_cons, ByteArray.size_append, ih, List.utf8Encode_singleton,
        List.size_toByteArray, String.length_utf8EncodeChar]
      rfl

theorem utf8Length_toList (text : String) : utf8Length text.toList = text.utf8ByteSize := by
  rw [← size_utf8Encode, String.utf8Encode_toList, String.size_toByteArray]

/-! ## Gaps -/

namespace Gap

/-- The source text of a gap. -/
def text (gap : Gap) : List Char :=
  gap.flatMap Trivium.raw

/-- Every trivium of a gap is complete where it stands in front of `rest`. -/
def Complete (rest : List Char) : Gap → Prop
  | [] => True
  | trivium :: others => trivium.Complete (text others ++ rest) ∧ Complete rest others

@[simp] theorem text_nil : text [] = [] := rfl

@[simp] theorem text_cons (trivium : Trivium) (gap : Gap) :
    text (trivium :: gap) = trivium.raw ++ text gap := by
  simp [text]

theorem size_eq (gap : Gap) : gap.size = utf8Length gap.text := by
  induction gap with
  | nil => rfl
  | cons trivium gap ih => rw [size, ih, text_cons, utf8Length_append]

theorem comments_append (front back : Gap) :
    comments (front ++ back) = front.comments ++ back.comments := by
  induction front with
  | nil => rfl
  | cons trivium front ih => cases trivium <;> simp [comments, ih]

/-! ## The line rule -/

/-- Behind the comment that is number `k` among those that follow the first
`passed` ones, the gap has a blank line: blanks with two line breaks. -/
def BlankLineAfter (gap : Gap) (passed k : Nat) : Prop :=
  0 < k ∧ ∃ (front : Gap) (comment : Comment) (blank : List Char) (back : Gap),
    gap = front ++ .comment comment :: .blank blank :: back ∧ 1 < blank.count '\n' ∧
      front.comments.length + 1 = passed + k

/-- The comments of a gap are shared between the token in front of it, if there
is one, and the token behind it. -/
structure Shared (gap : Gap) (previous : Option Token) (token : Token) : Prop where
  /-- No comment is left out, and none changes its place. -/
  comments_eq : (previous.elim [] Token.trailing) ++ token.leading = gap.comments
  /-- A comment goes to the token in front exactly if there is one and the text
  between the two has no line break. -/
  line_rule : ∀ (front : Gap) comment back, gap = front ++ .comment comment :: back →
    (front.comments.length < (previous.elim [] Token.trailing).length ↔
      previous.isSome ∧ '\n' ∉ text front)
  /-- The detached comments are those in front of the last blank line that
  directly follows a comment. -/
  blank_line : IsGreatest
    (insert 0 {k | gap.BlankLineAfter (previous.elim [] Token.trailing).length k}) token.detached

theorem splitLine_append (gap : Gap) : gap.splitLine.1 ++ gap.splitLine.2 = gap := by
  fun_induction splitLine gap with
  | case1 => rfl
  | case2 => rfl
  | case3 raw rest _ first others split ih => simpa [split] using ih
  | case4 => rfl
  | case5 it rest _ first others split ih => simpa [split] using ih

/-- A comment that does not break the line has no line break in its source. -/
theorem newline_notMem_source {it : Comment} {rest : List Char}
    (complete : (Trivium.comment it).Complete rest) (unbroken : ¬ it.breaksLine) :
    '\n' ∉ it.source.toList := by
  obtain ⟨style, text⟩ := it
  cases style with
  | line =>
      intro member
      have inside : '\n' ∈ text.toList := by simpa [Comment.source] using member
      exact (complete.1 _ inside).2 rfl
  | block => simpa [Comment.source, Comment.breaksLine] using unbroken

theorem newline_mem_source {it : Comment} (broken : it.breaksLine) :
    '\n' ∈ it.source.toList := by
  obtain ⟨style, text⟩ := it
  cases style with
  | line => cases broken
  | block => simpa [Comment.source, Comment.breaksLine] using broken

/-- The first part of a gap holds the comments with no line break in front. -/
theorem splitLine_line {gap front back : Gap} {comment : Comment} {rest : List Char}
    (complete : gap.Complete rest) (shape : gap = front ++ .comment comment :: back) :
    front.comments.length < gap.splitLine.1.comments.length ↔ '\n' ∉ front.text := by
  induction gap generalizing front with
  | nil => simp at shape
  | cons trivium others ih =>
      cases front with
      | nil =>
          obtain ⟨rfl, rfl⟩ := List.cons.inj shape
          unfold splitLine
          split <;> simp [comments]
      | cons first front =>
          obtain ⟨rfl, tail⟩ := List.cons.inj shape
          have later := ih complete.2 tail
          cases trivium with
          | blank raw =>
              unfold splitLine
              split
              · next broken =>
                  have present : '\n' ∈ raw := by simpa using broken
                  simp [comments, Trivium.raw, present]
              · next unbroken =>
                  have clear : '\n' ∉ raw := by simpa using unbroken
                  simpa [comments, Trivium.raw, clear] using later
          | comment it =>
              unfold splitLine
              split
              · next broken => simp [comments, Trivium.raw, newline_mem_source broken]
              · next unbroken =>
                  have clear := newline_notMem_source complete.1 unbroken
                  simpa [comments, Trivium.raw, clear] using later

/-! ## Blank lines -/

theorem blankLineAfter_blank {raw : List Char} {gap : Gap} {passed k : Nat} :
    BlankLineAfter (.blank raw :: gap) passed k ↔ gap.BlankLineAfter passed k := by
  constructor
  · rintro ⟨positive, front, comment, blank, back, shape, lines, count⟩
    cases front with
    | nil => cases shape
    | cons first front =>
        obtain ⟨rfl, rfl⟩ := List.cons.inj shape
        exact ⟨positive, front, comment, blank, back, rfl, lines, count⟩
  · rintro ⟨positive, front, comment, blank, back, rfl, lines, count⟩
    exact ⟨positive, .blank raw :: front, comment, blank, back, rfl, lines, count⟩

theorem blankLineAfter_comment {it : Comment} {gap : Gap} {k : Nat} :
    BlankLineAfter (.comment it :: gap) 0 k ↔
      (k = 1 ∧ ∃ blank back, gap = .blank blank :: back ∧ 1 < blank.count '\n') ∨
        ∃ fewer, gap.BlankLineAfter 0 fewer ∧ k = fewer + 1 := by
  constructor
  · rintro ⟨positive, front, comment, blank, back, shape, lines, count⟩
    cases front with
    | nil =>
        obtain ⟨-, rfl⟩ := List.cons.inj shape
        exact .inl ⟨by simpa [comments] using count.symm, blank, back, rfl, lines⟩
    | cons first front =>
        obtain ⟨rfl, rfl⟩ := List.cons.inj shape
        have more : (comments front).length + 1 + 1 = k := by
          simpa [comments] using count
        exact .inr ⟨(comments front).length + 1, ⟨Nat.succ_pos _, front, comment, blank, back, rfl,
          lines, (Nat.zero_add _).symm⟩, more.symm⟩
  · rintro (⟨rfl, blank, back, rfl, lines⟩ |
      ⟨fewer, ⟨_, front, comment, blank, back, rfl, lines, count⟩, rfl⟩)
    · exact ⟨Nat.one_pos, [], it, blank, back, rfl, lines, rfl⟩
    · refine ⟨Nat.succ_pos fewer, .comment it :: front, comment, blank, back, rfl, lines, ?_⟩
      simp only [comments, List.length_cons]
      omega

/-- A largest element of nothing but 0 and, perhaps, 1. -/
theorem isGreatest_one {condition : Prop} [Decidable condition] :
    IsGreatest (insert 0 {k : Nat | k = 1 ∧ condition}) (if condition then 1 else 0) := by
  by_cases holds : condition
  · rw [if_pos holds]
    refine ⟨.inr ⟨rfl, holds⟩, ?_⟩
    rintro k (rfl | ⟨rfl, _⟩) <;> omega
  · rw [if_neg holds]
    refine ⟨.inl rfl, ?_⟩
    rintro k (rfl | ⟨_, absurd⟩)
    · exact Nat.le_refl 0
    · exact (holds absurd).elim

/-- The detached comments reach up to the last one with a blank line behind. -/
theorem detached_isGreatest (gap : Gap) :
    IsGreatest (insert 0 {k | gap.BlankLineAfter 0 k}) gap.detached := by
  induction gap with
  | nil =>
      refine ⟨.inl rfl, ?_⟩
      rintro k (rfl | ⟨_, front, comment, blank, back, shape, _⟩)
      · exact Nat.le_refl 0
      · simp at shape
  | cons trivium gap ih =>
      cases trivium with
      | blank raw => simpa only [detached, blankLineAfter_blank] using ih
      | comment it =>
          obtain ⟨reached, bound⟩ := ih
          unfold detached
          by_cases later : 0 < detached gap
          · have inside : BlankLineAfter gap 0 (detached gap) :=
              reached.resolve_left (Nat.ne_of_gt later)
            rw [if_pos later]
            refine ⟨.inr (blankLineAfter_comment.2 (.inr ⟨_, inside, rfl⟩)), ?_⟩
            rintro k (rfl | after)
            · exact Nat.zero_le _
            · rcases blankLineAfter_comment.1 after with ⟨rfl, _⟩ | ⟨fewer, earlier, rfl⟩
              · exact Nat.le_add_left 1 _
              · exact Nat.succ_le_succ (bound (.inr earlier))
          · -- Only the first comment can still have a blank line behind it.
            have none_later : ∀ k, ¬ BlankLineAfter gap 0 k := by
              intro k after
              have bounded : k ≤ detached gap := bound (.inr after)
              have positive := after.1
              omega
            rw [if_neg later]
            simp only [blankLineAfter_comment, none_later, false_and, exists_false, or_false]
            cases gap with
            | nil => simp
            | cons next gap =>
                cases next with
                | comment it => simp
                | blank raw => simpa using isGreatest_one

/-- Blank lines behind the comments of the second part of a gap are found in
that part alone. -/
theorem blankLineAfter_append (first others : Gap) (k : Nat) :
    BlankLineAfter (first ++ others) first.comments.length k ↔ others.BlankLineAfter 0 k := by
  constructor
  · rintro ⟨positive, front, comment, blank, back, shape, lines, count⟩
    rcases List.append_eq_append_iff.1 shape with ⟨middle, rfl, rfl⟩ | ⟨middle, rfl, tail⟩
    · refine ⟨positive, middle, comment, blank, back, rfl, lines, ?_⟩
      rw [comments_append, List.length_append] at count
      omega
    · cases middle with
      | nil => exact ⟨positive, [], comment, blank, back, tail.symm, lines, by simp_all [comments]⟩
      | cons head middle =>
          obtain ⟨rfl, -⟩ := List.cons.inj tail
          simp only [comments_append, comments, List.length_append, List.length_cons] at count
          omega
  · rintro ⟨positive, front, comment, blank, back, rfl, lines, count⟩
    refine ⟨positive, first ++ front, comment, blank, back, by simp, lines, ?_⟩
    rw [comments_append, List.length_append]
    omega

/-- In front of the first token there is nothing to share with. -/
theorem shared_first {gap : Gap} {token : Token} (leading : token.leading = gap.comments)
    (detached : token.detached = gap.detached) : gap.Shared none token where
  comments_eq := leading
  line_rule := by simp
  blank_line := detached ▸ detached_isGreatest gap

/-- Splitting a gap at its first line break shares its comments. -/
theorem shared_next {gap : Gap} {previous token : Token} {rest : List Char}
    (complete : gap.Complete rest) (trailing : previous.trailing = gap.splitLine.1.comments)
    (leading : token.leading = gap.splitLine.2.comments)
    (detached : token.detached = gap.splitLine.2.detached) : gap.Shared (some previous) token where
  comments_eq := by
    rw [Option.elim_some, trailing, leading, ← comments_append, splitLine_append]
  line_rule front comment back shape := by
    simpa [trailing] using splitLine_line complete shape
  blank_line := by
    have whole := detached_isGreatest gap.splitLine.2
    simp only [← blankLineAfter_append gap.splitLine.1, splitLine_append] at whole
    rw [detached, Option.elim_some, trailing]
    exact whole

end Gap

/-! ## Tiles -/

/-- The tokens tile the text that stands at the given offset behind the token
`previous`: each has a complete gap in front of it, whose comments the two
tokens share, and its span is the place of its text. -/
inductive Tiles (file : String) : Nat → Option Token → List Char → List Token → Prop where
  | nil {offset : Nat} {previous : Option Token} : Tiles file offset previous [] []
  | cons {offset : Nat} {previous : Option Token} {gap : Gap} {token : Token}
      {rest : List Char} {tokens : List Token}
      (complete : gap.Complete (token.raw.toList ++ rest))
      (shared : gap.Shared previous token)
      (span : token.span =
        { start := Layout.positionAt file (offset + utf8Length gap.text)
          stop := Layout.positionAt file (offset + utf8Length (gap.text ++ token.raw.toList)) })
      (others : Tiles file (offset + utf8Length (gap.text ++ token.raw.toList)) (some token)
        rest tokens) :
      Tiles file offset previous (gap.text ++ token.raw.toList ++ rest) (token :: tokens)

theorem Tiles.cons_of_eq {file : String} {offset : Nat} {previous : Option Token} {token : Token}
    {tokens : List Token} {text : List Char} (gap : Gap) (rest : List Char)
    (shape : text = gap.text ++ token.raw.toList ++ rest)
    (complete : gap.Complete (token.raw.toList ++ rest)) (shared : gap.Shared previous token)
    (span : token.span =
      { start := Layout.positionAt file (offset + utf8Length gap.text)
        stop := Layout.positionAt file (offset + utf8Length (gap.text ++ token.raw.toList)) })
    (others : Tiles file (offset + utf8Length (gap.text ++ token.raw.toList)) (some token)
      rest tokens) :
    Tiles file offset previous text (token :: tokens) :=
  shape ▸ .cons complete shared span others

/-- What the pieces behind the first gap of a text are: lexemes, each with a
complete gap behind it. -/
inductive Lined : List Char → List (Lexeme × Gap) → Prop where
  | nil : Lined [] []
  | cons {lexeme : Lexeme} {gap : Gap} {rest : List Char} {items : List (Lexeme × Gap)}
      (present : lexeme.raw ≠ []) (solid : lexeme.kind ≠ .endOfInput)
      (complete : gap.Complete rest) (others : Lined rest items) :
      Lined (lexeme.raw ++ (gap.text ++ rest)) ((lexeme, gap) :: items)

theorem Cut.lined {text : List Char} {pieces : List Piece} (cut : Cut text pieces) :
    ∃ body, text = (Layout.ofPieces pieces).lead.text ++ body ∧
      (Layout.ofPieces pieces).lead.Complete body ∧ Lined body (Layout.ofPieces pieces).items := by
  induction cut with
  | nil => exact ⟨[], rfl, trivial, .nil⟩
  | @cons piece pieces rest complete others ih =>
      obtain ⟨body, rfl, leadComplete, lined⟩ := ih
      cases piece with
      | trivium it =>
          refine ⟨body, ?_, ⟨complete, leadComplete⟩, lined⟩
          simp [Layout.ofPieces, Piece.raw]
      | lexeme it => exact ⟨_, rfl, trivial, .cons complete.1 complete.2 leadComplete lined⟩

/-- The tokens of lexemes tile the text with the gap in front of it, whose
comments have been shared out. -/
theorem Lined.tiles {file : String} {body : List Char} {items : List (Lexeme × Gap)}
    (lined : Lined body items) {offset : Nat} {previous : Option Token} {gap above : Gap}
    (complete : gap.Complete body)
    (shared : ∀ token : Token, token.leading = above.comments →
      token.detached = above.detached → gap.Shared previous token) :
    Tiles file offset previous (gap.text ++ body)
      (Layout.tokensFrom file (offset + utf8Length gap.text) above items) := by
  induction lined generalizing offset previous gap above with
  | nil =>
      refine Tiles.cons_of_eq gap [] (by simp [Token.endAt]) ?_ (shared _ rfl rfl) ?_ .nil
      · simpa [Token.endAt] using complete
      · simp [Token.endAt]
  | @cons lexeme behind rest items present solid behindComplete others ih =>
      refine Tiles.cons_of_eq gap (behind.text ++ rest) (by simp [Layout.tokenAt]) ?_
        (shared _ rfl rfl) ?_ ?_
      · simpa [Layout.tokenAt] using complete
      · simp [Layout.tokenAt, Nat.add_assoc]
      · have behindPlace : offset + utf8Length gap.text + utf8Length lexeme.raw + behind.size =
            offset + utf8Length (gap.text ++ lexeme.raw) + utf8Length behind.text := by
          simp [Gap.size_eq, Nat.add_assoc]
        rw [behindPlace]
        simp only [Layout.tokenAt, String.toList_ofList]
        exact ih behindComplete fun token leading detached =>
          Gap.shared_next behindComplete rfl leading detached

/-! ## Places -/

/-- Offsets below `2 ^ 32` are kept as they are. -/
theorem offset_positionAt {file : String} {offset : Nat} (short : offset < 2 ^ 32) :
    (Layout.positionAt file offset).offset.toNat = offset :=
  UInt32.toNat_ofNat_of_lt' short

/-- A token's text stands in the tiled text at the offset of its span. -/
theorem Tiles.place {file : String} {offset : Nat} {previous : Option Token} {text : List Char}
    {tokens : List Token} (tiles : Tiles file offset previous text tokens) {token : Token}
    (member : token ∈ tokens) :
    ∃ front back, text = front ++ token.raw.toList ++ back ∧ token.span =
      { start := Layout.positionAt file (offset + utf8Length front)
        stop := Layout.positionAt file (offset + utf8Length (front ++ token.raw.toList)) } := by
  induction tiles with
  | nil => cases member
  | @cons offset previous gap head rest tokens complete shared span others ih =>
      rcases List.mem_cons.1 member with rfl | later
      · exact ⟨gap.text, rest, rfl, span⟩
      · obtain ⟨front, back, rfl, place⟩ := ih later
        refine ⟨gap.text ++ head.raw.toList ++ front, back, by simp, ?_⟩
        simpa [Nat.add_assoc] using place

/-- The offsets of a token in a text that is not too long. -/
theorem Tiles.offsets {file : String} {offset : Nat} {previous : Option Token} {text : List Char}
    {tokens : List Token} (tiles : Tiles file offset previous text tokens)
    (short : offset + utf8Length text < 2 ^ 32) {token : Token} (member : token ∈ tokens) :
    ∃ front back, text = front ++ token.raw.toList ++ back ∧
      token.span.start.offset.toNat = offset + utf8Length front ∧
      token.span.stop.offset.toNat = offset + utf8Length front + utf8Length token.raw.toList := by
  obtain ⟨front, back, rfl, place⟩ := tiles.place member
  simp only [utf8Length_append] at short
  refine ⟨front, back, rfl, ?_, ?_⟩
  · rw [place]
    exact offset_positionAt (by omega)
  · rw [place, utf8Length_append, ← Nat.add_assoc]
    exact offset_positionAt (by omega)

theorem Tiles.ordered {file : String} {offset : Nat} {previous : Option Token} {text : List Char}
    {tokens : List Token} (tiles : Tiles file offset previous text tokens)
    (short : offset + utf8Length text < 2 ^ 32) :
    tokens.Pairwise fun first second => first.span.stop.offset ≤ second.span.start.offset := by
  induction tiles with
  | nil => exact .nil
  | @cons offset previous gap head rest tokens complete shared span others ih =>
      rw [utf8Length_append, ← Nat.add_assoc] at short
      refine .cons ?_ (ih short)
      intro token member
      obtain ⟨front, back, -, start, -⟩ := others.offsets short member
      rw [UInt32.le_iff_toNat_le, start, span, offset_positionAt (by omega)]
      exact Nat.le_add_right _ _

/-- The tokens of lexemes end with the end of the input, and only there. -/
theorem Lined.ends {file : String} {body : List Char} {items : List (Lexeme × Gap)}
    (lined : Lined body items) (offset : Nat) (above : Gap) :
    ∃ (front : List Token) (last : Token),
      Layout.tokensFrom file offset above items = front ++ [last] ∧
      last.kind = .endOfInput ∧ last.raw = "" ∧ last.trailing = [] ∧
      last.span.start = Layout.positionAt file (offset + utf8Length body) ∧
      ∀ token ∈ front, token.kind ≠ .endOfInput ∧ token.raw ≠ "" := by
  induction lined generalizing offset above with
  | nil => exact ⟨[], _, rfl, rfl, rfl, rfl, rfl, by simp⟩
  | @cons lexeme behind rest items present solid complete others ih =>
      obtain ⟨front, last, tokens, kind, raw, trailing, place, rest⟩ :=
        ih (offset + utf8Length lexeme.raw + behind.size) behind.splitLine.2
      rw [Layout.tokensFrom, tokens]
      refine ⟨_ :: front, last, rfl, kind, raw, trailing, ?_, ?_⟩
      · rw [place, Gap.size_eq]
        simp [Nat.add_assoc]
      · intro token member
        rcases List.mem_cons.1 member with rfl | later
        · exact ⟨solid, by simpa [Layout.tokenAt] using present⟩
        · exact rest token later

/-! ## Tokens of a source text -/

/-- The tokens of a source text end with the end of the input, and only there. -/
theorem tokenize_ends {file source : String} {tokens : List Token}
    (done : tokenize file source = .ok tokens) :
    ∃ (front : List Token) (last : Token), tokens = front ++ [last] ∧
      last.kind = .endOfInput ∧ last.raw = "" ∧ last.trailing = [] ∧
      last.span.start = Layout.positionAt file source.utf8ByteSize ∧
      ∀ token ∈ front, token.kind ≠ .endOfInput ∧ token.raw ≠ "" := by
  obtain ⟨pieces, scanned, rfl⟩ := tokenize_scan.1 done
  obtain ⟨body, text, -, lined⟩ := (scan_cut scanned).lined
  rw [← utf8Length_toList, text, utf8Length_append, ← Gap.size_eq]
  exact lined.ends _ _

theorem tokenize_tiles {file source : String} {tokens : List Token}
    (done : tokenize file source = .ok tokens) : Tiles file 0 none source.toList tokens := by
  obtain ⟨pieces, scanned, rfl⟩ := tokenize_scan.1 done
  obtain ⟨body, text, complete, lined⟩ := (scan_cut scanned).lined
  rw [text, Layout.tokens, Gap.size_eq, ← Nat.zero_add (utf8Length _)]
  exact lined.tiles complete fun token leading detached => Gap.shared_first leading detached

/-- Nothing of a source text is lost in its tokens. -/
structure Lossless (file source : String) (tokens : List Token) : Prop where
  /-- The text is made of gaps and tokens in turn, and the comments of each gap
  are shared by the line rule. -/
  tiles : Tiles file 0 none source.toList tokens
  /-- The last token is the end of the input, behind the whole text, and only
  that token has no text. -/
  ends : ∃ (front : List Token) (last : Token), tokens = front ++ [last] ∧
    last.kind = .endOfInput ∧ last.raw = "" ∧
    last.span.start.offset.toNat = source.utf8ByteSize ∧
    last.span.stop.offset.toNat = source.utf8ByteSize ∧ ∀ token ∈ front, token.raw ≠ ""
  /-- No token starts before the one in front of it has ended. -/
  ordered : tokens.Pairwise fun first second => first.span.stop.offset ≤ second.span.start.offset
  /-- The text of a token is what the source text has in its span. -/
  spelled : ∀ token ∈ tokens, token.span.start.offset ≤ token.span.stop.offset ∧
    source.toByteArray.extract token.span.start.offset.toNat token.span.stop.offset.toNat =
      token.raw.toByteArray

/-- The bytes of a part of a text stand behind those of the part in front. -/
theorem extract_utf8Encode (front middle back : List Char) :
    (front ++ middle ++ back).utf8Encode.extract (utf8Length front)
      (utf8Length front + utf8Length middle) = middle.utf8Encode := by
  rw [List.append_assoc, List.utf8Encode_append, List.utf8Encode_append, ← size_utf8Encode,
    ← size_utf8Encode]
  calc
    _ = (middle.utf8Encode ++ back.utf8Encode).extract 0 middle.utf8Encode.size :=
      ByteArray.extract_append_size_add
    _ = middle.utf8Encode := ByteArray.extract_append_eq_left rfl

theorem tokenize_lossless (file source : String) (tokens : List Token)
    (short : source.utf8ByteSize < 2 ^ 32) (done : tokenize file source = .ok tokens) :
    Lossless file source tokens := by
  have tiles := tokenize_tiles done
  have fits : 0 + utf8Length source.toList < 2 ^ 32 := by
    rwa [Nat.zero_add, utf8Length_toList]
  refine ⟨tiles, ?_, tiles.ordered fits, ?_⟩
  · obtain ⟨front, last, rfl, kind, raw, -, start, others⟩ := tokenize_ends done
    obtain ⟨before, behind, -, startOffset, stopOffset⟩ :=
      tiles.offsets fits (List.mem_append_right front (List.mem_singleton.2 rfl))
    have place : last.span.start.offset.toNat = source.utf8ByteSize := by
      rw [start, offset_positionAt short]
    refine ⟨front, last, rfl, kind, raw, place, ?_, fun token member => (others token member).2⟩
    rw [stopOffset, ← startOffset, place, raw]
    rfl
  · intro token member
    obtain ⟨front, back, text, start, stop⟩ := tiles.offsets fits member
    rw [UInt32.le_iff_toNat_le, start, stop, ← String.utf8Encode_toList, text, Nat.zero_add]
    exact ⟨Nat.le_add_right _ _, by rw [extract_utf8Encode, String.utf8Encode_toList]⟩

/-- Comments on all sides of a token: one that a blank line sets apart from it,
one that starts on its line and ends on the next, and one behind that. -/
theorem tokenize_lossless_between_comments :
    "# a\n\nx /*\n*/ # b".utf8ByteSize < 2 ^ 32 ∧
      ∃ tokens, tokenize "a.nix" "# a\n\nx /*\n*/ # b" = .ok tokens ∧
        tokens.map Token.leading = [[⟨.line, " a"⟩], [⟨.line, " b"⟩]] ∧
        tokens.map Token.trailing = [[⟨.block, "\n"⟩], []] ∧
        tokens.map Token.detached = [1, 0] ∧
        Lossless "a.nix" "# a\n\nx /*\n*/ # b" tokens := by
  have short : "# a\n\nx /*\n*/ # b".utf8ByteSize < 2 ^ 32 := by decide
  have done : tokenize "a.nix" "# a\n\nx /*\n*/ # b" = .ok
      [{ kind := .identifier, value := "x", raw := "x"
         span := { start := ⟨5, "a.nix"⟩, stop := ⟨6, "a.nix"⟩ }
         leading := [⟨.line, " a"⟩], trailing := [⟨.block, "\n"⟩], detached := 1 },
       { Token.endAt ⟨16, "a.nix"⟩ with leading := [⟨.line, " b"⟩] }] := by
    cbv
  exact ⟨short, _, done, rfl, rfl, rfl, tokenize_lossless _ _ _ short done⟩

end NixSyntax
