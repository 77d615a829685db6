/-
Module: NixSyntax.Proofs.Printed
Purpose: Printed strings and attribute paths are read back.
Main exports: Readable, StringPart.Paired, StringPart.reread, PathText, Segment.path_reread
-/
import NixSyntax.Proofs.Fitting
import NixSyntax.Proofs.Ledger

namespace NixSyntax

open NixSyntax.Parser

/-!
Each kind of list in a tree is read back by induction on it.  The expressions
inside an item are read back by assumption, the item itself by the rule that
reads one item, and what stands behind it breaks it off.
-/

/-- Parts of a tree that can be read back.  Each is good in itself, they carry no
comments, and the expressions inside them are read back. -/
structure Readable {α : Type} (level : FallbackLevel) (good : α → Prop)
    (comments : List α → List Comment) (inside : List α → List Expr) (items : List α) : Prop where
  good : ∀ item ∈ items, good item
  quiet : comments items = []
  each : ∀ part ∈ inside items, part.Reread level

theorem Readable.split {α : Type} {level : FallbackLevel} {good : α → Prop}
    {comments : List α → List Comment} {inside : List α → List Expr} {item : α} {items : List α}
    (commentsCons : ∀ item items, comments (item :: items) = comments [item] ++ comments items)
    (insideCons : ∀ item items, inside (item :: items) = inside [item] ++ inside items)
    (ready : Readable level good comments inside (item :: items)) :
    Readable level good comments inside [item] ∧ Readable level good comments inside items := by
  obtain ⟨good, quiet, each⟩ := ready
  rw [commentsCons, List.append_eq_nil_iff] at quiet
  rw [insideCons, List.forall_mem_append] at each
  rw [List.forall_mem_cons] at good
  exact ⟨⟨List.forall_mem_singleton.2 good.1, quiet.1, each.1⟩, ⟨good.2, quiet.2, each.2⟩⟩

/-! ## Strings -/

/-- No literal text right in front of an interpolation ends in an odd number of
dollar signs. -/
def StringPart.Paired (parts : List StringPart) : Prop :=
  ∀ text value, [.literal text, .interpolated value] <:+: parts → endDollars text.toList % 2 = 0

namespace StringPart

variable {level : FallbackLevel} {part : StringPart} {parts : List StringPart}

theorem Paired.tail (paired : Paired (part :: parts)) : Paired parts :=
  fun text value inside => paired text value (List.infix_cons inside)

theorem Separate.tail (separate : Separate (part :: parts)) : Separate parts :=
  ⟨fun text member => separate.present text (List.mem_cons_of_mem part member),
    separate.apart.tail⟩

/-- Behind literal text the string ends or an interpolation starts. -/
theorem Separate.behind_literal {text : String} (separate : Separate (.literal text :: parts)) :
    parts = [] ∨ ∃ value rest, parts = .interpolated value :: rest := by
  cases parts with
  | nil => exact .inl rfl
  | cons part rest =>
      cases part with
      | literal other =>
          exact absurd trivial ((List.isChain_cons_cons.1 separate.apart).1 trivial)
      | interpolated value => exact .inr ⟨value, rest, rfl⟩

/-- The parts of a string are read back between its quotes. -/
theorem reread (separate : Separate parts) (paired : Paired parts) (quiet : comments parts = [])
    (each : ∀ value ∈ inside parts, value.Reread level) :
    ∃ signs, InQuotes (StringPart.text false parts) signs ∧
      SettlesMany level (· = .quoteClose) (fun expr => stringPart expr .quoteClose) signs
        parts := by
  induction parts with
  | nil =>
      exact ⟨[], .empty, .nil (.of_forall fun _ _ => stringPart_stops)⟩
  | cons part parts ih =>
      cases part with
      | literal text =>
          obtain ⟨signs, quoted, settles⟩ := ih separate.tail paired.tail quiet each
          refine ⟨⟨.fragment, text⟩ :: signs, ?_, ?_⟩
          · apply quoted.literal (separate.present text List.mem_cons_self)
            · intro rest
              rcases separate.behind_literal with rfl | ⟨value, more, rfl⟩
              · rfl
              · simp [StringPart.text, interpolation, NixSyntax.quotedText]
            · intro dollar
              rcases separate.behind_literal with rfl | ⟨value, more, rfl⟩
              · cases dollar
              · exact paired text value ⟨[], more, rfl⟩
          · rw [← List.singleton_append]
            have first : Settles level (fun _ => True) (fun expr => stringPart expr .quoteClose)
                [⟨.fragment, text⟩] (some (.literal text)) :=
              .of_forall fun _ _ => stringPart_literal text
            exact .cons first (by simp) settles fun _ _ => trivial
      | interpolated value =>
          rw [comments, List.append_eq_nil_iff] at quiet
          obtain ⟨good, others⟩ := List.forall_mem_cons.1 each
          obtain ⟨signs, inner⟩ := good.fills quiet.1
          obtain ⟨signs', quoted, settles⟩ := ih separate.tail paired.tail quiet.2 others
          refine ⟨.mark .interpOpen :: (signs ++ .mark .interpClose :: signs'), ?_, ?_⟩
          · exact quoted.interpolation inner.legible fun _ => .of_head '}' rfl rfl
          · have first : Settles level (fun _ => True) (fun expr => stringPart expr .quoteClose)
                (.mark .interpOpen :: (signs ++ [.mark .interpClose]))
                (some (.interpolated value)) := by
              filter_upwards [inner.settles] with levels read limit
              exact stringPart_interpolated ((read limit).known (by decide))
            have whole := SettlesMany.cons first (by simp) settles fun _ _ => trivial
            simpa using whole

end StringPart

/-! ## Attribute paths -/

/-- Text in the segment leaves its dollar signs to itself. -/
def Segment.Paired : Segment → Prop
  | .quoted parts => StringPart.Paired parts
  | _ => True

def Segment.Readable (level : FallbackLevel) : List Segment → Prop :=
  NixSyntax.Readable level (fun segment => segment.WellFormed ∧ segment.Paired) comments inside

/-- The kind of the token that a segment starts with. -/
def Segment.lead : Segment → Kind
  | .name text => .ofWord text
  | .computed _ => .interpOpen
  | .quoted _ => .quoteOpen

/-- The text of an attribute path or of one of its segments is read back.  In
front of what may stand behind it, it is not taken for the start of a
pattern. -/
structure PathText {α : Type} (level : FallbackLevel) (follow : Kind → Prop)
    (parser : ExprParser → Parser α) (lead : Kind) (text : String) (value : α) (signs : List Sign) :
    Prop where
  legible : Legible EndsWord text signs
  settles : Settles level follow parser signs value
  head : heads ['.', '>', '='] text
  slashless : Slashless text
  starts : ∀ kind, Sign.leadKind signs kind = lead
  tells : ∀ next others, next ∉ [Kind.comma, .question, .curlyClose] →
    opensPattern (signs.map Sign.kind ++ next :: others) = false

/-- The text of the segments behind the first, each with its dot. -/
structure DottedText (level : FallbackLevel) (text : String) (segments : List Segment)
    (signs : List Sign) : Prop where
  legible : Legible EndsWord text signs
  settles : SettlesMany level (· ≠ .dot) (fun expr => dottedSegment expr) signs segments
  slashless : Slashless text
  head : ∀ c ∈ text.toList.head?, c = '.'
  starts : ∀ sign ∈ signs.head?, sign.kind = .dot

section Paths

variable {level : FallbackLevel}

/-- What breaks off a word in front of the rest does so in front of a dotted
text. -/
theorem DottedText.endsWord {text : String} {segments : List Segment} {signs : List Sign}
    (dotted : DottedText level text segments signs) {rest : List Char} (ends : EndsWord rest) :
    EndsWord (text.toList ++ rest) := by
  refine ⟨?_, dotted.slashless rest ends.2⟩
  cases chars : text.toList with
  | nil => exact ends.1
  | cons c more =>
      obtain rfl : c = '.' := dotted.head c (by rw [chars]; rfl)
      rintro d ⟨⟩
      decide

/-- A path is its first segment and the dotted text behind it. -/
theorem PathText.dotted {lead : Kind} {text text' : String} {segment : Segment}
    {segments : List Segment} {signs signs' : List Sign}
    (read : PathText level (fun _ => True) (fun expr => Parser.segment expr) lead text segment
      signs)
    (dotted : DottedText level text' segments signs') :
    PathText level (· ≠ .dot) (fun expr => attrPath expr) lead (text ++ text') (segment :: segments)
      (signs ++ signs') where
  legible := read.legible.append dotted.legible fun _ => dotted.endsWord
  settles := by
    filter_upwards [read.settles, dotted.settles] with levels read others limit
    exact attrPath_yields (read limit) (others limit)
  head := heads_append read.head text'
  slashless := read.slashless.append dotted.slashless
  starts := fun kind => by rw [Sign.leadKind_append, read.starts]
  tells := by
    intro next others other
    rw [List.map_append, List.append_assoc]
    cases signs' with
    | nil => exact read.tells next others other
    | cons sign more =>
        have dot : sign.kind = .dot := dotted.starts sign rfl
        rw [List.map_cons, dot]
        exact read.tells .dot _ (by decide)

end Paths

namespace Segment

variable {level : FallbackLevel} {segment : Segment} {segments : List Segment}

theorem WellFormed.word {text : String} (wellFormed : WellFormed (.name text)) :
    isWord text ∧ Kind.ofWord text ∈ [Kind.identifier, .kwOr] := by
  rcases wellFormed with identifier | rfl
  · obtain ⟨word, same⟩ := isIdentifier_iff.1 identifier
    exact ⟨word, by simp [same]⟩
  · decide

theorem WellFormed.lead (wellFormed : segment.WellFormed) :
    segment.lead ∈ [Kind.identifier, .kwOr, .interpOpen, .quoteOpen] := by
  cases segment with
  | name text =>
      have named : [Kind.identifier, .kwOr] ⊆
          [Kind.identifier, .kwOr, .interpOpen, .quoteOpen] := by
        decide
      exact named wellFormed.word.2
  | computed value => simp [Segment.lead]
  | quoted parts => simp [Segment.lead]

theorem Readable.intro (wellFormed : ∀ segment ∈ segments, segment.WellFormed)
    (paired : ∀ segment ∈ segments, segment.Paired) (quiet : comments segments = [])
    (each : ∀ part ∈ inside segments, part.Reread level) : Readable level segments :=
  ⟨fun segment member => ⟨wellFormed segment member, paired segment member⟩, quiet, each⟩

theorem Readable.split (ready : Readable level (segment :: segments)) :
    Readable level [segment] ∧ Readable level segments :=
  NixSyntax.Readable.split comments_cons inside_cons ready

theorem Readable.lead (ready : Readable level [segment]) :
    segment.lead ∈ [Kind.identifier, .kwOr, .interpOpen, .quoteOpen] :=
  (ready.good segment List.mem_cons_self).1.lead

theorem texts_cons (segment : Segment) (segments : List Segment) :
    texts (segment :: segments) = texts [segment] ++ texts segments := by
  cases segment <;> simp [texts]

theorem name_reread {text : String} (wellFormed : WellFormed (.name text)) :
    PathText level (fun _ => True) (fun expr => Parser.segment expr) (.ofWord text) text
      (.name text) [⟨.ofWord text, text⟩] := by
  obtain ⟨word, kind⟩ := wellFormed.word
  exact {
    legible := .word word
    settles := .of_forall fun _ _ => segment_name kind text
    head := heads_word word
    slashless := .of_free (isWord_slashless word)
    starts := fun _ => rfl
    tells := by
      intro next others other
      simp only [List.mem_cons, List.not_mem_nil, or_false] at kind
      rcases kind with same | same <;> simp only [same, List.map_cons, List.map_nil]
      · cases next <;> first | rfl | simp at other
      · rfl }

/-- A segment is read back. -/
theorem reread (ready : Readable level [segment]) :
    ∃ text signs, texts [segment] = [text] ∧
      PathText level (fun _ => True) (fun expr => Parser.segment expr) segment.lead text segment
        signs := by
  obtain ⟨good, quiet, each⟩ := ready
  obtain ⟨wellFormed, paired⟩ := good segment List.mem_cons_self
  cases segment with
  | name text => exact ⟨text, _, rfl, name_reread wellFormed⟩
  | computed value =>
      rw [comments, List.append_eq_nil_iff] at quiet
      obtain ⟨signs, inner⟩ := (each value List.mem_cons_self).fills quiet.1
      refine ⟨_, .mark .interpOpen :: (signs ++ [.mark .interpClose]), rfl, ?_⟩
      exact {
        legible := by
          have whole := inner.legible.interpolation fun _ => .of_head '}' rfl rfl
          exact whole.mono fun _ _ => trivial
        settles := by
          filter_upwards [inner.settles] with levels read limit
          exact segment_computed ((read limit).known (by decide))
        head := heads_append (heads_append (by decide) _) _
        slashless := .of_head '$' (by simp [interpolation]) rfl
        starts := fun _ => rfl
        tells := fun _ _ _ => rfl }
  | quoted parts =>
      rw [comments, List.append_eq_nil_iff] at quiet
      rw [inside, inside, List.append_nil] at each
      obtain ⟨signs, quoted, settles⟩ := StringPart.reread wellFormed paired quiet.1 each
      refine ⟨_, .mark .quoteOpen :: (signs ++ [.mark .quoteClose]), rfl, ?_⟩
      exact {
        legible := (Legible.quotes quoted).mono fun _ _ => trivial
        settles := by
          filter_upwards [settles] with levels read limit
          exact segment_quoted (read limit)
        head := heads_append (heads_append (by decide) _) _
        slashless := .of_head '"' (by simp [stringQuotes]) rfl
        starts := fun _ => rfl
        tells := fun _ _ _ => rfl }

/-- The segments behind the first are read back. -/
theorem dotted_reread (ready : Readable level segments) :
    ∃ signs, DottedText level (String.join ((texts segments).map ("." ++ ·))) segments signs := by
  induction segments with
  | nil =>
      refine ⟨[], ?_⟩
      exact {
        legible := .empty
        settles := .nil (.of_forall fun _ _ => dottedSegment_stops)
        slashless := .of_free (by decide)
        head := nofun
        starts := nofun }
  | cons segment segments ih =>
      obtain ⟨first, others⟩ := ready.split
      obtain ⟨text, signs, same, read⟩ := reread first
      obtain ⟨signs', dotted⟩ := ih others
      refine ⟨.mark .dot :: signs ++ signs', ?_⟩
      rw [texts_cons, same, List.singleton_append, List.map_cons, String.join_cons]
      exact {
        legible := by
          refine (Legible.dot.append read.legible ?_).append dotted.legible ?_
          · exact fun rest ends =>
              ⟨read.slashless rest ends.2, head_ne_of_heads read.head (by decide) rest⟩
          · exact fun _ => dotted.endsWord
        settles := by
          have first : Settles level (fun _ => True) (fun expr => dottedSegment expr)
              (.mark .dot :: signs) (some segment) := by
            filter_upwards [read.settles] with levels read limit
            exact dottedSegment_yields (read limit)
          exact .cons first (List.cons_ne_nil _ _) dotted.settles fun _ _ => trivial
        slashless :=
          (Slashless.append (.of_free (by decide)) read.slashless).append dotted.slashless
        head := by simp
        starts := by simp [Sign.mark] }

theorem intercalate_texts (text : String) (texts : List String) :
    ".".intercalate (text :: texts) = text ++ String.join (texts.map ("." ++ ·)) := by
  induction texts generalizing text with
  | nil => simp
  | cons next texts ih =>
      rw [String.intercalate_cons_cons, ih, List.map_cons, String.join_cons, String.append_assoc,
        String.append_assoc]

/-- An attribute path is read back. -/
theorem path_reread (ready : Readable level (segment :: segments)) :
    ∃ signs, PathText level (· ≠ .dot) (fun expr => attrPath expr) segment.lead
      (".".intercalate (texts (segment :: segments))) (segment :: segments) signs := by
  obtain ⟨first, others⟩ := ready.split
  obtain ⟨text, signs, same, read⟩ := reread first
  obtain ⟨signs', dotted⟩ := dotted_reread others
  rw [texts_cons, same, List.singleton_append, intercalate_texts]
  exact ⟨signs ++ signs', read.dotted dotted⟩

end Segment

end NixSyntax
