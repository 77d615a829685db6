/-
Module: NixSyntax.Proofs.WellFormed
Purpose: What the rules make of tokens, one node at a time.
Main exports: Form.WellFormed, Sign.Lexed, Parser.Makes, Parser.startRule_makes,
  Parser.joinRule_makes
-/
import Mathlib.Data.List.Chain
import NixSyntax.Proofs.Inside
import NixSyntax.Proofs.Inversion
import NixSyntax.Proofs.Legible
import NixSyntax.Proofs.Reading

namespace NixSyntax

/-!
A rule puts a node together from tokens and from expressions that the nested
parser returned.  So what holds of the results of that parser holds of all that
is inside the node, and if the tokens are those of a text, the names, texts and
numbers in it are such as the scanner finds.  Both are followed through the
rules side by side here, so that an invariant of trees needs no further pass
over the rules.
-/

/-! ## Well-formed nodes -/

/-- A word that is not reserved. -/
def isIdentifier (text : String) : Bool :=
  isWord text && Kind.ofWord text == .identifier

theorem isIdentifier_iff {text : String} :
    isIdentifier text ↔ isWord text ∧ Kind.ofWord text = .identifier := by
  simp [isIdentifier]

def StringPart.IsLiteral : StringPart → Prop
  | .literal _ => True
  | .interpolated _ => False

/-- No literal text is empty or stands behind another one. -/
structure StringPart.Separate (parts : List StringPart) : Prop where
  present : ∀ text, .literal text ∈ parts → text ≠ ""
  apart : parts.IsChain fun part next => part.IsLiteral → ¬ next.IsLiteral

namespace StringPart.Separate

variable {parts : List StringPart}

theorem nil : Separate [] :=
  ⟨nofun, .nil⟩

theorem literal {text : String} (present : text ≠ "") (rest : Separate parts)
    (other : ∀ part ∈ parts.head?, ¬ part.IsLiteral) : Separate (.literal text :: parts) := by
  refine ⟨?_, List.isChain_cons.2 ⟨fun part head _ => other part head, rest.apart⟩⟩
  intro found member
  rcases List.mem_cons.1 member with same | later
  · cases same
    exact present
  · exact rest.present found later

theorem interpolated (value : Expr) (rest : Separate parts) :
    Separate (.interpolated value :: parts) := by
  refine ⟨?_, List.isChain_cons.2 ⟨nofun, rest.apart⟩⟩
  intro found member
  rcases List.mem_cons.1 member with same | later
  · cases same
  · exact rest.present found later

end StringPart.Separate

/-- A segment without regard to the expressions inside it.  The word `or` is a
name here. -/
def Segment.WellFormed : Segment → Prop
  | .name text => isIdentifier text ∨ text = "or"
  | .computed _ => True
  | .quoted parts => StringPart.Separate parts

/-- The segment is a name. -/
def Segment.IsName : Segment → Prop
  | .name text => isIdentifier text
  | _ => False

/-- The segment is the word `or`. -/
def Segment.IsOr : Segment → Prop
  | .name text => text = "or"
  | _ => False

/-- An attribute path has a segment. -/
structure Segment.Path (segments : List Segment) : Prop where
  present : segments ≠ []
  each : ∀ segment ∈ segments, segment.WellFormed

/-- What is assigned to does not start with the word `or`. -/
def Binding.WellFormed : Binding → Prop
  | .assign path _ _ => Segment.Path path ∧ ∀ first ∈ path.head?, ¬ first.IsOr
  | .inherit _ names _ => Segment.Path names

/-- A form without regard to the expressions inside it. -/
def Form.WellFormed : Form → Prop
  | .int value => 0 ≤ value ∧ value ≤ 9223372036854775807
  | .path text => isPath text
  | .name segments => Segment.Path segments ∧ ∀ first ∈ segments.head?, first.IsName
  | .string _ parts => StringPart.Separate parts
  | .attrs _ bindings _ => ∀ entry ∈ bindings, entry.WellFormed
  | .letIn bindings _ _ => ∀ entry ∈ bindings, entry.WellFormed
  | .lambda param _ => isIdentifier param
  | .patternLambda params _ whole _ _ =>
    (∀ param ∈ params, isIdentifier param.name) ∧ ∀ name ∈ whole, isIdentifier name
  | .apply _ arguments => arguments ≠ []
  | .hasAttr _ segments => Segment.Path segments
  | .select _ segments => Segment.Path segments
  | _ => True

/-- An expression without regard to those inside it. -/
def Expr.WellFormed (value : Expr) : Prop :=
  value.form.WellFormed

/-- Whether a form is an attribute test. -/
def Form.isTest : Form → Bool
  | .hasAttr _ _ => true
  | _ => false

theorem splitSign_digits {digits : List Char} (each : ∀ c ∈ digits, c.isDigit) :
    splitSign digits = (false, digits) := by
  unfold splitSign
  split
  · exact absurd (each '-' List.mem_cons_self) (by decide)
  · exact absurd (each '+' List.mem_cons_self) (by decide)
  · rfl

/-- Digits without a sign stand for a number that is not negative. -/
theorem readInteger_range {text : String} {value : Int}
    (digits : ∀ c ∈ text.toList, c.isDigit) (read : readInteger text = some value) :
    0 ≤ value ∧ value ≤ 9223372036854775807 := by
  unfold readInteger at read
  rw [splitSign_digits digits] at read
  simp only [Bool.false_eq_true, if_false, Option.ite_none_left_eq_some,
    Option.ite_none_right_eq_some, Option.some.injEq] at read
  obtain ⟨-, fits, rfl⟩ := read
  simp only [fitsInteger, Bool.and_eq_true, decide_eq_true_eq] at fits
  exact ⟨Int.natCast_nonneg _, fits.2⟩

theorem standardStart_name {kind : Kind} (start : Grammar.standardStart kind = some .name) :
    kind = .identifier := by
  revert start
  cases kind <;> simp [Grammar.standardStart]

/-! ## Tokens of a text -/

/-- What the value of a sign looks like if it comes from a text. -/
def Sign.IsLexed (sign : Sign) : Prop :=
  match sign.kind with
  | .int => ∀ c ∈ sign.value.toList, c.isDigit
  | .identifier => isIdentifier sign.value
  | .kwOr => sign.value = "or"
  | .path => isPath sign.value
  | .fragment => sign.value ≠ ""
  | _ => True

/-- Signs as they come from a text: no literal text of a string stands behind
another one, and the end of the input comes last. -/
structure Sign.Lexed (signs : List Sign) : Prop where
  each : ∀ sign ∈ signs, sign.IsLexed
  apart : signs.IsChain fun sign next => sign.kind = .fragment → next.kind ≠ .fragment
  ends : ∃ last ∈ signs.getLast?, last.kind = .endOfInput

theorem Sign.Lexed.tail {sign next : Sign} {signs : List Sign}
    (lexed : Lexed (sign :: next :: signs)) : Lexed (next :: signs) := by
  refine ⟨fun other member => lexed.each other (List.mem_cons_of_mem sign member),
    lexed.apart.tail, ?_⟩
  have ends := lexed.ends
  rwa [List.getLast?_cons_cons] at ends

/-- The tokens ahead are those of a text, if all tokens are. -/
def Stream.Lexed (scanned : Prop) (stream : Stream) : Prop :=
  scanned → Sign.Lexed stream.signs

namespace Stream

variable {scanned : Prop} {source : Stream}

theorem Lexed.advance (lexed : source.Lexed scanned) : source.advance.2.Lexed scanned := by
  intro known
  have all := lexed known
  rw [signs, tokens_advance]
  cases upcoming : source.upcoming with
  | nil =>
      rw [signs, tokens, upcoming] at all
      rw [if_pos rfl, advance_fst]
      exact all
  | cons next rest =>
      rw [signs, tokens, upcoming] at all
      exact all.tail

theorem Lexed.of_signs {target : Stream} (lexed : source.Lexed scanned)
    (same : source.signs = target.signs) : target.Lexed scanned :=
  fun known => same ▸ lexed known

theorem Lexed.current (lexed : source.Lexed scanned) (known : scanned) :
    source.current.sign.IsLexed :=
  (lexed known).each _ List.mem_cons_self

/-- Behind literal text there is something else. -/
theorem Lexed.behind_fragment (lexed : source.Lexed scanned) (known : scanned)
    (fragment : source.current.kind = .fragment) : source.advance.2.current.kind ≠ .fragment := by
  have all := lexed known
  have more := upcoming_ne_nil all.ends (by rw [fragment]; decide)
  cases upcoming : source.upcoming with
  | nil => exact absurd upcoming more
  | cons next rest =>
      have next_current : source.advance.2.current = next := by
        have shape := tokens_advance source
        rw [if_neg more, upcoming] at shape
        exact (List.cons.inj shape).1
      rw [signs, tokens, upcoming] at all
      rw [next_current]
      exact (List.isChain_cons_cons.1 all.apart).1 fragment

end Stream

/-! ## What parsers make -/

/-- What is inside has the property, and the node is well-formed if the tokens
are those of a text. -/
structure Made (holds : Expr → Prop) (scanned : Prop) (inside : List Expr) (shape : Prop) :
    Prop where
  parts : ∀ part ∈ inside, holds part
  shaped : scanned → shape

/-- A node that was put together so, without clauses and comments.  None of the
start rules reads an attribute test. -/
def Fresh (holds : Expr → Prop) (scanned : Prop) (value : Expr) : Prop :=
  ∃ form, value = .bare form ∧ form.isTest = false ∧
    Made holds scanned form.inside form.WellFormed

namespace Made

variable {holds : Expr → Prop} {scanned : Prop} {inside inside' : List Expr} {shape shape' : Prop}

theorem mono (made : Made holds scanned inside shape) (weaker : shape → shape') :
    Made holds scanned inside shape' :=
  ⟨made.parts, fun known => weaker (made.shaped known)⟩

theorem append (made : Made holds scanned inside shape)
    (other : Made holds scanned inside' shape') :
    Made holds scanned (inside ++ inside') (shape ∧ shape') :=
  ⟨List.forall_mem_append.2 ⟨made.parts, other.parts⟩,
    fun known => ⟨made.shaped known, other.shaped known⟩⟩

theorem single {value : Expr} (good : holds value) : Made holds scanned [value] True :=
  ⟨List.forall_mem_singleton.2 good, fun _ => trivial⟩

end Made

namespace Parser

open NixSyntax.Stream

variable {α β : Type} {scanned : Prop} {holds : Expr → Prop} {expr : ExprParser}

/-- The results of the parser are good, and it leaves tokens of a text if it
starts from them. -/
def Makes (scanned : Prop) (good : α → Prop) (parser : Parser α) : Prop :=
  ∀ source value target, source.Lexed scanned → parser source = .ok value target →
    good value ∧ target.Lexed scanned

theorem takeBefore_makes : Makes scanned (fun _ => True) takeBefore := by
  intro source value target lexed run
  obtain ⟨-, rfl⟩ := takeBefore_ok.1 run
  exact ⟨trivial, lexed.of_signs rfl⟩

theorem takeUnclaimed_makes : Makes scanned (fun _ => True) takeUnclaimed := by
  intro source value target lexed run
  obtain ⟨-, rfl⟩ := takeUnclaimed_ok.1 run
  exact ⟨trivial, lexed⟩

theorem takeAfter_makes : Makes scanned (fun _ => True) takeAfter := by
  intro source value target lexed run
  rw [takeAfter_eq] at run
  split at run
  · exact takeBefore_makes _ _ _ lexed run
  · exact takeUnclaimed_makes _ _ _ lexed run

/-- A repetition makes a list of what the step makes. -/
theorem many_makes {step : Parser (Option α)} {goodItem : α → Prop} {good : List α → Prop}
    (nil : good []) (cons : ∀ item items, goodItem item → good items → good (item :: items))
    (each : Makes scanned (fun found => ∀ item ∈ found, goodItem item) step) :
    Makes scanned good (many step) := by
  intro source items target lexed run
  obtain ⟨stream, middle, got, repeated⟩ := bind_ok.1 run
  obtain ⟨rfl, rfl⟩ := get_ok.1 got
  generalize source.current :: source.upcoming = bound at repeated
  clear run got
  induction bound generalizing source items with
  | nil =>
      obtain ⟨rfl, rfl⟩ := pure_ok.1 repeated
      exact ⟨nil, lexed⟩
  | cons token bound ih =>
      rcases manyWithin_cons_ok.1 repeated with
        ⟨stepped, rfl⟩ | ⟨item, middle, rest, stepped, further, rfl⟩
      · exact ⟨nil, (each _ _ _ lexed stepped).2⟩
      · obtain ⟨goodOne, lexedMiddle⟩ := each _ _ _ lexed stepped
        obtain ⟨goodRest, lexedTarget⟩ := ih _ _ lexedMiddle further
        exact ⟨cons _ _ (goodOne item rfl) goodRest, lexedTarget⟩

/-- The same where the items of the list have expressions inside them. -/
theorem many_made {step : Parser (Option α)} {inside : List α → List Expr} {shape : α → Prop}
    (nil : inside [] = [])
    (cons : ∀ item items, inside (item :: items) = inside [item] ++ inside items)
    (each : Makes scanned (fun found => ∀ item ∈ found,
      Made holds scanned (inside [item]) (shape item)) step) :
    Makes scanned (fun items => Made holds scanned (inside items) (∀ item ∈ items, shape item))
      (many step) := by
  apply many_makes _ _ each
  · rw [nil]
    exact ⟨nofun, fun _ => nofun⟩
  · intro item items made others
    rw [cons]
    exact (made.append others).mono List.forall_mem_cons.2

/-! ## Strings and attribute paths -/

section Rules

variable (nested : ∀ power, Makes scanned holds (expr power))
  (after : ∀ value comments, holds value → holds (value.addAfter comments))

include nested

theorem interpolated_makes : Makes scanned holds (interpolated expr) := by
  intro source value target lexed run
  obtain ⟨-, s₁, read, -, rfl⟩ := interpolated_ok.1 run
  obtain ⟨good, lexed₁⟩ := nested _ _ _ _ lexed.advance read
  exact ⟨good, lexed₁.advance⟩

/-- Literal texts do not meet because their tokens do not. -/
theorem stringParts_makes {close : Kind} {source target : Stream} {parts : List StringPart}
    (lexed : source.Lexed scanned)
    (run : many (stringPart expr close) source = .ok parts target) :
    Made holds scanned (StringPart.inside parts) (StringPart.Separate parts) ∧
      target.Lexed scanned := by
  obtain ⟨stream, middle, got, repeated⟩ := bind_ok.1 run
  obtain ⟨rfl, rfl⟩ := get_ok.1 got
  generalize source.current :: source.upcoming = bound at repeated
  -- A text is told apart from the next one by the token in front of it.
  have strong : Made holds scanned (StringPart.inside parts) (StringPart.Separate parts ∧
      (source.current.kind ≠ .fragment → ∀ part ∈ parts.head?, ¬ part.IsLiteral)) ∧
      target.Lexed scanned := by
    clear run got
    induction bound generalizing source parts with
    | nil =>
        obtain ⟨rfl, rfl⟩ := pure_ok.1 repeated
        exact ⟨⟨nofun, fun _ => ⟨.nil, nofun⟩⟩, lexed⟩
    | cons token bound ih =>
        rcases manyWithin_cons_ok.1 repeated with
          ⟨stepped, rfl⟩ | ⟨part, middle, rest, stepped, further, rfl⟩
        · rcases stringPart_ok.1 stepped with ⟨-, -, ⟨⟩⟩ | ⟨_, -, ⟨⟩⟩ | ⟨-, -, -, -, rfl⟩
          exact ⟨⟨nofun, fun _ => ⟨.nil, nofun⟩⟩, lexed⟩
        · rcases stringPart_ok.1 stepped with
            ⟨fragment, rfl, ⟨⟩⟩ | ⟨value, read, ⟨⟩⟩ | ⟨-, -, -, ⟨⟩, -⟩
          · obtain ⟨made, lexedTarget⟩ := ih lexed.advance further
            refine ⟨⟨made.parts, fun known => ?_⟩, lexedTarget⟩
            obtain ⟨separate, first⟩ := made.shaped known
            have present : source.current.value ≠ "" := by
              have sound := lexed.current known
              rwa [Sign.IsLexed, Token.sign, fragment] at sound
            refine ⟨separate.literal present (first (lexed.behind_fragment known fragment)), ?_⟩
            exact fun other => absurd fragment other
          · obtain ⟨good, lexed₁⟩ := interpolated_makes nested _ _ _ lexed read
            obtain ⟨made, lexedTarget⟩ := ih lexed₁ further
            refine ⟨⟨?_, fun known => ?_⟩, lexedTarget⟩
            · exact List.forall_mem_cons.2 ⟨good, made.parts⟩
            · refine ⟨(made.shaped known).1.interpolated value, ?_⟩
              rintro - part ⟨⟩
              exact id
  exact ⟨⟨strong.1.parts, fun known => (strong.1.shaped known).1⟩, strong.2⟩

theorem stringLiteral_makes : Makes scanned (fun result => Made holds scanned
    (StringPart.inside result.2) (StringPart.Separate result.2)) (stringLiteral expr) := by
  rintro source ⟨indented, parts⟩ target lexed run
  obtain ⟨-, s₁, read, rfl, -⟩ := stringLiteral_ok.1 run
  obtain ⟨made, lexed₁⟩ := stringParts_makes nested lexed.advance read
  exact ⟨made, lexed₁.advance⟩

theorem segment_makes : Makes scanned (fun found => Made holds scanned
    (Segment.inside [found]) found.WellFormed) (segment expr) := by
  intro source found target lexed run
  rcases segment_ok.1 run with
    ⟨kind, rfl, rfl⟩ | ⟨value, read, rfl⟩ | ⟨kind, indented, parts, read, rfl⟩
  · refine ⟨⟨nofun, fun known => ?_⟩, lexed.advance⟩
    have sound := lexed.current known
    simp only [List.mem_cons, List.not_mem_nil, or_false] at kind
    rcases kind with kind | kind
    · rw [Sign.IsLexed, Token.sign, kind] at sound
      exact .inl sound
    · rw [Sign.IsLexed, Token.sign, kind] at sound
      exact .inr sound
  · obtain ⟨good, lexed₁⟩ := interpolated_makes nested _ _ _ lexed read
    exact ⟨.single good, lexed₁⟩
  · obtain ⟨made, lexed₁⟩ := stringLiteral_makes nested _ _ _ lexed read
    refine ⟨?_, lexed₁⟩
    show Made holds scanned (StringPart.inside parts ++ []) _
    rwa [List.append_nil]

theorem segments_makes : Makes scanned (fun found => Made holds scanned
    (Segment.inside found) (∀ segment ∈ found, segment.WellFormed)) (many (dottedSegment expr)) := by
  apply many_made rfl Segment.inside_cons
  intro source found target lexed run
  rcases dottedSegment_ok.1 run with ⟨-, segment, read, rfl⟩ | ⟨-, rfl, rfl⟩
  · obtain ⟨made, lexed₁⟩ := segment_makes nested _ _ _ lexed.advance read
    refine ⟨?_, lexed₁⟩
    rintro _ ⟨⟩
    exact made
  · exact ⟨nofun, lexed⟩

theorem attrPath_makes : Makes scanned (fun path => Made holds scanned
    (Segment.inside path) (Segment.Path path)) (attrPath expr) := by
  intro source path target lexed run
  obtain ⟨first, s₁, others, read, readOthers, rfl⟩ := attrPath_ok.1 run
  obtain ⟨made, lexed₁⟩ := segment_makes nested _ _ _ lexed read
  obtain ⟨madeOthers, lexedTarget⟩ := segments_makes nested _ _ _ lexed₁ readOthers
  refine ⟨?_, lexedTarget⟩
  show Made holds scanned (Segment.inside (first :: others)) _
  rw [Segment.inside_cons]
  exact (made.append madeOthers).mono fun both =>
    ⟨List.cons_ne_nil first others, List.forall_mem_cons.2 both⟩

omit nested in
/-- The first segment of a path shows the token that it was read from. -/
theorem attrPath_head {source target : Stream} {path : List Segment} (lexed : source.Lexed scanned)
    (known : scanned) (run : attrPath expr source = .ok path target) :
    (source.current.kind = .identifier → ∀ first ∈ path.head?, first.IsName) ∧
      (source.current.kind ≠ .kwOr → ∀ first ∈ path.head?, ¬ first.IsOr) := by
  obtain ⟨first, s₁, others, read, -, rfl⟩ := attrPath_ok.1 run
  have named : source.current.kind = .identifier → isIdentifier source.current.value := by
    intro kind
    have sound := lexed.current known
    rwa [Sign.IsLexed, Token.sign, kind] at sound
  rcases segment_ok.1 read with
    ⟨kind, -, rfl⟩ | ⟨value, opens, rfl⟩ | ⟨kind, indented, parts, -, rfl⟩
  · refine ⟨?_, ?_⟩
    · rintro identifier _ ⟨⟩
      exact named identifier
    · rintro other _ ⟨⟩ same
      have identifier := named (by simpa [other] using kind)
      rw [show source.current.value = "or" from same] at identifier
      exact absurd identifier (by decide)
  · refine ⟨fun identifier => ?_, ?_⟩
    · rw [(interpolated_ok.1 opens).1] at identifier
      cases identifier
    · rintro - _ ⟨⟩
      exact id
  · refine ⟨fun identifier => ?_, ?_⟩
    · rw [kind] at identifier
      cases identifier
    · rintro - _ ⟨⟩
      exact id

/-! ## Entries of sets and of `let` -/

include after in
theorem assignment_makes {comments : List Comment} {source target : Stream} {entry : Binding}
    (lexed : source.Lexed scanned) (other : source.current.kind ≠ .kwOr)
    (run : assignment expr comments source = .ok entry target) :
    Made holds scanned (Binding.inside [entry]) entry.WellFormed ∧ target.Lexed scanned := by
  obtain ⟨path, s₁, value, s₂, behind, readPath, -, read, -, claimed, rfl⟩ := assignment_ok.1 run
  obtain ⟨made, lexed₁⟩ := attrPath_makes nested _ _ _ lexed readPath
  obtain ⟨good, lexed₂⟩ := nested _ _ _ _ lexed₁.advance read
  obtain ⟨-, lexedTarget⟩ := takeUnclaimed_makes _ _ _ lexed₂.advance claimed
  refine ⟨⟨?_, fun known => ⟨made.shaped known, ?_⟩⟩, lexedTarget⟩
  · exact List.forall_mem_append.2 ⟨made.parts,
      List.forall_mem_singleton.2 (after _ behind good)⟩
  · exact (attrPath_head lexed known readPath).2 other

theorem inheritSource_makes :
    Makes scanned (fun origin => ∀ value ∈ origin, holds value) (inheritSource expr) := by
  intro source origin target lexed run
  rcases inheritSource_ok.1 run with ⟨-, value, s₁, read, -, rfl, rfl⟩ | ⟨-, rfl, rfl⟩
  · obtain ⟨good, lexed₁⟩ := nested _ _ _ _ lexed.advance read
    refine ⟨?_, lexed₁.advance⟩
    rintro _ ⟨⟩
    exact good
  · exact ⟨nofun, lexed⟩

theorem inheritedNames_makes : Makes scanned (fun found => Made holds scanned
    (Segment.inside found) (∀ segment ∈ found, segment.WellFormed)) (many (inheritedName expr)) := by
  apply many_made rfl Segment.inside_cons
  intro source found target lexed run
  rcases inheritedName_ok.1 run with ⟨-, rfl, rfl⟩ | ⟨-, segment, read, rfl⟩
  · exact ⟨nofun, lexed⟩
  · obtain ⟨made, lexed₁⟩ := segment_makes nested _ _ _ lexed read
    refine ⟨?_, lexed₁⟩
    rintro _ ⟨⟩
    exact made

theorem inheritance_makes {comments : List Comment} : Makes scanned (fun entry => Made holds scanned
    (Binding.inside [entry]) entry.WellFormed) (inheritance expr comments) := by
  intro source entry target lexed run
  obtain ⟨-, origin, s₁, first, s₂, others, s₃, after, readSource, read, readOthers, claimed, rfl⟩ :=
    inheritance_ok.1 run
  obtain ⟨good, lexed₁⟩ := inheritSource_makes nested _ _ _ lexed.advance readSource
  obtain ⟨made, lexed₂⟩ := segment_makes nested _ _ _ lexed₁ read
  obtain ⟨madeOthers, lexed₃⟩ := inheritedNames_makes nested _ _ _ lexed₂ readOthers
  obtain ⟨-, lexedTarget⟩ := takeUnclaimed_makes _ _ _ lexed₃.advance claimed
  refine ⟨⟨?_, fun known => ?_⟩, lexedTarget⟩
  · rw [Binding.inside, Segment.inside_cons, Binding.inside, List.append_nil]
    refine List.forall_mem_append.2 ⟨?_, (made.append madeOthers).parts⟩
    exact fun value member => good value (Option.mem_toList.1 member)
  · exact ⟨List.cons_ne_nil first others,
      List.forall_mem_cons.2 ⟨made.shaped known, madeOthers.shaped known⟩⟩

include after in
theorem entries_makes {close : Kind} : Makes scanned (fun found => Made holds scanned
    (Binding.inside found) (∀ entry ∈ found, entry.WellFormed)) (many (binding expr close)) := by
  apply many_made rfl Binding.inside_cons
  intro source found target lexed run
  rcases binding_ok.1 run with
    ⟨-, rfl, rfl⟩ | ⟨-, start, comments, s₁, entry, took, read, rfl⟩
  · exact ⟨nofun, lexed⟩
  · obtain ⟨-, lexed₁⟩ := takeBefore_makes _ _ _ lexed took
    have same : s₁.current.kind = source.current.kind := by
      obtain ⟨-, rfl⟩ := takeBefore_ok.1 took
      rfl
    have made : Made holds scanned (Binding.inside [entry]) entry.WellFormed ∧
        target.Lexed scanned := by
      rcases read with ⟨-, read⟩ | ⟨-, read⟩
      · exact inheritance_makes nested _ _ _ lexed₁ read
      · refine assignment_makes nested after lexed₁ ?_ read
        rw [same]
        exact ne_of_mem_of_not_mem start (by decide)
    refine ⟨?_, made.2⟩
    rintro _ ⟨⟩
    exact made.1

include after in
theorem bindings_makes {close : Kind} : Makes scanned (fun found => Made holds scanned
    (Binding.inside found.1) (∀ entry ∈ found.1, entry.WellFormed)) (bindings expr close) := by
  rintro source ⟨entries, inner⟩ target lexed run
  obtain ⟨s₁, read, took⟩ := bindings_ok.1 run
  obtain ⟨made, lexed₁⟩ := entries_makes nested after _ _ _ lexed read
  exact ⟨made, (takeBefore_makes _ _ _ lexed₁ took).2⟩

include after in
theorem attrs_makes {recursive : Bool} :
    Makes scanned (Fresh holds scanned) (attrs expr recursive) := by
  intro source value target lexed run
  obtain ⟨-, entries, inner, s₁, read, -, rfl, rfl⟩ := attrs_ok.1 run
  obtain ⟨made, lexed₁⟩ := bindings_makes nested after _ _ _ lexed.advance read
  exact ⟨⟨_, rfl, rfl, made⟩, lexed₁.advance⟩

include after in
theorem letIn_makes : Makes scanned (Fresh holds scanned) (letIn expr) := by
  intro source value target lexed run
  obtain ⟨-, -, entries, inner, s₁, body, read, -, readBody, rfl⟩ := letIn_ok.1 run
  obtain ⟨made, lexed₁⟩ := bindings_makes nested after _ _ _ lexed.advance read
  obtain ⟨good, lexedTarget⟩ := nested _ _ _ _ lexed₁.advance readBody
  exact ⟨⟨_, rfl, rfl, (made.append (.single good)).mono And.left⟩, lexedTarget⟩

/-! ## Functions -/

theorem paramDefault_makes :
    Makes scanned (fun default => ∀ value ∈ default, holds value) (paramDefault expr) := by
  intro source default target lexed run
  rcases paramDefault_ok.1 run with ⟨-, value, read, rfl⟩ | ⟨-, rfl, rfl⟩
  · obtain ⟨good, lexed₁⟩ := nested _ _ _ _ lexed.advance read
    refine ⟨?_, lexed₁⟩
    rintro _ ⟨⟩
    exact good
  · exact ⟨nofun, lexed⟩

theorem param_makes : Makes scanned (fun found => Made holds scanned
    (Param.inside [found]) (isIdentifier found.name)) (param expr) := by
  intro source found target lexed run
  obtain ⟨before, s₁, default, s₂, s₃, behind, took, name, read, comma, claimed, rfl⟩ :=
    param_ok.1 run
  obtain ⟨-, lexed₁⟩ := takeBefore_makes _ _ _ lexed took
  obtain ⟨good, lexed₂⟩ := paramDefault_makes nested _ _ _ lexed₁.advance read
  have lexed₃ : s₃.Lexed scanned := by
    rcases comma with ⟨-, rfl⟩ | ⟨-, rfl⟩
    · exact lexed₂.advance
    · exact lexed₂
  refine ⟨⟨?_, fun known => ?_⟩, (takeUnclaimed_makes _ _ _ lexed₃ claimed).2⟩
  · rw [Param.inside, Param.inside, List.append_nil]
    exact fun value member => good value (Option.mem_toList.1 member)
  · have sound := lexed₁.current known
    rwa [Sign.IsLexed, Token.sign, name] at sound

theorem params_makes : Makes scanned (fun found => Made holds scanned
    (Param.inside found) (∀ param ∈ found, isIdentifier param.name)) (many (nextParam expr)) := by
  apply many_made rfl Param.inside_cons
  intro source found target lexed run
  rcases nextParam_ok.1 run with ⟨-, rfl, rfl⟩ | ⟨-, param, read, rfl⟩
  · exact ⟨nofun, lexed⟩
  · obtain ⟨made, lexed₁⟩ := param_makes nested _ _ _ lexed read
    refine ⟨?_, lexed₁⟩
    rintro _ ⟨⟩
    exact made

theorem pattern_makes : Makes scanned (fun found => Made holds scanned
    (Param.inside found.params) (∀ param ∈ found.params, isIdentifier param.name))
    (Parser.pattern expr) := by
  intro source found target lexed run
  obtain ⟨-, params, s₁, isOpen, s₂, inner, s₃, read, skipped, took, -, rfl, rfl⟩ :=
    pattern_ok.1 run
  obtain ⟨made, lexed₁⟩ := params_makes nested _ _ _ lexed.advance read
  have lexed₂ : s₂.Lexed scanned := by
    rcases skip_ok.1 skipped with ⟨-, -, rfl⟩ | ⟨-, -, rfl⟩
    · exact lexed₁.advance
    · exact lexed₁
  exact ⟨made, (takeBefore_makes _ _ _ lexed₂ took).2.advance⟩

omit nested in
theorem wholeBefore_makes :
    Makes scanned (fun whole => scanned → ∀ name ∈ whole, isIdentifier name) wholeBefore := by
  intro source whole target lexed run
  rcases wholeBefore_ok.1 run with ⟨name, -, rfl, rfl⟩ | ⟨-, rfl, rfl⟩
  · refine ⟨fun known => ?_, lexed.advance.advance⟩
    rintro _ ⟨⟩
    have sound := lexed.current known
    rwa [Sign.IsLexed, Token.sign, name] at sound
  · refine ⟨fun _ => ?_, lexed⟩
    rintro _ ⟨⟩

omit nested in
theorem wholeAfter_makes {given : Option String}
    (sound : scanned → ∀ name ∈ given, isIdentifier name) :
    Makes scanned (fun whole => scanned → ∀ name ∈ whole, isIdentifier name)
      (wholeAfter given) := by
  intro source whole target lexed run
  rcases wholeAfter_ok.1 run with ⟨-, -, name, rfl, rfl⟩ | ⟨-, rfl, rfl⟩
  · refine ⟨fun known => ?_, lexed.advance.advance⟩
    rintro _ ⟨⟩
    have sound := lexed.advance.current known
    rwa [Sign.IsLexed, Token.sign, name] at sound
  · exact ⟨sound, lexed⟩

theorem patternLambda_makes : Makes scanned (Fresh holds scanned) (patternLambda expr) := by
  intro source value target lexed run
  obtain ⟨given, s₁, pattern, s₂, whole, s₃, body, readGiven, read, readWhole, -, readBody, rfl⟩ :=
    patternLambda_ok.1 run
  obtain ⟨soundGiven, lexed₁⟩ := wholeBefore_makes _ _ _ lexed readGiven
  obtain ⟨made, lexed₂⟩ := pattern_makes nested _ _ _ lexed₁ read
  obtain ⟨soundWhole, lexed₃⟩ := wholeAfter_makes soundGiven _ _ _ lexed₂ readWhole
  obtain ⟨good, lexedTarget⟩ := nested _ _ _ _ lexed₃.advance readBody
  refine ⟨⟨_, rfl, rfl, (made.append (.single good)).parts, fun known => ?_⟩, lexedTarget⟩
  exact ⟨made.shaped known, soundWhole known⟩

theorem lambda_makes : Makes scanned (Fresh holds scanned) (lambda expr) := by
  intro source value target lexed run
  rcases lambda_ok.1 run with ⟨kind, -, read⟩ | ⟨-, read⟩
  · obtain ⟨-, body, readBody, rfl⟩ := namedLambda_ok.1 read
    obtain ⟨good, lexedTarget⟩ := nested _ _ _ _ lexed.advance.advance readBody
    refine ⟨⟨_, rfl, rfl, List.forall_mem_singleton.2 good, fun known => ?_⟩, lexedTarget⟩
    have sound := lexed.current known
    rwa [Sign.IsLexed, Token.sign, kind] at sound
  · exact patternLambda_makes nested _ _ _ lexed read

theorem name_makes {source target : Stream} {value : Expr} (lexed : source.Lexed scanned)
    (kind : source.current.kind = .identifier) (run : name expr source = .ok value target) :
    Fresh holds scanned value ∧ target.Lexed scanned := by
  rcases name_ok.1 run with ⟨-, read⟩ | ⟨-, path, read, rfl⟩
  · exact lambda_makes nested _ _ _ lexed read
  · obtain ⟨made, lexedTarget⟩ := attrPath_makes nested _ _ _ lexed read
    refine ⟨⟨_, rfl, rfl, made.parts, fun known => ⟨made.shaped known, ?_⟩⟩, lexedTarget⟩
    exact (attrPath_head lexed known read).1 kind

include after in
theorem braces_makes : Makes scanned (Fresh holds scanned) (braces expr) := by
  intro source value target lexed run
  rcases braces_ok.1 run with ⟨-, read⟩ | ⟨-, read⟩
  · exact lambda_makes nested _ _ _ lexed read
  · exact attrs_makes nested after _ _ _ lexed read

/-! ## Start rules -/

omit nested in
theorem literal_makes : Makes scanned (Fresh holds scanned) literal := by
  intro source value target lexed run
  obtain ⟨form, literal, rfl, rfl⟩ := literal_ok.1 run
  refine ⟨?_, lexed.advance⟩
  unfold Token.literal? at literal
  split at literal
  · next kind =>
      obtain ⟨number, read, rfl⟩ := Option.map_eq_some_iff.1 literal
      refine ⟨_, rfl, rfl, List.forall_mem_nil _, fun known => readInteger_range ?_ read⟩
      have sound := lexed.current known
      rwa [Sign.IsLexed, Token.sign, kind] at sound
  · obtain ⟨number, read, rfl⟩ := Option.map_eq_some_iff.1 literal
    exact ⟨_, rfl, rfl, List.forall_mem_nil _, fun _ => trivial⟩
  · cases literal
    exact ⟨_, rfl, rfl, List.forall_mem_nil _, fun _ => trivial⟩
  · cases literal
    exact ⟨_, rfl, rfl, List.forall_mem_nil _, fun _ => trivial⟩
  · cases literal
    exact ⟨_, rfl, rfl, List.forall_mem_nil _, fun _ => trivial⟩
  · next kind =>
      cases literal
      refine ⟨_, rfl, rfl, List.forall_mem_nil _, fun known => ?_⟩
      have sound := lexed.current known
      rwa [Sign.IsLexed, Token.sign, kind] at sound
  · cases literal

theorem elements_makes :
    Makes scanned (fun found => ∀ value ∈ found, holds value) (many (element expr)) := by
  refine many_makes (List.forall_mem_nil holds)
    (fun _ _ good others => List.forall_mem_cons.2 ⟨good, others⟩) ?_
  intro source found target lexed run
  rcases element_ok.1 run with ⟨-, rfl, rfl⟩ | ⟨-, value, read, rfl⟩
  · exact ⟨nofun, lexed⟩
  · obtain ⟨good, lexed₁⟩ := nested _ _ _ _ lexed read
    refine ⟨?_, lexed₁⟩
    rintro _ ⟨⟩
    exact good

theorem list_makes : Makes scanned (Fresh holds scanned) (list expr) := by
  intro source value target lexed run
  obtain ⟨elements, s₁, inner, s₂, read, took, rfl, rfl⟩ := list_ok.1 run
  obtain ⟨good, lexed₁⟩ := elements_makes nested _ _ _ lexed.advance read
  exact ⟨⟨_, rfl, rfl, good, fun _ => trivial⟩, (takeBefore_makes _ _ _ lexed₁ took).2.advance⟩

theorem unary_makes : Makes scanned (Fresh holds scanned) (unary expr) := by
  intro source value target lexed run
  rcases unary_ok.1 run with ⟨-, operand, read, rfl⟩ | ⟨-, operand, read, rfl⟩
  · obtain ⟨good, lexed₁⟩ := nested _ _ _ _ lexed.advance read
    exact ⟨⟨_, rfl, rfl, List.forall_mem_singleton.2 good, fun _ => trivial⟩, lexed₁⟩
  · obtain ⟨good, lexed₁⟩ := nested _ _ _ _ lexed.advance read
    exact ⟨⟨_, rfl, rfl, List.forall_mem_singleton.2 good, fun _ => trivial⟩, lexed₁⟩

theorem conditional_makes : Makes scanned (Fresh holds scanned) (conditional expr) := by
  intro source value target lexed run
  obtain ⟨condition, s₁, yes, s₂, no, read, -, readYes, -, readNo, rfl⟩ := conditional_ok.1 run
  obtain ⟨good, lexed₁⟩ := nested _ _ _ _ lexed.advance read
  obtain ⟨goodYes, lexed₂⟩ := nested _ _ _ _ lexed₁.advance readYes
  obtain ⟨goodNo, lexed₃⟩ := nested _ _ _ _ lexed₂.advance readNo
  refine ⟨⟨_, rfl, rfl, ?_, fun _ => trivial⟩, lexed₃⟩
  exact List.forall_mem_cons.2 ⟨good, List.forall_mem_cons.2
    ⟨goodYes, List.forall_mem_singleton.2 goodNo⟩⟩

/-- A start rule makes a node of its own, returns what stands in parentheses or
puts a clause in front of an expression. -/
inductive Started (holds : Expr → Prop) (scanned : Prop) : Expr → Prop where
  | fresh {value : Expr} (made : Fresh holds scanned value) : Started holds scanned value
  | group {value : Expr} (good : holds value) : Started holds scanned value
  | clause {body : Expr} (clause : Clause) (good : holds body)
      (goodSubject : holds clause.subject) :
      Started holds scanned (body.addClause clause)

include after in
theorem startRule_makes {rule : StartRule} {source target : Stream} {value : Expr}
    (lexed : source.Lexed scanned)
    (start : Grammar.standardStart source.current.kind = some rule)
    (run : rule.parse expr source = .ok value target) :
    Started holds scanned value ∧ target.Lexed scanned := by
  have fresh {parser : Parser Expr} (makes : Makes scanned (Fresh holds scanned) parser)
      (run : parser source = .ok value target) : Started holds scanned value ∧
        target.Lexed scanned :=
    ⟨.fresh (makes _ _ _ lexed run).1, (makes _ _ _ lexed run).2⟩
  cases rule with
  | literal => exact fresh literal_makes run
  | name =>
      have kind : source.current.kind = .identifier := standardStart_name start
      obtain ⟨made, lexedTarget⟩ := name_makes nested lexed kind run
      exact ⟨.fresh made, lexedTarget⟩
  | string =>
      obtain ⟨indented, parts, read, rfl⟩ := string_ok.1 run
      obtain ⟨made, lexedTarget⟩ := stringLiteral_makes nested _ _ _ lexed read
      exact ⟨.fresh ⟨_, rfl, rfl, made⟩, lexedTarget⟩
  | group =>
      obtain ⟨s₁, read, -, rfl⟩ := group_ok.1 run
      obtain ⟨good, lexed₁⟩ := nested _ _ _ _ lexed.advance read
      exact ⟨.group good, lexed₁.advance⟩
  | list => exact fresh (list_makes nested) run
  | importing =>
      obtain ⟨subject, read, rfl⟩ := importing_ok.1 run
      obtain ⟨good, lexed₁⟩ := nested _ _ _ _ lexed.advance read
      exact ⟨.fresh ⟨_, rfl, rfl, List.forall_mem_singleton.2 good, fun _ => trivial⟩, lexed₁⟩
  | unary => exact fresh (unary_makes nested) run
  | conditional => exact fresh (conditional_makes nested) run
  | clause =>
      obtain ⟨subject, s₁, behind, s₂, body, read, -, claimed, readBody, rfl⟩ := clause_ok.1 run
      obtain ⟨good, lexed₁⟩ := nested _ _ _ _ lexed.advance read
      obtain ⟨-, lexed₂⟩ := takeUnclaimed_makes _ _ _ lexed₁.advance claimed
      obtain ⟨goodBody, lexed₃⟩ := nested _ _ _ _ lexed₂ readBody
      exact ⟨.clause _ goodBody (after _ behind good), lexed₃⟩
  | braces => exact fresh (braces_makes nested after) run
  | recursiveAttrs =>
      obtain ⟨-, read⟩ := recursiveAttrs_ok.1 run
      obtain ⟨made, lexed₁⟩ := attrs_makes nested after _ _ _ lexed.advance read
      exact ⟨.fresh made, lexed₁⟩
  | letIn => exact fresh (letIn_makes nested after) run
  | lambda => exact fresh (lambda_makes nested) run

/-! ## Join rules -/

theorem arguments_makes :
    Makes scanned (fun found => ∀ value ∈ found, holds value) (many (argument expr)) := by
  refine many_makes (List.forall_mem_nil holds)
    (fun _ _ good others => List.forall_mem_cons.2 ⟨good, others⟩) ?_
  intro source found target lexed run
  rcases argument_ok.1 run with ⟨-, value, read, rfl⟩ | ⟨-, rfl, rfl⟩
  · obtain ⟨good, lexed₁⟩ := nested _ _ _ _ lexed read
    refine ⟨?_, lexed₁⟩
    rintro _ ⟨⟩
    exact good
  · exact ⟨nofun, lexed⟩

omit nested in
/-- Where an argument starts, one is read. -/
theorem arguments_ne_nil {source target : Stream} {arguments : List Expr}
    (start : source.current.kind ∈ Kind.argumentStart)
    (run : many (argument expr) source = .ok arguments target) : arguments ≠ [] := by
  obtain ⟨stream, middle, got, repeated⟩ := bind_ok.1 run
  obtain ⟨rfl, rfl⟩ := get_ok.1 got
  rcases manyWithin_cons_ok.1 repeated with ⟨stepped, -⟩ | ⟨item, _, rest, -, -, rfl⟩
  · rcases argument_ok.1 stepped with ⟨-, value, -, ⟨⟩⟩ | ⟨other, -, -⟩
    exact absurd start other
  · exact List.cons_ne_nil item rest

/-- A join rule makes a node of what stood on its left and of expressions of its
own. -/
theorem joinRule_makes {fallback : FallbackLevel} {grammar : Grammar} {rule : JoinRule}
    {left value : Expr} {power : Power} {source target : Stream} (lexed : source.Lexed scanned)
    (joins : Grammar.standardJoin fallback source.current.kind = some (power, rule))
    (run : rule.parse grammar expr left power source = .ok value target) :
    (∃ form others, value = .bare form ∧ form.inside = left :: others ∧
      Made holds scanned others form.WellFormed) ∧ target.Lexed scanned := by
  cases rule with
  | binary =>
      obtain ⟨op, right, -, read, -, rfl⟩ := binary_ok.1 run
      obtain ⟨good, lexed₁⟩ := nested _ _ _ _ lexed.advance read
      exact ⟨⟨_, _, rfl, rfl, .single good⟩, lexed₁⟩
  | hasAttr =>
      obtain ⟨path, read, rfl⟩ := hasAttr_ok.1 run
      obtain ⟨made, lexed₁⟩ := attrPath_makes nested _ _ _ lexed.advance read
      exact ⟨⟨_, _, rfl, rfl, made⟩, lexed₁⟩
  | select =>
      obtain ⟨path, read, rfl⟩ := select_ok.1 run
      obtain ⟨made, lexed₁⟩ := attrPath_makes nested _ _ _ lexed.advance read
      exact ⟨⟨_, _, rfl, rfl, made⟩, lexed₁⟩
  | apply =>
      obtain ⟨arguments, read, rfl⟩ := apply_ok.1 run
      obtain ⟨good, lexed₁⟩ := arguments_makes nested _ _ _ lexed read
      refine ⟨⟨_, _, rfl, rfl, good, fun _ => ?_⟩, lexed₁⟩
      exact arguments_ne_nil (standardJoin_apply joins) read

end Rules

end Parser

end NixSyntax
