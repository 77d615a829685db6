/-
Module: NixSyntax.Proofs.Ground
Purpose: The machine with byte offsets never panics, always comes further and reads what the
  scanner reads.
Main exports: Lexer.At, Lexer.Reads, Lexer.At.step, Lexer.Grounded, Lexer.Sound, lexer_progress
-/
import NixSyntax.Proofs.Lexer

namespace NixSyntax

open Relation (ReflTransGen)

/-- The mode that an enclosure stands for. -/
def Mode.of : Enclosure → Mode
  | .braces => .brace
  | .interpolation => .interpolation
  | .quoted start => .quoted start
  | .indented start => .indented start

/-! ## Slices that exist -/

section Slices

variable {source : String} {place : Nat} {text part back : List Char}

theorem slice_append (front part back : List Char) :
    slice (front ++ (part ++ back)) (utf8Length front) (utf8Length front + utf8Length part) =
      .ok part := by
  rw [slice, slice?_append]

theorem StandsAt.slice (stands : StandsAt source place (part ++ back)) :
    slice source.toList place (place + utf8Length part) = .ok part := by
  obtain ⟨front, split, rfl⟩ := stands
  rw [split, slice_append]

theorem StandsAt.slice_rest (stands : StandsAt source place text) :
    NixSyntax.slice source.toList place source.utf8ByteSize = .ok text := by
  obtain ⟨front, split, rfl⟩ := stands
  rw [NixSyntax.slice, split, slice?_rest front text (by rw [← split, utf8Length_toList])]

theorem StandsAt.behind (stands : StandsAt source place (part ++ back)) :
    StandsAt source (place + utf8Length part) back := by
  obtain ⟨front, split, rfl⟩ := stands
  exact ⟨front ++ part, by rw [split, List.append_assoc], utf8Length_append ..⟩

theorem StandsAt.further {start offset : Nat} (front : List Char)
    (stands : StandsAt source (start + offset) (front ++ back)) :
    StandsAt source (start + (offset + utf8Length front)) back := by
  rw [← Nat.add_assoc]
  exact stands.behind

end Slices

namespace Lexer

variable {source : String} {lexer : Lexer} {opened : List Enclosure}
  {text raw behind : List Char} {piece : Piece}

/-- The machine stands in front of the text, with the enclosures open. -/
structure At (source : String) (lexer : Lexer) (opened : List Enclosure) (text : List Char) :
    Prop where
  stands : StandsAt source lexer.pos text
  modes : lexer.modes = opened.map Mode.of ++ [.code]

/-- Behind a piece. -/
def after (lexer : Lexer) (opened : List Enclosure) (piece : Piece) : Lexer where
  pos := lexer.pos + utf8Length piece.raw
  modes := (piece.opens opened lexer.pos).map Mode.of ++ [.code]
  pieces := lexer.pieces ++ [piece]

theorem At.after (here : lexer.At source opened (piece.raw ++ behind)) :
    (lexer.after opened piece).At source (piece.opens opened lexer.pos) behind :=
  ⟨here.stands.behind, rfl⟩

theorem At.remainder (here : lexer.At source opened text) :
    lexer.remainder source = .ok text :=
  here.stands.slice_rest

theorem emit_standsAt (stands : StandsAt source lexer.pos (raw ++ behind)) (kind : Kind)
    (value : List Char) : lexer.emit source kind value (utf8Length raw) =
      .ok (lexer.push (.lexeme { kind, value, raw }) (utf8Length raw)) := by
  rw [emit, stands.slice]
  rfl

theorem At.push (here : lexer.At source opened text) {len : Nat}
    (width : utf8Length piece.raw = len) (same : piece.opens opened lexer.pos = opened) :
    lexer.push piece len = lexer.after opened piece := by
  rw [Lexer.push, Lexer.after, same, here.modes, width]

/-! ## Handlers -/

theorem At.blank (here : lexer.At source opened (raw ++ behind)) :
    blank source lexer (utf8Length raw) = .ok (lexer.after opened (.trivium (.blank raw))) := by
  have front := slice_append [] raw behind
  rw [List.nil_append, utf8Length_nil, Nat.zero_add] at front
  rw [Lexer.blank, here.remainder]
  simp only [bind, Except.bind, front]
  exact congrArg Except.ok (here.push rfl rfl)

theorem At.lineComment (here : lexer.At source opened ('#' :: (raw ++ behind))) :
    lineComment source lexer (utf8Length ('#' :: raw)) =
      .ok (lexer.after opened
        (.trivium (.comment { style := .line, text := String.ofList raw }))) := by
  have body : slice ('#' :: (raw ++ behind)) 1 (utf8Length ('#' :: raw)) = .ok raw :=
    slice_append ['#'] raw behind
  rw [Lexer.lineComment, here.remainder]
  simp only [bind, Except.bind, body]
  refine congrArg Except.ok (here.push ?_ rfl)
  simp [Piece.raw, Trivium.raw, Comment.source]

theorem At.blockComment (here : lexer.At source opened ('/' :: '*' :: text)) (len : Nat) :
    blockComment source lexer len =
      match blockCommentBody? text with
      | none => .error (.fault .openComment lexer.pos)
      | some body => .ok (lexer.after opened
          (.trivium (.comment { style := .block, text := String.ofList body }))) := by
  have start : utf8Length ['/', '*'] = 2 := rfl
  have ahead : slice ('/' :: '*' :: text) 2 (utf8Length ('/' :: '*' :: text)) = .ok text := by
    have rest := slice_append ['/', '*'] text []
    rwa [List.append_nil, ← utf8Length_append, start] at rest
  rw [Lexer.blockComment, here.remainder]
  simp only [bind, Except.bind, ahead, find?_close]
  cases found : blockCommentBody? text with
  | none => rfl
  | some body =>
      obtain ⟨⟨rest, rfl⟩, -⟩ := blockCommentBody?_some found
      have inner : slice ('/' :: '*' :: (body ++ '*' :: '/' :: rest)) 2 (utf8Length body + 2) =
          .ok body := by
        rw [Nat.add_comm]
        exact slice_append ['/', '*'] body ('*' :: '/' :: rest)
      simp only [Option.map_some, inner]
      refine congrArg Except.ok (here.push ?_ rfl)
      have close : utf8Length ['*', '/'] = 2 := rfl
      have raw : Piece.raw (.trivium (.comment { style := .block, text := String.ofList body })) =
          ['/', '*'] ++ (body ++ ['*', '/']) := by
        simp [Piece.raw, Trivium.raw, Comment.source]
      rw [raw, utf8Length_append, utf8Length_append, start, close]
      omega

/-- A kind that neither opens nor closes anything. -/
def flat (kind : Kind) : Prop :=
  ∀ opened offset, Enclosure.next opened offset kind = opened

theorem At.classed (here : lexer.At source opened (raw ++ behind)) {kind : List Char → Kind}
    (same : flat (kind raw)) : classed source kind lexer (utf8Length raw) =
      .ok (lexer.after opened (.lexeme (.plain (kind raw) raw))) := by
  have front := slice_append [] raw behind
  rw [List.nil_append, utf8Length_nil, Nat.zero_add] at front
  rw [Lexer.classed, here.remainder]
  simp only [bind, Except.bind, front, emit_standsAt here.stands]
  exact congrArg Except.ok (here.push rfl (same _ _))

theorem emitPlain_standsAt {kind : Kind}
    (stands : StandsAt source lexer.pos (kind.spelling.toList ++ behind)) :
    lexer.emitPlain source kind (utf8Length kind.spelling.toList) =
      .ok (lexer.push (.lexeme (.plain kind kind.spelling.toList))
        (utf8Length kind.spelling.toList)) :=
  emit_standsAt stands kind kind.spelling.toList

theorem At.opening {kind : Kind} {enclosure : Enclosure}
    (here : lexer.At source opened (kind.spelling.toList ++ behind)) (mode : Nat → Mode)
    (opens : Enclosure.next opened lexer.pos kind = enclosure :: opened)
    (same : mode lexer.pos = .of enclosure) :
    opening source kind mode lexer (utf8Length kind.spelling.toList) =
      .ok (lexer.after opened (.lexeme (.plain kind kind.spelling.toList))) := by
  rw [Lexer.opening, emitPlain_standsAt here.stands]
  refine congrArg Except.ok ?_
  rw [Lexer.after, Piece.opens, Lexeme.plain, opens, List.map_cons, List.cons_append, ← same,
    ← here.modes]
  rfl

theorem At.mode (here : lexer.At source opened text) :
    lexer.mode = (opened.head?.map Mode.of).getD .code := by
  rw [Lexer.mode, here.modes]
  cases opened <;> rfl

theorem At.closing (here : lexer.At source opened (Kind.curlyClose.spelling.toList ++ behind)) :
    closing source lexer (utf8Length Kind.curlyClose.spelling.toList) =
      .ok (lexer.after opened
        (.lexeme (.plain (closingKind opened .curlyClose) Kind.curlyClose.spelling.toList))) := by
  have closes : (if lexer.mode = .interpolation then Kind.interpClose else .curlyClose) =
      closingKind opened .curlyClose := by
    rw [here.mode, closingKind]
    cases opened with
    | nil => rfl
    | cons top rest => cases top <;> rfl
  have spelling : (closingKind opened .curlyClose).spelling = Kind.curlyClose.spelling := by
    unfold closingKind
    split <;> rfl
  have leaves : Enclosure.next opened lexer.pos (closingKind opened .curlyClose) = opened.tail := by
    unfold closingKind
    split <;> rfl
  have outside : (if 1 < lexer.modes.length then lexer.leave else lexer) =
      { lexer with modes := opened.tail.map Mode.of ++ [.code] } := by
    have modes := here.modes
    cases opened with
    | nil =>
        rw [if_neg (by simp [modes])]
        exact congrArg (fun modes => { lexer with modes }) modes
    | cons top rest =>
        rw [if_pos (by simp [modes]), Lexer.leave, modes]
        rfl
  rw [Lexer.closing, closes, outside, ← spelling]
  rw [← spelling] at here
  have stands : StandsAt source
      ({ lexer with modes := opened.tail.map Mode.of ++ [.code] } : Lexer).pos _ := here.stands
  rw [emitPlain_standsAt stands, Lexer.after, Piece.opens, Lexeme.plain, leaves]
  rfl

theorem At.plain {kind : Kind} (here : lexer.At source opened (kind.spelling.toList ++ behind))
    (same : flat kind) : lexer.emitPlain source kind (utf8Length kind.spelling.toList) =
      .ok (lexer.after opened (.lexeme (.plain kind kind.spelling.toList))) := by
  rw [emitPlain_standsAt here.stands]
  exact congrArg Except.ok (here.push rfl (same _ _))

theorem At.symbol {kind : Kind} (listed : kind ∈ Kind.symbols)
    (here : lexer.At source opened (kind.spelling.toList ++ behind)) :
    symbol source kind lexer (utf8Length kind.spelling.toList) =
      .ok (lexer.after opened
        (.lexeme (.plain (closingKind opened kind) kind.spelling.toList))) := by
  by_cases closes : kind = .curlyClose
  · subst closes
    exact here.closing
  · rw [closingKind, if_neg fun both => closes both.1]
    cases kind with
    | interpOpen => exact here.opening (fun _ => .interpolation) rfl rfl
    | indentOpen => exact here.opening .indented rfl rfl
    | quoteOpen => exact here.opening .quoted rfl rfl
    | curlyOpen => exact here.opening (fun _ => .brace) rfl rfl
    | curlyClose => exact absurd rfl closes
    | interpClose | quoteClose | indentClose => exact absurd listed (by decide)
    | _ => exact here.plain fun _ _ => rfl

/-! ## Code -/

/-- What the machine makes of a piece that the scanner reads in code. -/
def outcome (lexer : Lexer) (opened : List Enclosure) : Except Cause Piece → Except Halt Lexer
  | .ok piece => .ok (lexer.after opened piece)
  | .error cause => .error (.fault cause lexer.pos)

variable {pattern : Pattern} {others : List Pattern} {width : List Char → Nat} {handler : Handler}

theorem At.tryPatterns_none (here : lexer.At source opened text)
    (missing : pattern.find? text = none) :
    lexer.tryPatterns source (pattern :: others) = lexer.tryPatterns source others := by
  rw [tryPatterns, here.remainder]
  simp only [bind, Except.bind, missing]

theorem At.tryPatterns_some (here : lexer.At source opened text) {len : Nat}
    (found : pattern.find? text = some len) :
    lexer.tryPatterns source (pattern :: others) = pattern.handler lexer len := by
  rw [tryPatterns, here.remainder]
  simp only [bind, Except.bind, found]

/-- The pattern of a recogniser is tried as the scanner tries the recogniser. -/
theorem At.tryPatterns_ofWidth (here : lexer.At source opened text) :
    lexer.tryPatterns source (.ofWidth width handler :: others) =
      if 0 < width text then handler lexer (utf8Length (text.take (width text)))
      else lexer.tryPatterns source others := by
  split
  · next positive => exact here.tryPatterns_some (if_pos positive)
  · next zero => exact here.tryPatterns_none (if_neg zero)

theorem At.tryPatterns_symbols (here : lexer.At source opened text) {kinds : List Kind}
    (listed : kinds ⊆ Kind.symbols) :
    lexer.tryPatterns source
        (kinds.map fun kind => .ofSpelling kind.spelling.toList (Lexer.symbol source kind)) =
      lexer.outcome opened
        (match kinds.find? fun kind => kind.spelling.toList.isPrefixOf text with
        | some kind => .ok (.lexeme (.plain (closingKind opened kind) kind.spelling.toList))
        | none => .error (.unrecognised (String.ofList (text.take 1)))) := by
  induction kinds with
  | nil =>
      rw [List.map_nil, tryPatterns, here.remainder]
      rfl
  | cons kind kinds ih =>
      rw [List.cons_subset] at listed
      rw [List.map_cons, List.find?_cons]
      cases front : kind.spelling.toList.isPrefixOf text with
      | false =>
          have missing : (Pattern.ofSpelling kind.spelling.toList (Lexer.symbol source kind)).find?
              text = none := if_neg (Bool.eq_false_iff.1 front)
          rw [here.tryPatterns_none missing, ih listed.2]
      | true =>
          obtain ⟨behind, rfl⟩ := List.isPrefixOf_iff_prefix.1 front
          rw [here.tryPatterns_some (if_pos front)]
          exact here.symbol listed.1

/-- The classes with a recogniser of their own stand in front of the text that it
tells. -/
theorem At.classed_take (here : lexer.At source opened text) {width : Nat}
    (kind : List Char → Kind) (same : flat (kind (text.take width))) :
    Lexer.classed source kind lexer (utf8Length (text.take width)) =
      .ok (lexer.after opened (.lexeme (.plain (kind (text.take width)) (text.take width)))) := by
  rw [← List.take_append_drop width text] at here
  exact here.classed same

theorem flat_ofWord (word : String) : flat (.ofWord word) := by
  have words : ∀ kind ∈ Kind.identifier :: Kind.reserved, flat kind := by
    intro kind listed
    simp only [Kind.reserved, List.mem_cons, List.not_mem_nil, or_false] at listed
    rcases listed with rfl | rfl | rfl | rfl | rfl | rfl | rfl | rfl | rfl | rfl | rfl | rfl |
      rfl | rfl | rfl <;> exact fun _ _ => rfl
  exact words _ (List.mem_cons.2 (ofWord_kind word))

theorem At.lexeme (here : lexer.At source opened text) :
    lexer.tryPatterns source (lexemePatterns source) =
      lexer.outcome opened ((readLexeme opened text).map .lexeme) := by
  simp only [lexemePatterns, List.cons_append, List.nil_append, here.tryPatterns_ofWidth,
    readLexeme, Kind.symbolAt]
  split
  · exact here.classed_take (fun _ => .path) fun _ _ => rfl
  split
  · exact here.classed_take (fun _ => .float) fun _ _ => rfl
  split
  · exact here.classed_take (fun _ => .int) fun _ _ => rfl
  split
  · exact here.classed_take (fun word => .ofWord (String.ofList word)) (flat_ofWord _)
  rw [here.tryPatterns_symbols fun _ listed => listed]
  congr 1
  cases Kind.symbols.find? fun kind => kind.spelling.toList.isPrefixOf text <;> rfl

theorem At.solid (here : lexer.At source opened text) :
    lexer.tryPatterns source (.ofWidth lineCommentWidth (Lexer.lineComment source) ::
        .ofSpelling ['/', '*'] (Lexer.blockComment source) :: lexemePatterns source) =
      lexer.outcome opened (readSolid opened text) := by
  unfold readSolid
  split
  · next rest =>
      rw [here.tryPatterns_ofWidth, lineCommentWidth, if_pos (by omega)]
      have body : ('#' :: rest).take (1 + (lineCommentBody rest).length) =
          '#' :: lineCommentBody rest := by
        rw [Nat.add_comm, List.take_succ_cons]
        exact congrArg _ (List.prefix_iff_eq_take.1 (List.takeWhile_prefix _)).symm
      rw [body]
      obtain ⟨behind, split⟩ := List.takeWhile_prefix (fun c => c != '\r' && c != '\n') (l := rest)
      have ahead : lexer.At source opened ('#' :: (lineCommentBody rest ++ behind)) :=
        split.symm ▸ here
      exact ahead.lineComment
  · next rest =>
      have starts : (Pattern.ofSpelling ['/', '*'] (Lexer.blockComment source)).find?
          ('/' :: '*' :: rest) = some 2 := rfl
      have noLine : lineCommentWidth ('/' :: '*' :: rest) = 0 := rfl
      rw [here.tryPatterns_ofWidth, noLine, if_neg (Nat.lt_irrefl 0),
        here.tryPatterns_some starts]
      refine (here.blockComment 2).trans ?_
      cases blockCommentBody? rest <;> rfl
  · next noLine noBlock =>
      have line : lineCommentWidth text = 0 := by
        unfold lineCommentWidth
        split
        · next rest => exact absurd rfl (noLine rest)
        · rfl
      rw [here.tryPatterns_ofWidth, line, if_neg (Nat.lt_irrefl 0), here.tryPatterns_none,
        here.lexeme]
      refine if_neg ?_
      rw [List.isPrefixOf_iff_prefix]
      rintro ⟨rest, same⟩
      exact noBlock rest same.symm

/-- In code the machine reads what the scanner reads. -/
theorem At.lexCode (here : lexer.At source opened text) :
    lexer.lexCode source = lexer.outcome opened (readCode opened text) := by
  obtain ⟨behind, split⟩ := List.takeWhile_prefix isBlank (l := text)
  rw [Lexer.lexCode, patterns, List.cons_append, here.tryPatterns_ofWidth, blankWidth,
    ← List.prefix_iff_eq_take.1 ⟨behind, split⟩]
  unfold readCode
  split
  · next some =>
      have ahead : lexer.At source opened (text.takeWhile isBlank ++ behind) := split.symm ▸ here
      rw [ahead.blank]
      split
      · next none => simp [none] at some
      · rfl
  · next none =>
      rw [List.length_pos_iff, not_not] at none
      rw [none]
      exact here.solid

/-! ## Strings -/

/-- The delimiter at the front of a text. -/
def delimiterAt (close : Kind) (text : List Char) : Kind :=
  if text.head? = some '$' then .interpOpen else close

/-- What the machine decodes of `chars`, given what the scanner reads there and
what has been decoded already. -/
inductive Decoded (close : Kind) (offset : Nat) (value chars : List Char) :
    Option (List Char × Nat) → List Char × Option Delimiter → Prop where
  | endless {decoded : List Char} : Decoded close offset value chars none (decoded, none)
  | whole {more : List Char} {width : Nat} :
      Decoded close offset value chars (some (more, width))
        (value ++ more,
          some
            { offset := offset + utf8Length (chars.take width)
              kind := delimiterAt close (chars.drop width)
              len := utf8Length (delimiterAt close (chars.drop width)).spelling.toList })

theorem Decoded.step {close : Kind} {offset : Nat} {value more front rest : List Char}
    {literal : Option (List Char × Nat)} {result : List Char × Option Delimiter}
    (decoded : Decoded close (offset + utf8Length front) (value ++ more) rest literal result) :
    Decoded close offset value (front ++ rest) (literal.map (consText more front.length)) result := by
  cases decoded with
  | endless => exact .endless
  | @whole further width =>
      have whole : Decoded close offset value (front ++ rest)
          (some (more ++ further, front.length + width)) _ := .whole
      rwa [List.take_length_add_append, List.drop_length_add_append, utf8Length_append,
        ← Nat.add_assoc, ← List.append_assoc] at whole

theorem Decoded.here {close : Kind} {offset : Nat} {value chars : List Char} {kind : Kind}
    (same : delimiterAt close chars = kind) :
    Decoded close offset value chars (some ([], 0))
      (value, some { offset, kind, len := utf8Length kind.spelling.toList }) := by
  have whole : Decoded close offset value chars (some ([], 0)) _ := .whole
  rwa [List.append_nil, List.take_zero, List.drop_zero, same, utf8Length_nil, Nat.add_zero]
    at whole

theorem isPrefixOf_eq_false {word : List Char} (other : ∀ rest, text ≠ word ++ rest) :
    word.isPrefixOf text = false := by
  rw [Bool.eq_false_iff, Ne, List.isPrefixOf_iff_prefix]
  rintro ⟨rest, same⟩
  exact other rest same.symm

theorem literal_nil (indented : Bool) (start offset : Nat) (value : List Char) :
    literal source indented start offset value [] = .ok (value, none) := by
  rw [literal]
  rfl

theorem literal_quoted {start : Nat} (offset : Nat) (value chars : List Char)
    (stands : StandsAt source (start + offset) chars) :
    ∃ result, literal source false start offset value chars = .ok result ∧
      Decoded .quoteClose offset value chars (quotedText chars) result := by
  fun_induction quotedText chars generalizing offset value with
  | case1 => exact ⟨_, literal_nil false start offset value, .endless⟩
  | case2 rest =>
      rw [literal, stands.slice_rest]
      exact ⟨_, rfl, .here rfl⟩
  | case3 rest =>
      rw [literal, stands.slice_rest]
      exact ⟨_, rfl, .here rfl⟩
  | case4 rest ih =>
      rw [literal, stands.slice_rest]
      obtain ⟨result, run, decoded⟩ := ih _ _ (stands.further ['$', '$'])
      exact ⟨result, run, decoded.step⟩
  | case5 c rest ih =>
      rw [literal, stands.slice_rest]
      obtain ⟨result, run, decoded⟩ := ih _ _ (stands.further ['\\', c])
      exact ⟨result, run, decoded.step⟩
  | case6 c rest quote opens dollars escape ih =>
      obtain ⟨result, run, decoded⟩ := ih _ (value ++ [c]) (stands.further [c])
      have noQuote : (c == '"') = false := beq_eq_false_iff_ne.2 quote
      have noOpening : ['$', '{'].isPrefixOf (c :: rest) = false :=
        isPrefixOf_eq_false fun tail same => by cases same; exact opens tail rfl rfl
      have noDollars : ['$', '$'].isPrefixOf (c :: rest) = false :=
        isPrefixOf_eq_false fun tail same => by cases same; exact dollars tail rfl rfl
      rw [literal, stands.slice_rest]
      simp only [bind, Except.bind, noQuote, noOpening, noDollars, Bool.and_false,
        Bool.false_and, Bool.false_eq_true, if_false]
      split
      · next slash =>
          -- A backslash at the end of the source escapes nothing.
          cases rest with
          | nil => exact ⟨_, literal_nil .., .endless⟩
          | cons d rest => exact absurd rfl (escape d rest (by simpa using slash))
      · exact ⟨result, run, decoded.step⟩

theorem literal_indented {start : Nat} (offset : Nat) (value chars : List Char)
    (stands : StandsAt source (start + offset) chars) :
    ∃ result, literal source true start offset value chars = .ok result ∧
      Decoded .indentClose offset value chars (indentedText chars) result := by
  fun_induction indentedText chars generalizing offset value with
  | case1 => exact ⟨_, literal_nil true start offset value, .endless⟩
  | case2 rest ih =>
      rw [literal, stands.slice_rest]
      obtain ⟨result, run, decoded⟩ := ih _ _ (stands.further ['\'', '\'', '\''])
      exact ⟨result, run, decoded.step⟩
  | case3 rest ih =>
      rw [literal, stands.slice_rest]
      obtain ⟨result, run, decoded⟩ := ih _ _ (stands.further ['\'', '\'', '$'])
      exact ⟨result, run, decoded.step⟩
  | case4 c rest ih =>
      rw [literal, stands.slice_rest]
      obtain ⟨result, run, decoded⟩ := ih _ _ (stands.further ['\'', '\'', '\\', c])
      exact ⟨result, run, decoded.step⟩
  | case5 =>
      rw [literal, stands.slice_rest]
      exact ⟨_, literal_nil .., .endless⟩
  | case6 rest quote dollar escape ends =>
      have noQuote : ['\'', '\'', '\''].isPrefixOf ('\'' :: '\'' :: rest) = false :=
        isPrefixOf_eq_false fun tail same => by cases same; exact quote tail rfl
      have noDollar : ['\'', '\'', '$'].isPrefixOf ('\'' :: '\'' :: rest) = false :=
        isPrefixOf_eq_false fun tail same => by cases same; exact dollar tail rfl
      have noEscape : ['\'', '\'', '\\'].isPrefixOf ('\'' :: '\'' :: rest) = false := by
        refine isPrefixOf_eq_false fun tail same => ?_
        cases same
        cases tail with
        | nil => exact ends rfl
        | cons c tail => exact escape c tail rfl
      have closes : ['\'', '\''].isPrefixOf ('\'' :: '\'' :: rest) = true := rfl
      rw [literal, stands.slice_rest]
      simp only [bind, Except.bind, noQuote, noDollar, noEscape, closes, Bool.not_true,
        Bool.false_and, Bool.and_true, Bool.false_eq_true, if_false, if_true]
      exact ⟨_, rfl, .here rfl⟩
  | case7 rest =>
      rw [literal, stands.slice_rest]
      exact ⟨_, rfl, .here rfl⟩
  | case8 rest ih =>
      rw [literal, stands.slice_rest]
      obtain ⟨result, run, decoded⟩ := ih _ _ (stands.further ['$', '$'])
      exact ⟨result, run, decoded.step⟩
  | case9 c rest _ _ _ _ quotes opens dollars ih =>
      obtain ⟨result, run, decoded⟩ := ih _ (value ++ [c]) (stands.further [c])
      have noQuotes : ['\'', '\''].isPrefixOf (c :: rest) = false :=
        isPrefixOf_eq_false fun tail same => by cases same; exact quotes tail rfl rfl
      have noOpening : ['$', '{'].isPrefixOf (c :: rest) = false :=
        isPrefixOf_eq_false fun tail same => by cases same; exact opens tail rfl rfl
      have noDollars : ['$', '$'].isPrefixOf (c :: rest) = false :=
        isPrefixOf_eq_false fun tail same => by cases same; exact dollars tail rfl rfl
      rw [literal, stands.slice_rest]
      simp only [bind, Except.bind, noQuotes, noOpening, noDollars, Bool.not_true,
        Bool.false_and, Bool.and_false, Bool.false_eq_true, if_false]
      exact ⟨result, run, decoded.step⟩

/-- What the machine and the scanner have in common in a string of either kind. -/
structure InString (opened : List Enclosure) (indented : Bool) (close : Kind) : Prop where
  present : opened ≠ []
  reads (text : List Char) :
    readPiece opened text = stringPiece (literalText? opened text) close text
  decodes (source : String) (start : Nat) (chars : List Char) (stands : StandsAt source start chars) :
    ∃ result, literal source indented start 0 [] chars = .ok result ∧
      Decoded close 0 [] chars (literalText? opened chars) result
  endless : literalText? opened [] = none
  closes : close = .quoteClose ∨ close = .indentClose

theorem inString_quoted (start : Nat) (outer : List Enclosure) :
    InString (.quoted start :: outer) false .quoteClose where
  present := List.cons_ne_nil _ _
  reads _ := rfl
  decodes _ _ chars stands := literal_quoted 0 [] chars stands
  endless := rfl
  closes := .inl rfl

theorem inString_indented (start : Nat) (outer : List Enclosure) :
    InString (.indented start :: outer) true .indentClose where
  present := List.cons_ne_nil _ _
  reads _ := rfl
  decodes _ _ chars stands := literal_indented 0 [] chars stands
  endless := rfl
  closes := .inr rfl

variable {indented : Bool} {close : Kind}

/-- A delimiter in front of which there is no literal text left. -/
theorem InString.delimiter (string : InString opened indented close)
    (here : lexer.At source opened text) (bare : literalText? opened text = some ([], 0))
    (offset : Nat) :
    readPiece opened text =
        .ok (.lexeme (.plain (delimiterAt close text) (delimiterAt close text).spelling.toList)) ∧
      lexer.lexDelimiter source
          { offset, kind := delimiterAt close text
            len := utf8Length (delimiterAt close text).spelling.toList } =
        .ok (lexer.after opened
          (.lexeme (.plain (delimiterAt close text) (delimiterAt close text).spelling.toList))) := by
  have read : readPiece opened text = .ok
      (.lexeme (.plain (delimiterAt close text) (delimiterAt close text).spelling.toList)) := by
    rw [string.reads, bare]
    rfl
  have present : text ≠ [] := by
    rintro rfl
    cases string.endless.symm.trans bare
  obtain ⟨behind, shape, -⟩ := readPiece_starts present read
  refine ⟨read, ?_⟩
  have either : delimiterAt close text = .interpOpen ∨ delimiterAt close text = close := by
    unfold delimiterAt
    split
    · exact .inl rfl
    · exact .inr rfl
  generalize delimiterAt close text = kind at shape read either
  change text = kind.spelling.toList ++ behind at shape
  rw [shape] at here
  rcases either with rfl | rfl
  · exact here.opening (fun _ => .interpolation) rfl rfl
  · have other : kind ≠ .interpOpen := by
      rcases string.closes with rfl | rfl <;> decide
    have leaves : Enclosure.next opened lexer.pos kind = opened.tail := by
      rcases string.closes with rfl | rfl <;> rfl
    rw [lexDelimiter, if_neg other, here.stands.slice]
    simp only [bind, Except.bind, emit_standsAt here.stands]
    rw [after, Piece.opens, Lexeme.plain, leaves, List.map_tail,
      ← List.tail_append_of_ne_nil (by simpa using string.present), ← here.modes]
    rfl

/-! ## Rounds -/

/-- What a round of the machine comes to, by what the scanner makes of the same
text. -/
inductive Reads (source : String) (lexer : Lexer) (opened : List Enclosure) (text : List Char) :
    Except Halt Lexer → Prop where
  | refused {cause : Cause} {place : Nat}
      (scanned : scan opened lexer.pos text = .error (cause, place)) :
      Reads source lexer opened text (.error (.fault cause place))
  | read {target : Lexer} {opened' : List Enclosure} {behind : List Char} {pieces : List Piece}
      (there : target.At source opened' behind) (further : lexer.pos < target.pos)
      (taken : target.pieces = lexer.pieces ++ pieces)
      (scanned : scan opened lexer.pos text =
        (scan opened' target.pos behind).map (pieces ++ ·)) :
      Reads source lexer opened text (.ok target)

/-- The scanner refuses what it cannot read. -/
theorem Reads.of_error {cause : Cause} (present : text ≠ [])
    (unread : readPiece opened text = .error cause) :
    Reads source lexer opened text (.error (.fault cause (faultOffset opened lexer.pos))) := by
  obtain ⟨c, rest, rfl⟩ := List.exists_cons_of_ne_nil present
  refine .refused ?_
  rw [scan.eq_def]
  simp only [unread]

/-- A round that has read a piece. -/
theorem Reads.after (here : lexer.At source opened text) (present : text ≠ [])
    (read : readPiece opened text = .ok piece) :
    Reads source lexer opened text (.ok (lexer.after opened piece)) := by
  obtain ⟨behind, rfl, complete⟩ := readPiece_starts present read
  refine .read here.after ?_ rfl ?_
  · have least := length_le_utf8Length piece.raw
    have some := List.length_pos_iff.2 complete.raw_ne_nil
    show lexer.pos < lexer.pos + utf8Length piece.raw
    omega
  · exact scan_read complete.raw_ne_nil read

/-- A round that has read a piece and goes on behind it. -/
theorem Reads.cons {result : Except Halt Lexer} (present : piece.raw ≠ [])
    (read : readPiece opened (piece.raw ++ behind) = .ok piece)
    (later : Reads source (lexer.after opened piece) (piece.opens opened lexer.pos) behind result) :
    Reads source lexer opened (piece.raw ++ behind) result := by
  have first : scan opened lexer.pos (piece.raw ++ behind) =
      (scan (piece.opens opened lexer.pos) (lexer.after opened piece).pos behind).map
        (piece :: ·) := scan_read present read
  cases later with
  | refused scanned =>
      refine .refused ?_
      rw [first, scanned]
      rfl
  | @read target opened' behind' pieces there further taken scanned =>
      have all : target.pieces = lexer.pieces ++ (piece :: pieces) := by
        rw [taken, Lexer.after, List.append_assoc]
        rfl
      refine .read there (Nat.lt_of_le_of_lt (Nat.le_add_right _ _) further) all ?_
      rw [first, scanned]
      cases scan opened' target.pos behind' <;> rfl

/-- Literal text of a string as a piece. -/
def fragment (value raw : List Char) : Piece :=
  .lexeme { kind := .fragment, value, raw }

/-- The source ends in a string. -/
theorem InString.readsNothing (string : InString opened indented close)
    (here : lexer.At source opened text) (present : text ≠ [])
    (endless : literalText? opened text = none) :
    Reads source lexer opened text
      (.error (.fault .openString (lexer.mode.stringStart?.getD lexer.pos))) := by
  have unread : readPiece opened text = .error .openString := by
    rw [string.reads, endless]
    rfl
  have place : lexer.mode.stringStart?.getD lexer.pos = faultOffset opened lexer.pos := by
    rw [here.mode, faultOffset]
    cases opened with
    | nil => rfl
    | cons top outer => cases top <;> rfl
  rw [place]
  exact .of_error present unread

/-- Literal text is read together with the delimiter behind it. -/
theorem InString.readsBoth (string : InString opened indented close) {value : List Char}
    (here : lexer.At source opened (raw ++ behind)) (solid : 0 < raw.length)
    (read : literalText? opened (raw ++ behind) = some (value, raw.length))
    (bare : literalText? opened behind = some ([], 0)) (left : behind ≠ []) :
    Reads source lexer opened (raw ++ behind)
      (lexer.emit source .fragment value (utf8Length raw) >>= fun next =>
        next.lexDelimiter source
          { offset := utf8Length raw
            kind := delimiterAt close behind
            len := utf8Length (delimiterAt close behind).spelling.toList }) := by
  have first : readPiece opened (raw ++ behind) = .ok (fragment value raw) := by
    rw [string.reads, read, stringPiece, if_pos solid, List.take_left]
    rfl
  have emitted : lexer.emit source .fragment value (utf8Length raw) =
      .ok (lexer.after opened (fragment value raw)) := by
    rw [emit_standsAt here.stands]
    exact congrArg Except.ok (At.push here rfl rfl)
  have there : (lexer.after opened (fragment value raw)).At source opened behind := here.after
  obtain ⟨second, delimited⟩ := string.delimiter there bare (utf8Length raw)
  rw [emitted]
  simp only [bind, Except.bind, delimited]
  have present : (fragment value raw).raw ≠ [] := List.length_pos_iff.1 solid
  exact .cons present first (.after there left second)

theorem InString.lexString (string : InString opened indented close)
    (here : lexer.At source opened text) (present : text ≠ []) :
    Reads source lexer opened text (lexer.lexString source indented) := by
  obtain ⟨result, run, decoded⟩ := string.decodes source lexer.pos text here.stands
  rw [Lexer.lexString, here.remainder]
  simp only [bind, Except.bind, run]
  cases read : literalText? opened text with
  | none =>
      rw [read] at decoded
      cases decoded with
      | endless => exact string.readsNothing here present read
  | some found =>
      obtain ⟨value, width⟩ := found
      rw [read] at decoded
      obtain ⟨bare, -⟩ := literalText?_whole read
      have left : text.drop width ≠ [] := by
        intro none
        rw [none, string.endless] at bare
        cases bare
      have inside : (text.take width).length = width := by
        rw [Ne, List.drop_eq_nil_iff, Nat.not_le] at left
        rw [List.length_take, Nat.min_eq_left left.le]
      cases decoded with
      | whole =>
          rw [List.nil_append, Nat.zero_add]
          dsimp only
          rcases Nat.eq_zero_or_pos width with rfl | positive
          · rw [List.drop_zero] at bare ⊢
            obtain ⟨first, lexed⟩ := string.delimiter here bare _
            rw [List.take_zero, utf8Length_nil, if_neg (Nat.lt_irrefl 0), lexed]
            exact .after here present first
          · have least := length_le_utf8Length (text.take width)
            rw [if_pos (by omega)]
            have whole := List.take_append_drop width text
            rw [← whole] at here
            have both := string.readsBoth here (by omega) (by rw [whole, inside, read])
              bare left
            rwa [whole] at both

theorem At.readsCode (here : lexer.At source opened text) (present : text ≠ [])
    (code : InCode opened) : Reads source lexer opened text (lexer.lexCode source) := by
  rw [here.lexCode]
  cases read : readCode opened text with
  | ok piece => exact .after here present ((readPiece_code code text).trans read)
  | error cause =>
      have place : faultOffset opened lexer.pos = lexer.pos := by
        unfold faultOffset
        cases top : opened.head? with
        | none => rfl
        | some enclosure => simp [code enclosure top]
      have refused : Reads source lexer opened text
          (.error (.fault cause (faultOffset opened lexer.pos))) :=
        .of_error present ((readPiece_code code text).trans read)
      rwa [place] at refused

/-- A round of the machine reads what the scanner reads. -/
theorem At.step (here : lexer.At source opened text) (present : text ≠ []) :
    Reads source lexer opened text (lexer.step source) := by
  rw [Lexer.step, here.mode]
  cases opened with
  | nil => exact here.readsCode present nofun
  | cons top outer =>
      cases top with
      | quoted start => exact (inString_quoted start outer).lexString here present
      | indented start => exact (inString_indented start outer).lexString here present
      | braces => exact here.readsCode present (by rintro _ ⟨⟩; rfl)
      | interpolation => exact here.readsCode present (by rintro _ ⟨⟩; rfl)

/-! ## Runs -/

/-- From one round to the next. -/
def Next (source : String) (lexer next : Lexer) : Prop :=
  lexer.pos < source.utf8ByteSize ∧ lexer.step source = .ok next

/-- What the offset and the modes of the machine are like. -/
structure Grounded (source : String) (lexer : Lexer) : Prop where
  inRange : lexer.pos ≤ source.utf8ByteSize
  boundary : String.Pos.Raw.IsValid source ⟨lexer.pos⟩
  bottom : ∃ inner, lexer.modes = inner ++ [.code] ∧ .code ∉ inner

theorem At.grounded (here : lexer.At source opened text) : lexer.Grounded source where
  inRange := here.stands.le_size
  boundary := here.stands.isValid
  bottom := by
    refine ⟨_, here.modes, fun member => ?_⟩
    obtain ⟨enclosure, -, isCode⟩ := List.mem_map.1 member
    cases enclosure <;> cases isCode

theorem At.text_ne_nil (here : lexer.At source opened text)
    (inside : lexer.pos < source.utf8ByteSize) : text ≠ [] := by
  rintro rfl
  obtain ⟨front, split, place⟩ := here.stands
  rw [← place, ← utf8Length_toList, split, List.append_nil] at inside
  exact Nat.lt_irrefl _ inside

theorem at_start (source : String) : At source {} [] source.toList :=
  ⟨⟨[], rfl, rfl⟩, rfl⟩

theorem at_reached (reached : ReflTransGen (Next source) {} lexer) :
    ∃ opened text, lexer.At source opened text := by
  induction reached with
  | refl => exact ⟨_, _, at_start source⟩
  | @tail last next _ further ih =>
      obtain ⟨opened, text, here⟩ := ih
      have reads := here.step (here.text_ne_nil further.1)
      rw [further.2] at reads
      cases reads with
      | read there => exact ⟨_, _, there⟩

/-- How a run of the machine ends, by what the scanner makes of the text. -/
def ofScan (taken : List Piece) : Except (Cause × Nat) (List Piece) → Except Halt (List Piece)
  | .ok pieces => .ok (taken ++ pieces)
  | .error (cause, place) => .error (.fault cause place)

theorem At.finish (here : lexer.At source opened []) :
    lexer.finish = ofScan lexer.pieces (checkClosed opened) := by
  have same : Mode.stringStart? ∘ Mode.of = Enclosure.stringStart? := by
    funext enclosure
    cases enclosure <;> rfl
  have outermost : lexer.modes.reverse.findSome? Mode.stringStart? =
      (opened.filterMap Enclosure.stringStart?).getLast? := by
    rw [← List.head?_filterMap, List.filterMap_reverse, List.head?_reverse, here.modes,
      List.filterMap_append, List.filterMap_map, same]
    exact congrArg List.getLast? (List.append_nil _)
  rw [Lexer.finish, outermost, checkClosed]
  cases (opened.filterMap Enclosure.stringStart?).getLast? with
  | none => exact congrArg Except.ok (List.append_nil _).symm
  | some start => rfl

/-- From every place the machine comes to an end, and it is the end of the scan. -/
theorem At.runs (here : lexer.At source opened text) :
    lexer.Runs source (ofScan lexer.pieces (scan opened lexer.pos text)) := by
  -- Each round leaves fewer bytes of the source.
  induction left : source.utf8ByteSize - lexer.pos using Nat.strong_induction_on
    generalizing lexer opened text with
  | _ bytes ih =>
      cases text with
      | nil =>
          obtain ⟨front, split, place⟩ := here.stands
          have atEnd : source.utf8ByteSize ≤ lexer.pos := by
            rw [← place, ← utf8Length_toList, split, List.append_nil]
          rw [scan, ← here.finish]
          exact .finished atEnd
      | cons c rest =>
          have inside := here.stands.inside
          have reads := here.step (List.cons_ne_nil c rest)
          cases stepped : lexer.step source with
          | error halt =>
              rw [stepped] at reads
              cases reads with
              | refused scanned =>
                  rw [scanned]
                  exact .halted inside stepped
          | ok target =>
              rw [stepped] at reads
              cases reads with
              | @read _ opened' behind pieces there further taken scanned =>
                  have later := ih _ (by omega) there rfl
                  have same : ofScan target.pieces (scan opened' target.pos behind) =
                      ofScan lexer.pieces (scan opened lexer.pos (c :: rest)) := by
                    rw [scanned, taken]
                    cases scan opened' target.pos behind with
                    | ok others => exact congrArg Except.ok (List.append_assoc ..)
                    | error fault => rfl
                  exact same ▸ .further inside stepped later

/-- What is known of the machine on a source. -/
structure Sound (source : String) : Prop where
  /-- Wherever the machine comes to, it stands on valid ground. -/
  grounded : ∀ lexer, ReflTransGen (Next source) {} lexer → lexer.Grounded source
  /-- Every slice that a round takes exists. -/
  slices : ∀ lexer, ReflTransGen (Next source) {} lexer → lexer.pos < source.utf8ByteSize →
    lexer.step source ≠ .error .panic
  /-- A round that does not fail comes further. -/
  further : ∀ lexer, ReflTransGen (Next source) {} lexer → ∀ next, Next source lexer next →
    lexer.pos < next.pos
  /-- The machine comes to an end, and not to a panic. -/
  ends : ∃ outcome, Runs source {} outcome ∧ outcome ≠ .error .panic
  /-- The tokens of the source are made of what it has read. -/
  tokens : ∀ file tokens, tokenize file source = .ok tokens ↔
    ∃ pieces, Runs source {} (.ok pieces) ∧ tokens = (Layout.ofPieces pieces).tokens file
  fault : ∀ file fault, tokenize file source = .error fault ↔
    ∃ cause place, Runs source {} (.error (.fault cause place)) ∧
      fault = { cause, position := Layout.positionAt file place }

theorem runs_iff {outcome : Except Halt (List Piece)} :
    Runs source {} outcome ↔ outcome = ofScan [] (scan [] 0 source.toList) := by
  constructor
  · exact fun runs => runs.unique source (at_start source).runs
  · rintro rfl
    exact (at_start source).runs

end Lexer

open Lexer in
/-- Every round of the machine reads something or refuses the source, on valid
ground and without a panic.  So it comes to an end, and what it has read are the
tokens of the source. -/
theorem lexer_progress (source : String) : Lexer.Sound source where
  grounded lexer reached := by
    obtain ⟨opened, text, here⟩ := at_reached reached
    exact here.grounded
  slices lexer reached inside panics := by
    obtain ⟨opened, text, here⟩ := at_reached reached
    have reads := here.step (here.text_ne_nil inside)
    rw [panics] at reads
    cases reads
  further lexer reached next round := by
    obtain ⟨opened, text, here⟩ := at_reached reached
    have reads := here.step (here.text_ne_nil round.1)
    rw [round.2] at reads
    cases reads with
    | read _ further => exact further
  ends := by
    refine ⟨_, runs_iff.2 rfl, ?_⟩
    cases scan [] 0 source.toList <;> nofun
  tokens file tokens := by
    simp only [runs_iff, tokenize_scan]
    cases scan [] 0 source.toList <;> simp [ofScan]
  fault file fault := by
    simp only [runs_iff, tokenize_error]
    rcases scan [] 0 source.toList with ⟨cause, place⟩ | pieces
    · constructor
      · rintro ⟨_, _, ⟨⟩, rfl⟩
        exact ⟨cause, place, rfl, rfl⟩
      · rintro ⟨_, _, ⟨⟩, rfl⟩
        exact ⟨cause, place, rfl, rfl⟩
    · simp [ofScan]

end NixSyntax
