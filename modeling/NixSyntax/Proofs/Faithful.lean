/-
Module: NixSyntax.Proofs.Faithful
Purpose: A parsed tree has the tokens that it was read from as one of its spellings.
Main exports: Parser.expression_spells, parseTokens_spelled
-/
import Mathlib
import NixSyntax.Proofs.Inversion
import NixSyntax.Proofs.Reading

namespace NixSyntax

/-!
Rule by rule, the words that the steps of a rule read are put together to a
spelling of its result.  The product of languages follows the order of the
steps, so the spellings of a form are met piece by piece.
-/

namespace Parser

open NixSyntax.Stream Spelling

variable {source target : Stream} {expr : ExprParser}

/-! ## Rules without nested expressions -/

theorem literal_spells : Spells Expr.spellings literal := by
  intro source value target run
  obtain ⟨form, known, rfl, rfl⟩ := literal_ok.1 run
  rw [Expr.spellings_bare]
  unfold Token.literal? at known
  split at known
  · next kind =>
      obtain ⟨number, read, rfl⟩ := Option.map_eq_some_iff.1 known
      exact takes_sign (kind ▸ rfl) ⟨kind, read⟩
  · next kind =>
      obtain ⟨number, read, rfl⟩ := Option.map_eq_some_iff.1 known
      exact takes_sign (kind ▸ rfl) ⟨kind, read⟩
  · next kind =>
      cases known
      exact takes_mark kind rfl
  · next kind =>
      cases known
      exact takes_mark kind rfl
  · next kind =>
      cases known
      exact takes_mark kind rfl
  · next kind =>
      cases known
      exact takes_text kind rfl
  · cases known

theorem wholeBefore_reads {given : Option String} (run : wholeBefore source = .ok given target) :
    (given = none ∧ source = target) ∨
      ∃ name, given = some name ∧ source.Takes (text .identifier name * mark .atSign) target := by
  rcases wholeBefore_ok.1 run with ⟨name, sign, rfl, rfl⟩ | ⟨_, rfl, rfl⟩
  · exact .inr ⟨_, rfl, (takes_text name rfl).trans (takes_mark sign rfl).reads⟩
  · exact .inl ⟨rfl, rfl⟩

theorem wholeAfter_reads {given whole : Option String}
    (run : wholeAfter given source = .ok whole target) :
    (whole = given ∧ source = target) ∨
      ∃ name, given = none ∧ whole = some name ∧
        source.Takes (mark .atSign * text .identifier name) target := by
  rcases wholeAfter_ok.1 run with ⟨sign, rfl, name, rfl, rfl⟩ | ⟨_, rfl, rfl⟩
  · exact .inr ⟨_, rfl, rfl, (takes_mark sign rfl).trans (takes_text name rfl).reads⟩
  · exact .inl ⟨rfl, rfl⟩

/-! ## Strings and attribute paths -/

section Rules

variable (nested : ∀ power, Spells Expr.spellings (expr power))

include nested

theorem interpolated_spells :
    Spells (fun value => mark .interpOpen * value.spellings * mark .interpClose)
      (interpolated expr) := by
  intro source value target run
  obtain ⟨opens, s₁, read, closes, rfl⟩ := interpolated_ok.1 run
  exact ((takes_mark opens rfl).trans (nested _ _ _ _ read).reads).trans
    (takes_mark closes rfl).reads

theorem stringParts_reads {close : Kind} {parts : List StringPart}
    (run : many (stringPart expr close) source = .ok parts target) :
    source.Reads (StringPart.spellings parts) target ∧
      (source.Ended → target.current.kind = close) := by
  refine many_reads StringPart.spellings (·.current.kind = close) rfl ?_ ?_ ?_ run
  · intro part rest
    cases part <;> simp
  · intro source target run
    rcases stringPart_ok.1 run with ⟨_, _, ⟨⟩⟩ | ⟨_, _, ⟨⟩⟩ | ⟨_, _, closes, _, same⟩
    exact ⟨same, closes⟩
  · intro source part target run
    rcases stringPart_ok.1 run with ⟨kind, rfl, ⟨⟩⟩ | ⟨value, read, ⟨⟩⟩ | ⟨_, _, _, ⟨⟩, _⟩
    · simpa using takes_text kind rfl
    · simpa using interpolated_spells nested _ _ _ read

theorem stringLiteral_spells :
    Spells (fun result => inQuotes result.1 (StringPart.spellings result.2))
      (stringLiteral expr) := by
  rintro source ⟨indented, parts⟩ target run
  obtain ⟨opens, s₁, read, rfl, rfl⟩ := stringLiteral_ok.1 run
  obtain ⟨reads, closes⟩ := stringParts_reads nested read
  simp only [List.mem_cons, List.not_mem_nil, or_false] at opens
  rcases opens with kind | kind
  · rw [kind] at closes ⊢
    have taken := (takes_mark kind rfl).trans (reads_close reads closes rfl)
    simpa [inQuotes, mul_assoc] using taken
  · rw [kind] at closes ⊢
    have taken := (takes_mark kind rfl).trans (reads_close reads closes rfl)
    simpa [inQuotes, mul_assoc] using taken

theorem segment_spells : Spells Segment.spellings (segment expr) := by
  intro source found target run
  rcases segment_ok.1 run with
    ⟨kind, rfl, rfl⟩ | ⟨value, read, rfl⟩ | ⟨kind, indented, parts, read, rfl⟩
  · have spelled : source.current.kind.isSpelled := by
      simp only [List.mem_cons, List.not_mem_nil, or_false] at kind
      rcases kind with name | word
      · rw [name]
        rfl
      · rw [word]
        rfl
    rw [Segment.spellings]
    exact takes_sign spelled ⟨kind, rfl⟩
  · simpa using interpolated_spells nested _ _ _ read
  · obtain ⟨_, _, _, _, rfl⟩ := stringLiteral_ok.1 read
    have taken := stringLiteral_spells nested _ _ _ read
    rw [kind] at taken
    rw [Segment.spellings]
    exact taken

theorem attrPath_spells : Spells Segment.path (attrPath expr) := by
  intro source path target run
  obtain ⟨first, s₁, others, readFirst, readOthers, rfl⟩ := attrPath_ok.1 run
  have dotted : s₁.Reads (Segment.dotted others) target := by
    refine (many_reads Segment.dotted (fun _ => True) rfl ?_ ?_ ?_ readOthers).1
    · intro segment rest
      simp
    · intro source target run
      rcases dottedSegment_ok.1 run with ⟨_, _, _, ⟨⟩⟩ | ⟨_, _, same⟩
      exact ⟨same, trivial⟩
    · intro source segment target run
      rcases dottedSegment_ok.1 run with ⟨dot, found, read, ⟨⟩⟩ | ⟨_, ⟨⟩, _⟩
      have taken := (takes_mark dot rfl).trans (segment_spells nested _ _ _ read).reads
      simpa using taken
  rw [Segment.path]
  exact (segment_spells nested _ _ _ readFirst).trans dotted

/-! ## Entries of sets and of `let` -/

theorem assignment_spells (comments : List Comment) :
    Spells (fun entry => Binding.spellings [entry]) (assignment expr comments) := by
  intro source entry target run
  obtain ⟨path, s₁, value, s₂, after, readPath, sign, readValue, ends, taken, rfl⟩ :=
    assignment_ok.1 run
  have takes := (((attrPath_spells nested _ _ _ readPath).trans
    (takes_mark sign rfl).reads).trans (nested _ _ _ _ readValue).reads).trans
    ((takes_mark ends rfl).reads.trans (.of_signs (takeUnclaimed_signs taken)))
  simpa [mul_assoc] using takes

theorem inheritSource_reads {origin : Option Expr}
    (run : inheritSource expr source = .ok origin target) :
    source.Reads (Expr.optionSpellings origin) target := by
  rcases inheritSource_ok.1 run with ⟨opens, value, s₁, read, closes, rfl, rfl⟩ | ⟨_, rfl, rfl⟩
  · have reads := ((takes_hidden opens (by decide)).trans (nested _ _ _ _ read).reads).trans
      (takes_hidden closes (by decide)).reads
    simpa using reads.reads
  · exact .refl source

theorem inheritedNames_reads {names : List Segment}
    (run : many (inheritedName expr) source = .ok names target) :
    source.Reads (Segment.names names) target ∧
      (source.Ended → target.current.kind = .semicolon) := by
  refine many_reads Segment.names (·.current.kind = .semicolon) rfl ?_ ?_ ?_ run
  · intro segment rest
    simp
  · intro source target run
    rcases inheritedName_ok.1 run with ⟨ends, _, same⟩ | ⟨_, _, _, ⟨⟩⟩
    exact ⟨same, ends⟩
  · intro source segment target run
    rcases inheritedName_ok.1 run with ⟨_, ⟨⟩, _⟩ | ⟨_, found, read, ⟨⟩⟩
    simpa using segment_spells nested _ _ _ read

theorem inheritance_spells (comments : List Comment) :
    Spells (fun entry => Binding.spellings [entry]) (inheritance expr comments) := by
  intro source entry target run
  obtain ⟨word, origin, s₁, first, s₂, others, s₃, after, readOrigin, readFirst, readOthers,
    taken, rfl⟩ := inheritance_ok.1 run
  obtain ⟨names, ends⟩ := inheritedNames_reads nested readOthers
  have closed := (reads_close names ends rfl).trans (.of_signs (takeUnclaimed_signs taken))
  have takes := ((takes_mark word rfl).trans (inheritSource_reads nested readOrigin)).trans
    ((segment_spells nested _ _ _ readFirst).reads.trans closed)
  simpa [mul_assoc] using takes

theorem bindings_reads {close : Kind} {entries : List Binding} {inner : List Comment}
    (run : bindings expr close source = .ok (entries, inner) target) :
    source.Reads (Binding.spellings entries) target := by
  obtain ⟨s₁, read, taken⟩ := bindings_ok.1 run
  have entriesRead : source.Reads (Binding.spellings entries) s₁ := by
    refine (many_reads Binding.spellings (fun _ => True) rfl ?_ ?_ ?_ read).1
    · intro entry rest
      cases entry <;> simp [mul_assoc]
    · intro source target run
      rcases binding_ok.1 run with ⟨_, _, same⟩ | ⟨_, _, _, _, _, _, _, ⟨⟩⟩
      exact ⟨same, trivial⟩
    · intro source entry target run
      rcases binding_ok.1 run with ⟨_, ⟨⟩, _⟩ | ⟨_, _, comments, s₁, found, taken, parsed, ⟨⟩⟩
      have same : source.Reads 1 s₁ := .of_signs (takeBefore_signs taken)
      rcases parsed with ⟨_, read⟩ | ⟨_, read⟩
      · simpa using same.trans_takes (inheritance_spells nested comments _ _ _ read)
      · simpa using same.trans_takes (assignment_spells nested comments _ _ _ read)
  simpa using entriesRead.trans (.of_signs (takeBefore_signs taken))

theorem attrs_takes {recursive : Bool} {value : Expr}
    (run : attrs expr recursive source = .ok value target) :
    ∃ entries inner, value = .bare (.attrs recursive entries inner) ∧
      source.Takes (mark .curlyOpen * Binding.spellings entries * mark .curlyClose) target := by
  obtain ⟨opens, entries, inner, s₁, read, closes, rfl, rfl⟩ := attrs_ok.1 run
  exact ⟨entries, inner, rfl, ((takes_mark opens rfl).trans (bindings_reads nested read)).trans
    (takes_mark closes rfl).reads⟩

theorem recursiveAttrs_spells : Spells Expr.spellings (recursiveAttrs expr) := by
  intro source value target run
  obtain ⟨word, read⟩ := recursiveAttrs_ok.1 run
  obtain ⟨entries, inner, rfl, taken⟩ := attrs_takes nested read
  simpa [markIf, mul_assoc] using (takes_mark word rfl).trans taken.reads

theorem letIn_spells : Spells Expr.spellings (letIn expr) := by
  intro source value target run
  obtain ⟨word, _, entries, inner, s₁, body, readEntries, separator, readBody, rfl⟩ :=
    letIn_ok.1 run
  have takes := ((takes_mark word rfl).trans (bindings_reads nested readEntries)).trans
    ((takes_mark separator rfl).reads.trans (nested _ _ _ _ readBody).reads)
  simpa [mul_assoc] using takes

/-! ## Functions -/

theorem paramDefault_reads {default : Option Expr}
    (run : paramDefault expr source = .ok default target) :
    source.Reads (Param.defaultSpellings default) target := by
  rcases paramDefault_ok.1 run with ⟨question, value, read, rfl⟩ | ⟨_, rfl, rfl⟩
  · rw [Param.defaultSpellings]
    exact (takes_mark question rfl).reads.trans (nested _ _ _ _ read).reads
  · exact .refl source

theorem param_spells : Spells (fun found => Param.spellings [found]) (param expr) := by
  intro source found target run
  obtain ⟨before, s₁, default, s₂, s₃, after, took, name, read, comma, claimed, rfl⟩ :=
    param_ok.1 run
  have separated : s₂.Reads 1 s₃ := by
    rcases comma with ⟨comma, rfl⟩ | ⟨_, rfl⟩
    · exact (takes_hidden comma (by decide)).reads
    · exact .refl s₂
  have taken := (Reads.of_signs (takeBefore_signs took)).trans_takes <|
    (takes_text name rfl).trans <| (paramDefault_reads nested read).trans <|
    separated.trans (.of_signs (takeUnclaimed_signs claimed))
  simpa [mul_assoc] using taken

theorem pattern_takes {pattern : Pattern} (run : Parser.pattern expr source = .ok pattern target) :
    source.Takes (mark .curlyOpen * Param.spellings pattern.params *
      markIf .ellipsis pattern.isOpen * mark .curlyClose) target := by
  obtain ⟨opens, params, s₁, isOpen, s₂, inner, s₃, readParams, skipped, taken, closes, rfl,
    rfl⟩ := pattern_ok.1 run
  have paramsRead : source.advance.2.Reads (Param.spellings params) s₁ := by
    refine (many_reads Param.spellings (fun _ => True) rfl ?_ ?_ ?_ readParams).1
    · rintro ⟨name, default, margin⟩ rest
      simp [mul_assoc]
    · intro source target run
      rcases nextParam_ok.1 run with ⟨_, _, same⟩ | ⟨_, _, _, ⟨⟩⟩
      exact ⟨same, trivial⟩
    · intro source param target run
      rcases nextParam_ok.1 run with ⟨_, ⟨⟩, _⟩ | ⟨_, found, read, ⟨⟩⟩
      exact param_spells nested _ _ _ read
  have ellipsis : s₁.Reads (markIf .ellipsis isOpen) s₂ := by
    rcases skip_ok.1 skipped with ⟨kind, rfl, rfl⟩ | ⟨_, rfl, rfl⟩
    · exact (takes_mark kind rfl).reads
    · exact .refl s₁
  have takes := (((takes_mark opens rfl).trans paramsRead).trans ellipsis).trans <|
    (Reads.of_signs (takeBefore_signs taken)).trans (takes_mark closes rfl).reads
  simpa [mul_assoc] using takes

theorem patternLambda_spells : Spells Expr.spellings (patternLambda expr) := by
  intro source value target run
  obtain ⟨given, s₁, pattern, s₂, whole, s₃, body, readGiven, readPattern, readWhole, colon,
    readBody, rfl⟩ := patternLambda_ok.1 run
  have patternTaken := pattern_takes nested readPattern
  have rest := (takes_mark colon rfl).reads.trans (nested _ _ _ _ readBody).reads
  -- The name of the whole set is on one of two sides, or missing.
  have head : source.Takes (withWhole (mark .curlyOpen * Param.spellings pattern.params *
      markIf .ellipsis pattern.isOpen * mark .curlyClose) whole) s₃ := by
    rcases wholeBefore_reads readGiven with ⟨rfl, rfl⟩ | ⟨name, rfl, before⟩
    · rcases wholeAfter_reads readWhole with ⟨rfl, rfl⟩ | ⟨name, _, rfl, after⟩
      · exact patternTaken
      · refine (patternTaken.trans after.reads).mono ?_
        intro word member
        exact .inr (by rwa [mul_assoc])
    · rcases wholeAfter_reads readWhole with ⟨rfl, rfl⟩ | ⟨_, absurd, _⟩
      · exact (before.trans patternTaken.reads).mono fun word member => .inl member
      · cases absurd
  simpa [mul_assoc] using head.trans rest

theorem lambda_spells : Spells Expr.spellings (lambda expr) := by
  intro source value target run
  rcases lambda_ok.1 run with ⟨name, _, read⟩ | ⟨_, read⟩
  · obtain ⟨colon, body, readBody, rfl⟩ := namedLambda_ok.1 read
    have taken := (takes_text name rfl).trans
      ((takes_mark colon rfl).reads.trans (nested _ _ _ _ readBody).reads)
    simpa [mul_assoc] using taken
  · exact patternLambda_spells nested _ _ _ read

theorem name_spells : Spells Expr.spellings (name expr) := by
  intro source value target run
  rcases name_ok.1 run with ⟨_, read⟩ | ⟨_, path, read, rfl⟩
  · exact lambda_spells nested _ _ _ read
  · simpa using attrPath_spells nested _ _ _ read

theorem braces_spells : Spells Expr.spellings (braces expr) := by
  intro source value target run
  rcases braces_ok.1 run with ⟨_, read⟩ | ⟨_, read⟩
  · exact lambda_spells nested _ _ _ read
  · obtain ⟨entries, inner, rfl, taken⟩ := attrs_takes nested read
    simpa [markIf] using taken

/-! ## Start rules -/

theorem elements_reads {elements : List Expr}
    (run : many (element expr) source = .ok elements target) :
    source.Reads (Expr.allSpellings elements) target ∧
      (source.Ended → target.current.kind = .bracketClose) := by
  refine many_reads Expr.allSpellings (·.current.kind = .bracketClose) rfl ?_ ?_ ?_ run
  · intro element rest
    simp
  · intro source target run
    rcases element_ok.1 run with ⟨closes, _, same⟩ | ⟨_, _, _, ⟨⟩⟩
    exact ⟨same, closes⟩
  · intro source element target run
    rcases element_ok.1 run with ⟨_, ⟨⟩, _⟩ | ⟨_, found, read, ⟨⟩⟩
    simpa using nested _ _ _ _ read

theorem list_spells (opens : source.current.kind = .bracketOpen) {value : Expr}
    (run : list expr source = .ok value target) : source.Takes value.spellings target := by
  obtain ⟨elements, s₁, inner, s₂, read, taken, rfl, rfl⟩ := list_ok.1 run
  obtain ⟨reads, closes⟩ := elements_reads nested read
  have same := takeBefore_signs taken
  have elementsRead := reads.trans (.of_signs same)
  have closed := reads_close elementsRead
    (fun ended => (kind_eq_of_signs same).symm.trans (closes ended)) rfl
  simpa [mul_assoc] using (takes_mark opens rfl).trans closed

theorem unary_spells (opens : source.current.kind ∈ [Kind.dash, .not]) {value : Expr}
    (run : unary expr source = .ok value target) : source.Takes value.spellings target := by
  rcases unary_ok.1 run with ⟨kind, operand, read, rfl⟩ | ⟨other, operand, read, rfl⟩
  · simpa [UnaryOp.kind] using
      (takes_mark kind rfl).trans (nested _ _ _ _ read).reads
  · have kind : source.current.kind = .dash := by simpa [other] using opens
    simpa [UnaryOp.kind] using
      (takes_mark kind rfl).trans (nested _ _ _ _ read).reads

theorem conditional_spells (opens : source.current.kind = .kwIf) {value : Expr}
    (run : conditional expr source = .ok value target) :
    source.Takes value.spellings target := by
  obtain ⟨condition, s₁, yes, s₂, no, readCondition, kwThen, readYes, kwElse, readNo, rfl⟩ :=
    conditional_ok.1 run
  have taken := ((takes_mark opens rfl).trans (nested _ _ _ _ readCondition).reads).trans <|
    ((takes_mark kwThen rfl).trans (nested _ _ _ _ readYes).reads).reads.trans <|
    ((takes_mark kwElse rfl).trans (nested _ _ _ _ readNo).reads).reads
  simpa [mul_assoc] using taken

theorem clause_spells (opens : source.current.kind ∈ [Kind.kwWith, .kwAssert]) {value : Expr}
    (run : clause expr source = .ok value target) : source.Takes value.spellings target := by
  obtain ⟨subject, s₁, after, s₂, body, readSubject, ends, taken, readBody, rfl⟩ :=
    clause_ok.1 run
  have word : source.Takes
      (mark (if source.current.kind = .kwAssert then .assertion else .scope : ClauseKind).kind)
      source.advance.2 := by
    simp only [List.mem_cons, List.not_mem_nil, or_false] at opens
    rcases opens with kind | kind
    · rw [kind]
      exact takes_mark kind rfl
    · rw [kind]
      exact takes_mark kind rfl
  have body := (Reads.of_signs (takeUnclaimed_signs taken)).trans (nested _ _ _ _ readBody).reads
  have takes := (word.trans (nested _ _ _ _ readSubject).reads).trans
    ((takes_mark ends rfl).reads.trans body)
  simpa [mul_assoc] using takes

theorem startRule_takes {rule : StartRule} {value : Expr}
    (start : Grammar.standardStart source.current.kind = some rule)
    (run : rule.parse expr source = .ok value target) : source.Takes value.spellings target := by
  cases rule with
  | literal => exact literal_spells _ _ _ run
  | name => exact name_spells nested _ _ _ run
  | string =>
      obtain ⟨indented, parts, read, rfl⟩ := string_ok.1 run
      simpa using stringLiteral_spells nested _ _ _ read
  | group =>
      obtain ⟨s₁, read, closes, rfl⟩ := group_ok.1 run
      have opening := takes_hidden (standardStart_opens start) (by decide)
      have closing := takes_hidden closes (by decide)
      simpa using (opening.trans (nested _ _ _ _ read).reads).trans closing.reads
  | list => exact list_spells nested (standardStart_opens start) run
  | importing =>
      obtain ⟨subject, read, rfl⟩ := importing_ok.1 run
      simpa using (takes_mark (standardStart_opens start) rfl).trans (nested _ _ _ _ read).reads
  | unary => exact unary_spells nested (standardStart_opens start) run
  | conditional => exact conditional_spells nested (standardStart_opens start) run
  | clause => exact clause_spells nested (standardStart_opens start) run
  | braces => exact braces_spells nested _ _ _ run
  | recursiveAttrs => exact recursiveAttrs_spells nested _ _ _ run
  | letIn => exact letIn_spells nested _ _ _ run
  | lambda => exact lambda_spells nested _ _ _ run

/-! ## Join rules -/

omit nested in
/-- An operator is written with a token of the kind that stands for it. -/
theorem ofKind?_kind {kind : Kind} {op : BinaryOp} (known : BinaryOp.ofKind? kind = some op) :
    kind = op.kind ∧ kind.isSpelled := by
  revert known
  cases kind <;> simp [BinaryOp.ofKind?] <;> rintro rfl <;> exact ⟨rfl, rfl⟩

theorem arguments_reads {arguments : List Expr}
    (run : many (argument expr) source = .ok arguments target) :
    source.Reads (Expr.allSpellings arguments) target := by
  refine (many_reads Expr.allSpellings (fun _ => True) rfl ?_ ?_ ?_ run).1
  · intro value rest
    simp
  · intro source target run
    rcases argument_ok.1 run with ⟨_, _, _, ⟨⟩⟩ | ⟨_, _, same⟩
    exact ⟨same, trivial⟩
  · intro source value target run
    rcases argument_ok.1 run with ⟨_, found, read, ⟨⟩⟩ | ⟨_, ⟨⟩, _⟩
    simpa using nested _ _ _ _ read

/-- A join rule goes on with the spelling of what is on its left. -/
theorem joinRule_takes {fallback : FallbackLevel} {grammar : Grammar} {rule : JoinRule}
    {origin : Stream} {left value : Expr} {power operatorPower : Power}
    (held : origin.Takes left.spellings source)
    (joins : Grammar.standardJoin fallback source.current.kind = some (operatorPower, rule))
    (run : rule.parse grammar expr left power source = .ok value target) :
    origin.Takes value.spellings target := by
  cases rule with
  | binary =>
      obtain ⟨op, right, known, read, _, rfl⟩ := binary_ok.1 run
      obtain ⟨kind, spelled⟩ := ofKind?_kind known
      have taken := (held.trans (takes_mark kind (kind ▸ spelled)).reads).trans
        (nested _ _ _ _ read).reads
      simpa using taken
  | hasAttr =>
      obtain ⟨path, read, rfl⟩ := hasAttr_ok.1 run
      have question : source.current.kind = .question := standardJoin_opens joins
      simpa using
        (held.trans (takes_mark question rfl).reads).trans (attrPath_spells nested _ _ _ read).reads
  | select =>
      obtain ⟨path, read, rfl⟩ := select_ok.1 run
      have dot : source.current.kind = .dot := standardJoin_opens joins
      simpa using
        (held.trans (takes_mark dot rfl).reads).trans (attrPath_spells nested _ _ _ read).reads
  | apply =>
      obtain ⟨arguments, read, rfl⟩ := apply_ok.1 run
      simpa using held.trans (arguments_reads nested read)

end Rules

/-! ## Whole expressions -/

theorem continuation_takes (fallback : FallbackLevel) (limit levels : Nat)
    (nested : ∀ fewer, fewer < levels → ∀ power,
      Spells Expr.spellings (expression (.standard fallback) limit fewer power))
    {power : Power} {origin : Stream} {left value : Expr}
    (held : origin.Takes left.spellings source)
    (run : continuation (.standard fallback) limit levels power left source = .ok value target) :
    origin.Takes value.spellings target := by
  induction levels generalizing left source with
  | zero =>
      rcases continuation_ok.1 run with ⟨_, rfl, rfl⟩ | ⟨_, _, _, _, _, _, _, absurd, _⟩
      · exact held
      · cases absurd
  | succ levels ih =>
      rcases continuation_ok.1 run with ⟨_, rfl, rfl⟩ |
        ⟨_, operatorPower, rule, node, s₁, after, s₂, ⟨⟩, joins, _, parsed, taken, continued⟩
      · exact held
      · have joined := joinRule_takes (nested levels (Nat.lt_succ_self levels)) held joins parsed
        refine ih (fun fewer less => nested fewer (Nat.lt_succ_of_lt less)) ?_ continued
        simpa using joined.trans (.of_signs (takeAfter_signs taken))

theorem expression_spells (fallback : FallbackLevel) (limit levels : Nat) (power : Power) :
    Spells Expr.spellings (expression (.standard fallback) limit levels power) := by
  induction levels using Nat.strongRecOn generalizing power with
  | ind levels ih =>
      intro source value target run
      cases levels with
      | zero => exact absurd run expression_zero_ok
      | succ levels =>
          obtain ⟨before, s₁, rule, first, s₂, after, s₃, taken, start, parsed, claimed,
            continued⟩ := expression_succ_ok.1 run
          have firstTaken := startRule_takes (ih levels (Nat.lt_succ_self levels)) start parsed
          have held := (Reads.of_signs (takeBefore_signs taken)).trans_takes
            (firstTaken.trans (.of_signs (takeAfter_signs claimed)))
          refine continuation_takes fallback limit levels
            (fun fewer less => ih fewer (Nat.lt_succ_of_lt less)) ?_ continued
          simpa using held

end Parser

/-! ## Whole documents -/

/-- The supplied end of the input is not in front of the end of the input. -/
theorem Sign.takeWhile_completed (signs : List Sign) :
    (Sign.completed signs).takeWhile (·.kind ≠ .endOfInput) =
      signs.takeWhile (·.kind ≠ .endOfInput) := by
  unfold Sign.completed
  split
  · rfl
  · clear * -
    induction signs with
    | nil => rfl
    | cons sign signs ih => rw [List.cons_append, List.takeWhile_cons, List.takeWhile_cons, ih]

/-- The visible tokens in front of the end of the input are a spelling of the
tree that is read from them. -/
theorem parseTokens_spelled (options : Options) (tokens : List Token) (document : Document)
    (parsed : parseTokens options tokens = .ok document) :
    (((tokens.map Token.sign).takeWhile (·.kind ≠ .endOfInput)).filter Sign.isVisible) ∈
      document.value.spellings := by
  obtain ⟨target, run⟩ := parseTokens_ok.1 parsed
  obtain ⟨before, s₁, value, s₂, after, detached, read, atEnd, _, rfl⟩ := Parser.document_ok.1 run
  have same : s₁.signs = Sign.completed (tokens.map Token.sign) := by
    rw [← Stream.signs_ofTokens options.file]
    obtain ⟨-, rfl⟩ := Parser.takeDetached_ok.1 detached
    rfl
  have ended : s₁.Ended := by
    rw [Stream.Ended, same]
    exact Sign.completed_ends _
  obtain ⟨passed, split, solid, member⟩ :=
    (Parser.expression_spells _ _ _ _ _ _ _ read).reads ended
  have stops : s₂.signs.takeWhile (·.kind ≠ .endOfInput) = [] :=
    List.takeWhile_cons_of_neg (by simp [Token.sign, atEnd])
  have passedAll : s₁.signs.takeWhile (·.kind ≠ .endOfInput) = passed := by
    rw [split, List.takeWhile_append_of_pos (by simpa using solid), stops, List.append_nil]
  rw [← Sign.takeWhile_completed, ← same, passedAll]
  exact member

/-- A pattern with the name of the whole set behind it.  The comma and the
parentheses are gone, and everything else is there. -/
theorem parseTokens_spelled_pattern :
    ∃ tokens document, tokenize "a.nix" "\x7b a, b \x7d @ s: (a)" = .ok tokens ∧
      parseTokens { maxDepth := 3 } tokens = .ok document ∧
      [⟨.curlyOpen, "\x7b"⟩, ⟨.identifier, "a"⟩, ⟨.identifier, "b"⟩, ⟨.curlyClose, "\x7d"⟩,
        ⟨.atSign, "@"⟩, ⟨.identifier, "s"⟩, ⟨.colon, ":"⟩, ⟨.identifier, "a"⟩] ∈
          document.value.spellings := by
  have run : ∃ tokens, tokenize "a.nix" "\x7b a, b \x7d @ s: (a)" = .ok tokens ∧
      ((tokens.map Token.sign).takeWhile (·.kind ≠ .endOfInput)).filter Sign.isVisible =
        [⟨.curlyOpen, "\x7b"⟩, ⟨.identifier, "a"⟩, ⟨.identifier, "b"⟩, ⟨.curlyClose, "\x7d"⟩,
          ⟨.atSign, "@"⟩, ⟨.identifier, "s"⟩, ⟨.colon, ":"⟩, ⟨.identifier, "a"⟩] ∧
      parseTokens { maxDepth := 3 } tokens = .ok
        { before := []
          value := .bare (.patternLambda [⟨"a", none, {}⟩, ⟨"b", none, {}⟩] false (some "s") []
            (.bare (.name [.name "a"])))
          after := [] } := by
    refine ⟨_, by cbv, by cbv, ?_⟩
    cbv
  obtain ⟨tokens, done, visible, parsed⟩ := run
  have spelled := parseTokens_spelled _ tokens _ parsed
  rw [visible] at spelled
  exact ⟨tokens, _, done, parsed, spelled⟩

end NixSyntax
