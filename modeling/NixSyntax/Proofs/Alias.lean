/-
Module: NixSyntax.Proofs.Alias
Purpose: The name of a whole parameter pattern may stand in front of the pattern or behind it.
Main exports: Parser.pattern_ahead, Parser.document_alias, ReadsPattern, parseTokens_alias
-/
import NixSyntax.Proofs.Entire
import NixSyntax.Proofs.NonInterference
import NixSyntax.Proofs.Reread
import NixSyntax.Proofs.Silent

namespace NixSyntax

/-!
The two orders are read by different rules up to the colon, and only one of them
looks ahead.  The pattern itself is the same in both, but the tokens behind it
are not, so its two runs are compared along a fork.  From the colon on both
documents are read by one parser from the same signs.
-/

namespace Parser

open NixSyntax.Stream

variable {fork : Fork} {front : List Sign} {source source' target : Stream} {expr : ExprParser}

/-! ## A pattern in front of different tokens -/

/-- A run that ends in front of the token before the fork has not seen it. -/
theorem Meets.before {α γ : Type} {closes : List Kind} {view : α → γ} {value : α}
    {run' : EStateM.Result Fault Stream α}
    (meets : Meets fork closes view (.ok value target) run')
    (before : fork.behind.length + 1 < target.signs.length) :
    ∃ value' target' front, run' = .ok value' target' ∧ view value = view value' ∧
      fork.Ahead front target target' := by
  cases meets with
  | ok same ahead =>
      obtain ⟨front, ahead⟩ := ahead
      exact ⟨_, _, front, rfl, same, ahead⟩
  | gone passed =>
      have least : target.signs.length ≤ fork.behind.length := passed
      omega
  | past arrived _ =>
      have least := arrived value target rfl
      omega
  | ends here _ =>
      rw [here, List.length_cons] at before
      exact absurd before (Nat.lt_irrefl _)

/-- A pattern that ends at the fork is read in front of both its tokens. -/
theorem pattern_ahead (nested : Reliable expr) {pattern : Pattern}
    (ahead : fork.Ahead front source source')
    (run : Parser.pattern expr source = .ok pattern target)
    (here : target.signs = fork.sign :: fork.behind) :
    ∃ target', Parser.pattern expr source' = .ok pattern target' ∧
      fork.Ahead [] target target' := by
  obtain ⟨opens, params, s₁, isOpen, s₂, inner, s₃, read, skipped, took, close, rfl, rfl⟩ :=
    pattern_ok.1 run
  have endedFirst : source.advance.2.Ended := (behind_advance ahead.ended).ended ahead.ended
  have paramsBehind := (params_sound nested).behind endedFirst trivial read
  have ellipsis : Sound 0 Anywhere (· = .ellipsis) [] id (skip .ellipsis) :=
    skip_sound _ (by decide)
  have skipBehind := ellipsis.behind (paramsBehind.ended endedFirst) trivial skipped
  have endedSkip : s₂.Ended := skipBehind.ended (paramsBehind.ended endedFirst)
  have same := takeBefore_signs took
  have endedClose : s₃.Ended := by rwa [Stream.Ended, ← same]
  -- All the runs inside end in front of the closing brace, and so in front of the fork.
  have closing : s₃.signs.length = fork.behind.length + 2 := by
    rw [length_advance endedClose (by rw [close]; decide), here]
    rfl
  have atSkip : s₂.signs.length = fork.behind.length + 2 := by rw [same, closing]
  have skipLess := skipBehind.length_le
  have paramsLess := paramsBehind.length_le
  have opening := length_advance ahead.ended (by rw [opens]; decide)
  obtain ⟨sign, front, rfl⟩ : ∃ sign rest, front = sign :: rest := by
    cases front with
    | nil =>
        have length := congrArg List.length ahead.signs
        rw [List.nil_append, List.length_cons] at length
        omega
    | cons sign rest => exact ⟨sign, rest, rfl⟩
  have opens' : source'.current.kind = .curlyOpen :=
    (ahead.same_kind (List.cons_ne_nil _ _)).trans opens
  have meets := (params_sound nested).meets fork front _ _ ahead.advance (Nat.zero_le _) trivial
    trivial
  rw [read] at meets
  obtain ⟨params', s₁', front', read', rfl, aheadParams⟩ := meets.before (by omega)
  have meets := ellipsis.meets fork front' _ _ aheadParams (Nat.zero_le _) trivial trivial
  rw [skipped] at meets
  obtain ⟨isOpen', s₂', front'', skipped', rfl, aheadSkip⟩ := meets.before (by omega)
  rw [takeBefore_quiet aheadSkip.quiet] at took
  cases took
  obtain ⟨brace, rfl⟩ : ∃ brace, front'' = [brace] := by
    rw [← List.length_eq_one_iff]
    have length := congrArg List.length aheadSkip.signs
    rw [List.length_append, List.length_cons] at length
    omega
  refine ⟨s₂'.advance.2, pattern_ok.2 ⟨opens', params, s₁', isOpen, s₂', [], s₂', read', skipped',
    takeBefore_quiet aheadSkip.quiet', ?_, rfl, rfl⟩, aheadSkip.advance⟩
  exact (aheadSkip.same_kind (List.cons_ne_nil _ _)).trans close

/-! ## The name on either side -/

/-- Reads what stands behind the colon of a function that takes a set apart. -/
def patternBody (expr : ExprParser) (pattern : Pattern) (whole : Option String) : Parser Expr :=
  expr .base >>= fun body =>
    pure (.bare (.patternLambda pattern.params pattern.isOpen whole pattern.inner body))

theorem patternLambda_before {pattern : Pattern} (name : source.current.kind = .identifier)
    (sign : source.advance.2.current.kind = .atSign)
    (run : Parser.pattern expr source.advance.2.advance.2 = .ok pattern target)
    (colon : target.current.kind = .colon) :
    patternLambda expr source =
      patternBody expr pattern (some source.current.value) target.advance.2 := by
  have before := wholeBefore_ok.2 (.inl ⟨name, sign, rfl, rfl⟩)
  have after : wholeAfter (some source.current.value) target = .ok _ target :=
    wholeAfter_ok.2 (.inr ⟨by rw [colon]; decide, rfl, rfl⟩)
  exact (bind_run before).trans <| (bind_run run).trans <| (bind_run after).trans <|
    bind_run (expect_ok.2 ⟨colon, rfl, rfl⟩)

theorem patternLambda_after {pattern : Pattern} (brace : source.current.kind = .curlyOpen)
    (run : Parser.pattern expr source = .ok pattern target)
    (sign : target.current.kind = .atSign) (name : target.advance.2.current.kind = .identifier)
    (colon : target.advance.2.advance.2.current.kind = .colon) :
    patternLambda expr source = patternBody expr pattern (some target.advance.2.current.value)
      target.advance.2.advance.2.advance.2 := by
  have before : wholeBefore source = .ok none source :=
    wholeBefore_ok.2 (.inr ⟨by rw [brace]; decide, rfl, rfl⟩)
  have after : wholeAfter none target = .ok _ target.advance.2.advance.2 :=
    wholeAfter_ok.2 (.inl ⟨sign, rfl, name, rfl, rfl⟩)
  exact (bind_run before).trans <| (bind_run run).trans <| (bind_run after).trans <|
    bind_run (expect_ok.2 ⟨colon, rfl, rfl⟩)

theorem patternBody_alike {related : Position → Position → Prop} (fallback : FallbackLevel)
    (limit levels : Nat) (pattern : Pattern) (whole : Option String) :
    (Comparison.alike related).Parallel (View.plain.Same Expr.plain) (.behind []) (.behind [])
      (patternBody (expression (.standard fallback) limit levels) pattern whole)
      (patternBody (expression (.standard fallback) limit levels) pattern whole) := by
  apply (expression_alike fallback limit calm_nil levels .base).bind
  intro body body' same
  apply Comparison.Parallel.pure
  show Expr.plain _ = Expr.plain _
  rw [Expr.plain_bare, Expr.plain_bare, Form.plain, Form.plain, same]

/-! ## Documents -/

/-- Reads a document whose first expression starts with what `first` reads. -/
def documentFrom (grammar : Grammar) (limit levels : Nat) (first : Parser Expr) :
    Parser Document := do
  let value ← first
  let value := value.addAfter (← takeAfter)
  let value ← continuation grammar limit levels .base value
  if (← currentKind) = .endOfInput then
    return { before := [], value, after := ← takeBefore }
  else unexpected [.endOfInput]

theorem documentFrom_alike {related : Position → Position → Prop} (fallback : FallbackLevel)
    (limit levels : Nat) {first : Parser Expr}
    (alike : (Comparison.alike related).Parallel (View.plain.Same Expr.plain) (.behind [])
      (.behind []) first first) :
    (Comparison.alike related).Parallel (View.plain.Same Document.plain) (.behind [])
      (.behind []) (documentFrom (.standard fallback) limit levels first)
      (documentFrom (.standard fallback) limit levels first) := by
  apply alike.bind
  intro value value' same
  apply (claim_parallel .after).bind
  intro after after' _
  have whole : (value.addAfter after).plain = (value'.addAfter after').plain := by
    rw [Expr.plain_addAfter, Expr.plain_addAfter]
    exact same
  apply (continuation_parallel calm_nil (fun _ => fail_alike) levels
    (fun fewer _ power _ calm => expression_alike fallback limit calm fewer power) .base whole).bind
  intro value value' same source source' near
  rw [currentKind_bind, currentKind_bind, Comparison.alike_even near.1]
  split
  · apply ((claim_parallel .before).bind _) source source' near
    intro after after' _
    apply Comparison.Parallel.pure
    show Document.plain _ = Document.plain _
    rw [Document.plain, Document.plain, same]
  · exact unexpected_parallel (by decide) calm_nil source source' near

theorem bind_run_congr {α β : Type} {first first' : Parser α} {next : α → Parser β}
    (same : first source = first' target) : (first >>= next) source = (first' >>= next) target := by
  show EStateM.bind first next source = EStateM.bind first' next target
  rw [EStateM.bind, EStateM.bind, same]

/-- A document without comments starts with what its start rule reads. -/
theorem document_eq {fallback : FallbackLevel} {limit levels : Nat} {rule : StartRule}
    {first : Parser Expr} (quiet : source.Quiet)
    (start : Grammar.standardStart source.current.kind = some rule)
    (reads : rule.parse (expression (.standard fallback) limit levels) source = first target)
    (full : limit = levels + 1) :
    document (.standard fallback) limit source =
      documentFrom (.standard fallback) limit levels first target := by
  subst full
  have value : expression (.standard fallback) (levels + 1) (levels + 1) .base source =
      (first >>= fun value => takeAfter >>= fun after =>
        continuation (.standard fallback) (levels + 1) levels .base
          ((value.addBefore []).addAfter after)) target := by
    rw [expression, bind_run (takeBefore_quiet quiet), currentKind_bind]
    have starts : (Grammar.standard fallback).start source.current.kind = some rule := start
    rw [starts]
    exact bind_run_congr reads
  have whole : document (.standard fallback) (levels + 1) source = _ :=
    (bind_run (takeDetached_quiet quiet)).trans (bind_run_congr value)
  rw [whole, bind_assoc]
  simp only [bind_assoc]
  rfl

/-- Documents without comments are the same if what they start with is read by
one parser from the same signs. -/
theorem document_of_from {fallback : FallbackLevel} {limit levels : Nat} {first : Parser Expr}
    {start start' last : Stream} {document : Document}
    (alike : ∀ {related : Position → Position → Prop}, (Comparison.alike related).Parallel
      (View.plain.Same Expr.plain) (.behind []) (.behind []) first first)
    (quiet : source.Quiet) (quiet' : source'.Quiet)
    (reads : Parser.document (.standard fallback) limit source =
      documentFrom (.standard fallback) limit levels first start)
    (reads' : Parser.document (.standard fallback) limit source' =
      documentFrom (.standard fallback) limit levels first start')
    (same : start.signs = start'.signs) (ended : start.Ended)
    (run : Parser.document (.standard fallback) limit source = .ok document last) :
    ∃ last', Parser.document (.standard fallback) limit source' = .ok document last' := by
  have twins : (Comparison.alike (Stream.SameIndex start start')).At (.behind []) start start' :=
    ⟨⟨.of_signs same, ended⟩, nofun⟩
  have agree := documentFrom_alike fallback limit levels alike _ _ twins
  rw [← reads, ← reads', run] at agree
  obtain ⟨document', last', run', same, -⟩ := agree.of_ok rfl
  have plain : document.plain = document'.plain := same
  rw [document_silent quiet run, document_silent quiet' run'] at plain
  exact ⟨last', plain ▸ run'⟩

theorem limit_of_document {grammar : Grammar} {limit : Nat} {source last : Stream}
    {document : Document} (run : Parser.document grammar limit source = .ok document last) :
    ∃ levels, limit = levels + 1 := by
  obtain ⟨_, _, _, _, _, _, read, -⟩ := document_ok.1 run
  cases limit with
  | zero => exact absurd read expression_zero_ok
  | succ levels => exact ⟨levels, rfl⟩

section Sides

variable {fallback : FallbackLevel} {limit levels : Nat} {name sign colon : Sign}
  {front rest : List Sign} {pattern : Pattern}

/-- A document that starts with the name of a pattern. -/
theorem document_before (full : limit = levels + 1) (isName : name.kind = .identifier)
    (isSign : sign.kind = .atSign) (isColon : colon.kind = .colon) (quiet : source.Quiet)
    (signs : source.signs = name :: sign :: (front ++ colon :: rest))
    (run : Parser.pattern (expression (.standard fallback) limit levels)
      source.advance.2.advance.2 = .ok pattern target)
    (left : target.signs = colon :: rest) :
    document (.standard fallback) limit source =
      documentFrom (.standard fallback) limit levels (patternBody
        (expression (.standard fallback) limit levels) pattern (some name.value))
        target.advance.2 := by
  have isFirst := current_sign signs
  have identifier : source.current.kind = .identifier := (current_kind signs).trans isName
  have second := (kind_peek_one signs).trans isSign
  have next : source.advance.2.current.kind = .atSign := (kind_advance source).trans second
  have colonHere : target.current.kind = .colon := (current_kind left).trans isColon
  refine document_eq quiet (congrArg Grammar.standardStart identifier) ?_ full
  show Parser.name _ source = _
  rw [name_of_sign (by simp [second]), lambda_of_pattern fun _ => by rw [second]; decide,
    patternLambda_before identifier next run colonHere, ← isFirst]
  rfl

/-- A document that starts with a pattern and has its name behind it. -/
theorem document_after (full : limit = levels + 1) (isName : name.kind = .identifier)
    (isSign : sign.kind = .atSign) (isColon : colon.kind = .colon) (quiet : source.Quiet)
    (run : Parser.pattern (expression (.standard fallback) limit levels) source =
      .ok pattern target)
    (left : target.signs = sign :: name :: colon :: rest) (calm : target.Quiet) :
    document (.standard fallback) limit source =
      documentFrom (.standard fallback) limit levels (patternBody
        (expression (.standard fallback) limit levels) pattern (some name.value))
        target.advance.2.advance.2.advance.2 := by
  have brace := (pattern_ok.1 run).1
  have signHere : target.current.kind = .atSign := (current_kind left).trans isSign
  obtain ⟨calmThen, leftThen⟩ := calm.advance left
  obtain ⟨-, leftLast⟩ := calmThen.advance leftThen
  have nameHere := (current_kind leftThen).trans isName
  have colonHere := (current_kind leftLast).trans isColon
  have isSecond := current_sign leftThen
  have shown := startsPattern_of_pattern run (by rw [signHere]; rfl)
  refine document_eq quiet (congrArg Grammar.standardStart brace) ?_ full
  show Parser.braces _ source = _
  rw [braces_of_pattern shown, lambda_of_pattern fun identifier => ?_,
    patternLambda_after brace run signHere nameHere colonHere, ← isSecond]
  · rfl
  · exact absurd (brace.symm.trans identifier) (by decide)

/-- With the name of a pattern on either side the same documents are read. -/
theorem document_alias {target' : Stream} (full : limit = levels + 1)
    (isName : name.kind = .identifier) (isSign : sign.kind = .atSign)
    (isColon : colon.kind = .colon) (quiet : source.Quiet) (quiet' : source'.Quiet)
    (signs : source.signs = name :: sign :: (front ++ colon :: rest))
    (run : Parser.pattern (expression (.standard fallback) limit levels)
      source.advance.2.advance.2 = .ok pattern target)
    (run' : Parser.pattern (expression (.standard fallback) limit levels) source' =
      .ok pattern target')
    (left : target.signs = colon :: rest) (left' : target'.signs = sign :: name :: colon :: rest)
    (calm : target.Quiet) (calm' : target'.Quiet)
    (ends : ∃ last ∈ rest.getLast?, last.kind = .endOfInput) (document : Document) :
    (∃ last, Parser.document (.standard fallback) limit source = .ok document last) ↔
      ∃ last, Parser.document (.standard fallback) limit source' = .ok document last := by
  have reads := document_before full isName isSign isColon quiet signs run left
  have reads' := document_after full isName isSign isColon quiet' run' left' calm'
  obtain ⟨first, others, rfl⟩ : ∃ first others, rest = first :: others := by
    cases rest with
    | nil => obtain ⟨_, ⟨⟩, -⟩ := ends
    | cons first others => exact ⟨first, others, rfl⟩
  have known := (calm.advance left).2
  obtain ⟨calmThen, leftThen⟩ := calm'.advance left'
  obtain ⟨calmLast, leftLast⟩ := calmThen.advance leftThen
  have known' := (calmLast.advance leftLast).2
  have alike : ∀ {related : Position → Position → Prop}, (Comparison.alike related).Parallel
      (View.plain.Same Expr.plain) (.behind []) (.behind []) _ _ :=
    fun {_} => patternBody_alike fallback limit levels pattern (some name.value)
  constructor
  · rintro ⟨last, done⟩
    exact document_of_from alike quiet quiet' reads reads' (known.trans known'.symm)
      (by rwa [Stream.Ended, known]) done
  · rintro ⟨last, done⟩
    exact document_of_from alike quiet' quiet reads' reads (known'.trans known.symm)
      (by rwa [Stream.Ended, known']) done

/-- The pattern behind the name and the at sign. -/
theorem quiet_behind (quiet : source.Quiet)
    (signs : source.signs = name :: sign :: (front ++ colon :: rest)) :
    source.advance.2.advance.2.Quiet ∧ source.advance.2.advance.2.signs = front ++ colon :: rest := by
  obtain ⟨next, others, shape⟩ := List.exists_cons_of_ne_nil
    (List.append_ne_nil_of_right_ne_nil front (List.cons_ne_nil colon rest))
  rw [shape] at signs ⊢
  obtain ⟨calm, known⟩ := quiet.advance signs
  exact calm.advance known

/-- Either order is read to the documents that the other one is read to, if the
pattern ends where it should. -/
theorem document_sides (fallback : FallbackLevel) (limit : Nat) (isName : name.kind = .identifier)
    (isSign : sign.kind = .atSign) (isColon : colon.kind = .colon) (quiet : source.Quiet)
    (quiet' : source'.Quiet) (signs : source.signs = name :: sign :: (front ++ colon :: rest))
    (signs' : source'.signs = front ++ sign :: name :: colon :: rest)
    (ends : ∃ last ∈ rest.getLast?, last.kind = .endOfInput) (document : Document) (last : Stream) :
    (∀ pattern target, Parser.pattern (expression (.standard fallback) limit (limit - 1))
        source.advance.2.advance.2 = .ok pattern target → target.signs = colon :: rest →
      Parser.document (.standard fallback) limit source = .ok document last →
      ∃ last', Parser.document (.standard fallback) limit source' = .ok document last') ∧
    (∀ pattern target, Parser.pattern (expression (.standard fallback) limit (limit - 1))
        source' = .ok pattern target → target.signs = sign :: name :: colon :: rest →
      Parser.document (.standard fallback) limit source' = .ok document last →
      ∃ last', Parser.document (.standard fallback) limit source = .ok document last') := by
  have present : rest ≠ [] := by
    rintro rfl
    obtain ⟨_, ⟨⟩, -⟩ := ends
  have later : ∀ signs : List Sign, ∃ last ∈ (signs ++ rest).getLast?, last.kind = .endOfInput := by
    intro signs
    rwa [List.getLast?_append_of_ne_nil _ present]
  obtain ⟨calm, known⟩ := quiet_behind quiet signs
  constructor
  · intro pattern target run left done
    obtain ⟨levels, full⟩ := limit_of_document done
    rw [full, Nat.add_sub_cancel, ← full] at run
    have ahead : Fork.Ahead ⟨colon, rest, sign, name :: colon :: rest, later [colon],
        later [name, colon], by rw [isSign]; decide⟩ front source.advance.2.advance.2 source' :=
      ⟨calm, quiet', known, signs'⟩
    obtain ⟨target', run', aheadThen⟩ :=
      pattern_ahead (expression_reliable fallback limit levels) ahead run left
    exact (document_alias full isName isSign isColon quiet quiet' signs run run' aheadThen.signs
      aheadThen.signs' aheadThen.quiet aheadThen.quiet' ends document).1 ⟨last, done⟩
  · intro pattern target run left done
    obtain ⟨levels, full⟩ := limit_of_document done
    rw [full, Nat.add_sub_cancel, ← full] at run
    have ahead : Fork.Ahead ⟨sign, name :: colon :: rest, colon, rest, later [sign, name, colon],
        later [], by rw [isColon]; decide⟩ front source' source.advance.2.advance.2 :=
      ⟨quiet', calm, signs', known⟩
    obtain ⟨target', run', aheadThen⟩ :=
      pattern_ahead (expression_reliable fallback limit levels) ahead run left
    exact (document_alias full isName isSign isColon quiet quiet' signs run' run aheadThen.signs'
      aheadThen.signs aheadThen.quiet' aheadThen.quiet ends document).2 ⟨last, done⟩

end Sides

end Parser

/-! ## Whole streams -/

/-- Below the level of the function itself, the pattern at the current token is
read, and takes so many tokens from its opening brace to its closing one. -/
def ReadsPattern (options : Options) (source : Stream) (length : Nat) : Prop :=
  ∃ pattern target, Parser.pattern
      (Parser.expression (.standard options.fallback) options.maxDepth (options.maxDepth - 1))
      source = .ok pattern target ∧
    target.bare = source.bare.drop length

/-- The signs behind a token that does not end the input are completed on their
own. -/
theorem Sign.completed_append (front : List Sign) {sign : Sign} (behind : List Sign)
    (solid : sign.kind ≠ .endOfInput) :
    completed (front ++ sign :: behind) = front ++ sign :: completed behind := by
  unfold completed
  cases behind with
  | nil =>
      rw [if_neg, if_neg]
      · simp
      · rintro ⟨_, ⟨⟩, -⟩
      · rintro ⟨last, isLast, atEnd⟩
        rw [List.getLast?_concat] at isLast
        cases isLast
        exact solid atEnd
  | cons next rest =>
      rw [List.getLast?_append_of_ne_nil _ (List.cons_ne_nil _ _), List.getLast?_cons_cons]
      split <;> simp

/-- Where a pattern is read with its name in front of it, the document is the
same with the name behind it, and the other way round. -/
theorem parseTokens_alias (options : Options) (name sign colon : Token) (pattern body : List Token)
    (document : Document) (isName : name.kind = .identifier) (isSign : sign.kind = .atSign)
    (isColon : colon.kind = .colon)
    (quiet : ∀ token ∈ name :: sign :: colon :: (pattern ++ body), token.Quiet) :
    (ReadsPattern options (Stream.ofTokens options.file
        (name :: sign :: (pattern ++ colon :: body))).advance.2.advance.2 pattern.length →
      parseTokens options (name :: sign :: (pattern ++ colon :: body)) = .ok document →
      parseTokens options (pattern ++ sign :: name :: colon :: body) = .ok document) ∧
    (ReadsPattern options (Stream.ofTokens options.file
        (pattern ++ sign :: name :: colon :: body)) pattern.length →
      parseTokens options (pattern ++ sign :: name :: colon :: body) = .ok document →
      parseTokens options (name :: sign :: (pattern ++ colon :: body)) = .ok document) := by
  have solid : colon.sign.kind ≠ .endOfInput := by
    show colon.kind ≠ _
    rw [isColon]
    decide
  have signs : (Stream.ofTokens options.file (name :: sign :: (pattern ++ colon :: body))).signs =
      name.sign :: sign.sign ::
        (pattern.map Token.sign ++ colon.sign :: Sign.completed (body.map Token.sign)) := by
    have split := Sign.completed_append (name.sign :: sign.sign :: pattern.map Token.sign)
      (body.map Token.sign) solid
    rw [Stream.signs_ofTokens]
    simpa using split
  have signs' : (Stream.ofTokens options.file (pattern ++ sign :: name :: colon :: body)).signs =
      pattern.map Token.sign ++
        sign.sign :: name.sign :: colon.sign :: Sign.completed (body.map Token.sign) := by
    have split := Sign.completed_append (pattern.map Token.sign ++ [sign.sign, name.sign])
      (body.map Token.sign) solid
    rw [Stream.signs_ofTokens]
    simpa using split
  have calm : (Stream.ofTokens options.file (name :: sign :: (pattern ++ colon :: body))).Quiet :=
    Stream.quiet_ofTokens _ fun token member => quiet token (by simp at member ⊢; tauto)
  have calm' : (Stream.ofTokens options.file (pattern ++ sign :: name :: colon :: body)).Quiet :=
    Stream.quiet_ofTokens _ fun token member => quiet token (by simp at member ⊢; tauto)
  have sides := Parser.document_sides options.fallback options.maxDepth isName isSign isColon calm
    calm' signs signs' (Sign.completed_ends _) document
  constructor
  · rintro ⟨found, target, run, left⟩ parsed
    obtain ⟨last, done⟩ := parseTokens_ok.1 parsed
    rw [← List.length_map Token.sign] at left
    exact parseTokens_ok.2 ((sides last).1 found target run
      (Stream.signs_of_drop left (Parser.quiet_behind calm signs).2) done)
  · rintro ⟨found, target, run, left⟩ parsed
    obtain ⟨last, done⟩ := parseTokens_ok.1 parsed
    rw [← List.length_map Token.sign] at left
    exact parseTokens_ok.2 ((sides last).2 found target run (Stream.signs_of_drop left signs') done)

/-- A pattern with a default, whose name moves behind it. -/
theorem parseTokens_alias_default :
    ∃ name sign colon pattern body document,
      tokenize "a.nix" "x @ \x7ba ? b, ...\x7d: a" = .ok (name :: sign :: (pattern ++ colon :: body)) ∧
      parseTokens { maxDepth := 3 } (name :: sign :: (pattern ++ colon :: body)) = .ok document ∧
      parseTokens { maxDepth := 3 } (pattern ++ sign :: name :: colon :: body) = .ok document := by
  have run : ∃ name sign opening param question default comma ellipsis closing colon body last
      document,
      tokenize "a.nix" "x @ \x7ba ? b, ...\x7d: a" = .ok [name, sign, opening, param, question,
        default, comma, ellipsis, closing, colon, body, last] ∧
      (name.kind = .identifier ∧ sign.kind = .atSign ∧ colon.kind = .colon) ∧
      (∀ token ∈ [name, sign, colon, opening, param, question, default, comma, ellipsis, closing,
        body, last], token.Quiet) ∧
      ReadsPattern { maxDepth := 3 } (Stream.ofTokens defaultFile [name, sign, opening, param,
        question, default, comma, ellipsis, closing, colon, body, last]).advance.2.advance.2 7 ∧
      parseTokens { maxDepth := 3 } [name, sign, opening, param, question, default, comma, ellipsis,
        closing, colon, body, last] = .ok document := by
    refine ⟨_, _, _, _, _, _, _, _, _, _, _, _, _, by cbv, ⟨rfl, rfl, rfl⟩, ?_, ?_, by cbv⟩
    · simp [Token.Quiet]
    · exact ⟨_, _, by cbv, by cbv⟩
  obtain ⟨name, sign, opening, param, question, default, comma, ellipsis, closing, colon, body,
    last, document, done, ⟨isName, isSign, isColon⟩, quiet, reads, parsed⟩ := run
  exact ⟨name, sign, colon, [opening, param, question, default, comma, ellipsis, closing],
    [body, last], document, done, parsed, (parseTokens_alias _ name sign colon _ _ document isName
      isSign isColon quiet).1 reads parsed⟩

end NixSyntax
