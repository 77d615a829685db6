/-
Module: NixSyntax.Proofs.ParallelRules
Purpose: The rules keep every comparison of two runs.
Main exports: Parser.startRule_parallel, Parser.joinRule_parallel, Parser.opening, Parser.joining,
  Parser.opening_parallel, Parser.joining_parallel, Parser.document_parallel
-/
import NixSyntax.Proofs.Parallel

namespace NixSyntax

/-!
Each rule is walked through once, step by step, with the comparison as a parameter.
The two runs of a rule are given parsers for nested expressions that are compared
behind the first token only, because no rule calls them earlier, except that a
function reads its first argument where it starts itself.
-/

namespace Parser

open Comparison NixSyntax.Stream

variable {C : Comparison} {started : Bool} {held : List Kind} {known : Option Kind}

/-! ## Rules without nested expressions -/

theorem number_run {α : Type} (read : String → Option α) (source : Stream) :
    number read source =
      match read source.current.value with
      | some value => .ok value source.advance.2
      | none => .error (Complaint.badNumber.fault source) source.advance.2 := by
  show (match read source.advance.1.value with
    | some value => (pure value : Parser α)
    | none => throw (Fault.mk (.badNumber source.advance.1.raw) source.position))
      source.advance.2 = _
  rw [advance_fst]
  dsimp only
  cases read source.current.value <;> rfl

section Rules

variable (calm : Calm held)

include calm

theorem number_parallel {α : Type} {kind : Kind} (settles : kind.settle held = some held)
    (solid : kind ≠ .endOfInput) (read : String → Option α) :
    C.Parallel Eq ⟨started, held, some kind⟩ (.behind held) (number read) (number read) := by
  intro source source' near
  obtain rfl := near.2 kind rfl
  have reached := C.advance near.1 solid settles
  rw [number_run, number_run, Token.value_eq (C.sign near.1 solid)]
  split
  · exact .ok rfl ⟨reached, nofun⟩
  · exact .error (C.refuse .badNumber near.1 calm reached List.not_mem_nil)

theorem literal_parallel :
    C.Parallel (C.view.Same Expr.plain) ⟨started, held, known⟩ (.behind held) literal literal := by
  apply Parallel.choose _ (.inl rfl)
  intro kind
  split
  · apply (number_parallel calm rfl (by decide) _).bind
    rintro value _ rfl
    exact .pure (.refl _ _)
  · apply (number_parallel calm rfl (by decide) _).bind
    rintro value _ rfl
    exact .pure (.refl _ _)
  · apply (advance_parallel rfl (by decide)).andThen
    exact .pure (.refl _ _)
  · apply (advance_parallel rfl (by decide)).andThen
    exact .pure (.refl _ _)
  · apply (advance_parallel rfl (by decide)).andThen
    exact .pure (.refl _ _)
  · apply (advance_parallel rfl (by decide)).bind
    rintro token token' ⟨same, -⟩
    rw [Token.value_eq same]
    exact .pure (.refl _ _)
  · exact unexpected_parallel (by decide) calm

theorem wholeBefore_parallel :
    C.Parallel Eq ⟨started, held, none⟩ ⟨started, held, none⟩ wholeBefore wholeBefore := by
  apply Parallel.choose _ (.inl rfl)
  intro kind
  apply Parallel.ite
  · rintro rfl
    apply (advance_parallel rfl (by decide)).bind
    rintro name name' ⟨same, -⟩
    apply (expect_parallel calm rfl (by decide)).receding.andThen
    rw [Token.value_eq same]
    exact .pure rfl
  · intro _
    exact .pure rfl

theorem wholeAfter_parallel (given : Option String) :
    C.Parallel Eq (.behind held) (.behind held) (wholeAfter given) (wholeAfter given) := by
  apply Parallel.choose _ (.inl rfl)
  intro kind
  apply Parallel.ite
  · rintro rfl
    apply Parallel.ite
    · intro _
      exact rejected_parallel calm
    · intro _
      apply (advance_parallel rfl (by decide)).andThen
      apply (expectOr_parallel calm rfl (by decide)).bind
      rintro name name' ⟨same, -⟩
      rw [Token.value_eq same]
      exact .pure rfl
  · intro _
    exact .pure rfl

omit calm in
/-- The end of the input and a parenthesis decide alike what braces hold. -/
theorem startsPattern_eq {source source' : Stream}
    (near : ∀ distance, (source'.peek distance).kind = (source.peek distance).kind ∨
      (source.peek distance).kind = .endOfInput ∧ (source'.peek distance).kind = .parenClose) :
    startsPattern source' = startsPattern source := by
  have follows : ∀ distance, followsPattern (source'.peek distance).kind =
      followsPattern (source.peek distance).kind := by
    intro distance
    rcases near distance with same | ⟨last, closes⟩
    · rw [same]
    · rw [last, closes]
      rfl
  unfold startsPattern
  rw [follows 2, follows 3]
  rcases near 1 with first | ⟨last, closes⟩
  · rcases near 2 with second | ⟨last, closes⟩
    · rw [first, second]
    · rw [first, last, closes]
  · rw [last, closes]

/-! ## Functions -/

variable {expr expr' : ExprParser}
  (nested : ∀ power {held}, Calm held →
    C.Parallel (C.view.Same Expr.plain) (.behind held) (.behind held) (expr power) (expr' power))

include nested

omit calm in
theorem interpolated_parallel :
    C.Parallel (C.view.Same Expr.plain) ⟨started, held, some .interpOpen⟩ (.behind held)
      (interpolated expr) (interpolated expr') := by
  apply (expect_parallel_at rfl (by decide)).andThen
  apply (nested _ calm_interpolation).bind
  intro value value' same
  apply (expect_parallel calm_interpolation rfl (by decide)).andThen
  exact .pure same

omit calm in
/-- The alternative for tokens that are no part of a string is left to the place where
the string stands. -/
theorem stringPart_parallel {close : Kind} (closing : close ∈ [Kind.quoteClose, .indentClose])
    (stray : ∀ kind ∉ [close, .fragment, .interpOpen],
      C.Parallel (C.view.Same (Option.map StringPart.plain)) ⟨true, held, some kind⟩ (.behind held)
        (unexpected [close, .fragment, .interpOpen])
        (unexpected [close, .fragment, .interpOpen])) :
    C.Parallel (C.view.Same (Option.map StringPart.plain)) (.behind held) (.behind held)
      (stringPart expr close) (stringPart expr' close) := by
  apply Parallel.choose
  · intro kind
    split
    · apply (advance_parallel rfl (by decide)).bind
      rintro token token' ⟨same, -⟩
      rw [Token.value_eq same]
      exact .pure (.refl _ _)
    · apply (interpolated_parallel nested).bind
      intro value value' same
      refine .pure (same.map (fun value => some (StringPart.interpolated value)) fun alike => ?_)
      simp [alike]
    · next fragment interpolation =>
        apply Parallel.ite
        · intro _
          exact .pure (.refl _ _)
        · intro other
          apply stray
          simp only [List.mem_cons, List.not_mem_nil, or_false, not_or]
          exact ⟨other, fragment, interpolation⟩
  · simp only [List.mem_cons, List.not_mem_nil, or_false] at closing
    rcases closing with rfl | rfl <;> exact .inl rfl

theorem inheritSource_parallel :
    C.Parallel (C.view.Same (Option.map Expr.plain)) (.behind held) (.behind held)
      (inheritSource expr) (inheritSource expr') := by
  apply (skip_parallel rfl (by decide)).bind
  rintro found _ rfl
  apply Parallel.ite
  · intro _
    apply (nested _ calm).bind
    intro value value' same
    apply (expect_parallel calm rfl (by decide)).andThen
    exact .pure (same.map some (congrArg some))
  · intro _
    exact .pure (.refl _ _)

theorem paramDefault_parallel :
    C.Parallel (C.view.Same (Option.map Expr.plain)) (.behind held) (.behind held)
      (paramDefault expr) (paramDefault expr') := by
  apply (skip_parallel rfl (by decide)).bind
  rintro found _ rfl
  apply Parallel.ite
  · intro _
    exact (nested _ calm).some
  · intro _
    exact .pure (.refl _ _)

theorem param_parallel :
    C.Parallel (C.view.Same Param.plain) (.behind held) (.behind held) (param expr)
      (param expr') := by
  apply (claim_parallel .before).bind
  intro before before' sameBefore
  apply (expect_parallel calm rfl (by decide)).bind
  rintro name name' ⟨sameName, -⟩
  apply (paramDefault_parallel calm nested).bind
  intro default default' sameDefault
  apply (skip_parallel rfl (by decide)).bind
  rintro comma _ rfl
  have finish : C.Parallel (C.view.Same Param.plain) (.behind held) (.behind held)
      (takeUnclaimed >>= fun after => pure ⟨name.value, default, ⟨before, after⟩⟩)
      (takeUnclaimed >>= fun after => pure ⟨name'.value, default', ⟨before', after⟩⟩) := by
    apply (claim_parallel .unclaimed).bind
    intro after after' sameAfter
    rw [Token.value_eq sameName]
    refine .pure (sameDefault.map₃ sameBefore sameAfter
      (fun default before after => Param.mk name'.value default ⟨before, after⟩) ?_)
    intro alike _ _
    rw [Param.plain_mk, Param.plain_mk, alike]
  apply Parallel.ite
  · intro _
    exact finish
  · intro _
    apply Parallel.choose _ (.inl rfl)
    intro kind
    apply Parallel.ite
    · intro _
      exact finish.anywhere
    · intro _
      have fails : C.Parallel Eq ⟨true, held, some kind⟩ (.behind held)
          (unexpected [Kind.comma, .curlyClose] : Parser PUnit)
          (unexpected [Kind.comma, .curlyClose]) := unexpected_parallel (by decide) calm
      exact fails.andThen finish

variable (spells : ∀ power, Spells Expr.spellings (expr power))

include spells

theorem pattern_parallel :
    C.Parallel (C.view.Same fun pattern => (pattern.params.map Param.plain, pattern.isOpen))
      ⟨started, held, known⟩ (.behind held) (pattern expr) (pattern expr') := by
  have params : C.Parallel (C.view.Same (Option.map Param.plain)) (.behind (.curlyOpen :: held))
      (.behind (.curlyOpen :: held)) (nextParam expr) (nextParam expr') := by
    apply Parallel.choose _ (.inl rfl)
    intro kind
    split
    · exact .pure (.refl _ _)
    · exact .pure (.refl _ _)
    · exact (param_parallel calm_braces nested).anywhere.some
    · exact unexpected_parallel (by decide) calm_braces
  apply (expect_parallel calm rfl (by decide)).andThen
  apply (many_parallel params params (roundsShrink_of_spells spells).nextParam).bind
  intro params params' sameParams
  apply (skip_parallel rfl (by decide)).bind
  rintro isOpen _ rfl
  apply (claim_parallel .before).bind
  intro inner inner' sameInner
  apply (expect_parallel calm_braces rfl (by decide)).andThen
  refine .pure (sameParams.map₂ sameInner (fun params inner => Pattern.mk params isOpen inner) ?_)
  intro alike _
  rw [alike]

theorem lambda_parallel :
    C.Parallel (C.view.Same Expr.plain) ⟨started, held, known⟩ (.behind held) (lambda expr)
      (lambda expr') := by
  apply Parallel.choose
  · intro kind
    apply Parallel.peek
    · intro next
      apply Parallel.ite
      · rintro ⟨rfl, -⟩
        apply (advance_parallel rfl (by decide)).bind
        rintro name name' ⟨sameName, -⟩
        apply (expect_parallel calm rfl (by decide)).andThen
        apply (nested _ calm).bind
        intro body body' same
        rw [Token.value_eq sameName]
        refine .pure (same.map (fun body => Expr.bare (.lambda name'.value body)) fun alike => ?_)
        simp [alike]
      · intro _
        apply (wholeBefore_parallel calm).anywhere.bind
        rintro given _ rfl
        apply (pattern_parallel calm nested spells).bind
        intro pattern pattern' samePattern
        apply (wholeAfter_parallel calm given).bind
        rintro whole _ rfl
        apply (expect_parallel calm rfl (by decide)).andThen
        apply (nested _ calm).bind
        intro body body' sameBody
        refine .pure (samePattern.map₂ sameBody (fun pattern body => Expr.bare
          (.patternLambda pattern.params pattern.isOpen whole pattern.inner body)) ?_)
        intro alike alikeBody
        obtain ⟨sameParams, sameOpen⟩ := Prod.mk.inj alike
        simp [sameParams, sameOpen, alikeBody]
    · simp
  · simp

/-! ## Strings and attribute paths -/

omit calm in
/-- Behind its opening quotes a string is read to the quotes that close it. -/
theorem quoted_parallel {opener close : Kind} (string : opener.opensString)
    (closes : opener.closer? = some close) (indented : Bool) :
    C.Parallel (C.view.Same fun result => (result.1, result.2.map StringPart.plain))
      (.behind (opener :: held)) (.behind held)
      (many (stringPart expr close) >>= fun parts => advance >>= fun _ => pure (indented, parts))
      (many (stringPart expr' close) >>= fun parts => advance >>= fun _ =>
        pure (indented, parts)) := by
  have closing : close ∈ [Kind.quoteClose, .indentClose] := by
    cases opener <;> cases string <;> cases closes <;> decide
  have parts : C.Parallel (C.view.Same (Option.map StringPart.plain))
      (.behind (opener :: held)) (.behind (opener :: held)) (stringPart expr close)
      (stringPart expr' close) := by
    apply stringPart_parallel nested closing
    rintro kind other source source' ⟨near, here⟩
    exact .error (C.stray near string closes (here kind rfl ▸ other))
  have all := many_parallel parts parts ((roundsShrink_of_spells spells).stringPart close)
  apply (all.closing fun _ _ _ ended run => (stringParts_reads spells run).2 ended).bind
  intro parts parts' same
  apply (advance_parallel (Kind.settle_closer closes held) (Kind.closer?_ne closes).2.2).andThen
  refine .pure (same.map (fun parts => (indented, parts)) fun alike => ?_)
  rw [alike]

theorem stringLiteral_parallel :
    C.Parallel (C.view.Same fun result => (result.1, result.2.map StringPart.plain))
      ⟨started, held, known⟩ (.behind held) (stringLiteral expr) (stringLiteral expr') := by
  have other : Kind.fragment ∉ [Kind.quoteOpen, .indentOpen] := by decide
  unfold stringLiteral expectOneOf
  rw [bind_assoc, bind_assoc]
  apply Parallel.choose
  · intro kind
    by_cases string : kind ∈ [Kind.quoteOpen, .indentOpen]
    · rw [if_pos string]
      simp only [List.mem_cons, List.not_mem_nil, or_false] at string
      rcases string with rfl | rfl
      · apply (advance_parallel rfl (by decide)).bind
        rintro opening opening' ⟨same, quote⟩
        rw [← Token.kind_eq same, quote]
        exact quoted_parallel nested spells rfl rfl false
      · apply (advance_parallel rfl (by decide)).bind
        rintro opening opening' ⟨same, quote⟩
        rw [← Token.kind_eq same, quote]
        exact quoted_parallel nested spells rfl rfl true
    · rw [if_neg string]
      exact fun source source' near =>
        .error (C.refuse (.unexpected _) near.1 calm near.1 other)
  · exact .inl rfl

theorem segment_parallel :
    C.Parallel (C.view.Same Segment.plain) ⟨started, held, known⟩ (.behind held) (segment expr)
      (segment expr') := by
  apply Parallel.choose _ (.inl rfl)
  intro kind
  split
  · apply (advance_parallel rfl (by decide)).bind
    rintro token token' ⟨same, -⟩
    rw [Token.value_eq same]
    exact .pure (.refl _ _)
  · apply (advance_parallel rfl (by decide)).bind
    rintro token token' ⟨same, -⟩
    rw [Token.value_eq same]
    exact .pure (.refl _ _)
  · apply (interpolated_parallel nested).bind
    intro value value' same
    refine .pure (same.map Segment.computed fun alike => ?_)
    rw [Segment.plain, Segment.plain, alike]
  · apply (stringLiteral_parallel calm nested spells).bind
    intro result result' same
    refine .pure (same.map (fun result => Segment.quoted result.2) fun alike => ?_)
    rw [Segment.plain, Segment.plain]
    exact congrArg Segment.quoted (congrArg Prod.snd alike)
  · exact unexpected_parallel (by decide) calm

theorem attrPath_parallel :
    C.Parallel (C.view.Same (List.map Segment.plain)) ⟨started, held, known⟩ (.behind held)
      (attrPath expr) (attrPath expr') := by
  have dotted : C.Parallel (C.view.Same (Option.map Segment.plain)) (.behind held) (.behind held)
      (dottedSegment expr) (dottedSegment expr') := by
    apply (skip_parallel rfl (by decide)).bind
    rintro found _ rfl
    apply Parallel.ite
    · intro _
      exact (segment_parallel calm nested spells).some
    · intro _
      exact .pure (.refl _ _)
  apply (segment_parallel calm nested spells).bind
  intro first first' sameFirst
  apply (many_parallel dotted dotted (roundsShrink_of_spells spells).dottedSegment).bind
  intro others others' same
  refine .pure (sameFirst.map₂ same List.cons fun alike alikeThen => ?_)
  rw [List.map_cons, List.map_cons, alike, alikeThen]

/-! ## Entries of sets and of `let` -/

theorem assignment_parallel {comments comments' : List Comment}
    (sameComments : C.view.Same unseen comments comments') :
    C.Parallel (C.view.Same Binding.plain) ⟨started, held, known⟩ (.behind held)
      (assignment expr comments) (assignment expr' comments') := by
  apply (attrPath_parallel calm nested spells).bind
  intro path path' samePath
  apply (expect_parallel calm rfl (by decide)).andThen
  apply (nested _ calm).bind
  intro value value' sameValue
  apply (expect_parallel calm rfl (by decide)).andThen
  apply (claim_parallel .unclaimed).bind
  intro after after' sameAfter
  have whole : C.view.Same Expr.plain (value.addAfter after) (value'.addAfter after') := by
    refine sameValue.map₂ sameAfter Expr.addAfter fun alike _ => ?_
    rw [Expr.plain_addAfter, Expr.plain_addAfter, alike]
  refine .pure (samePath.map₃ whole sameComments Binding.assign ?_)
  intro alikePath alike _
  rw [Binding.plain, Binding.plain, alikePath, alike]

theorem inheritance_parallel {comments comments' : List Comment}
    (sameComments : C.view.Same unseen comments comments') :
    C.Parallel (C.view.Same Binding.plain) ⟨started, held, known⟩ (.behind held)
      (inheritance expr comments) (inheritance expr' comments') := by
  have names : C.Parallel (C.view.Same (Option.map Segment.plain)) (.behind held) (.behind held)
      (inheritedName expr) (inheritedName expr') := by
    apply Parallel.choose _ (.inl rfl)
    intro kind
    apply Parallel.ite
    · intro _
      exact .pure (.refl _ _)
    · intro _
      exact (segment_parallel calm nested spells).some
  have closes : ∀ source names target, source.Ended →
      many (inheritedName expr) source = .ok names target → target.current.kind = .semicolon :=
    fun source names target ended run => (inheritedNames_reads spells run).2 ended
  apply (expect_parallel calm rfl (by decide)).andThen
  apply (inheritSource_parallel calm nested).bind
  intro origin origin' sameOrigin
  apply (segment_parallel calm nested spells).bind
  intro first first' sameFirst
  have all := many_parallel names names (roundsShrink_of_spells spells).inheritedName
  apply (all.closing closes).bind
  intro others others' sameOthers
  apply (advance_parallel rfl (by decide)).andThen
  apply (claim_parallel .unclaimed).bind
  intro after after' sameAfter
  have path : C.view.Same (List.map Segment.plain) (first :: others) (first' :: others') := by
    refine sameFirst.map₂ sameOthers List.cons fun alike alikeThen => ?_
    rw [List.map_cons, List.map_cons, alike, alikeThen]
  have margin : C.view.Same unseen (comments ++ after) (comments' ++ after') :=
    sameComments.map₂ sameAfter (· ++ ·) fun _ _ => rfl
  refine .pure (sameOrigin.map₃ path margin Binding.inherit ?_)
  intro alikeOrigin alike _
  rw [Binding.plain_inherit, Binding.plain_inherit, alikeOrigin, alike]

theorem bindings_parallel {close : Kind} (closing : close ∈ [Kind.curlyClose, .kwIn]) :
    C.Parallel (C.view.Same fun result => result.1.map Binding.plain) (.behind held)
      (.behind held) (bindings expr close) (bindings expr' close) := by
  simp only [List.mem_cons, List.not_mem_nil, or_false] at closing
  have step : C.Parallel (C.view.Same (Option.map Binding.plain)) (.behind held) (.behind held)
      (binding expr close) (binding expr' close) := by
    apply Parallel.choose
    · intro kind
      apply Parallel.ite
      · intro _
        exact .pure (.refl _ _)
      · intro _
        apply Parallel.ite
        · intro _
          apply (claim_parallel .before).bind
          intro comments comments' same
          apply Parallel.ite
          · intro _
            exact (inheritance_parallel calm nested spells same).some
          · intro _
            exact (assignment_parallel calm nested spells same).some
        · intro _
          have noText : Kind.fragment ∉ close :: Kind.bindingStart := by
            rcases closing with rfl | rfl <;> decide
          exact unexpected_parallel noText calm
    · rcases closing with rfl | rfl <;> exact .inr ⟨_, rfl⟩
  apply (many_parallel step step ((roundsShrink_of_spells spells).binding close)).bind
  intro entries entries' same
  apply (claim_parallel .before).bind
  intro inner inner' sameInner
  exact .pure (same.map₂ sameInner Prod.mk fun alike _ => alike)

theorem attrs_parallel (recursive : Bool) :
    C.Parallel (C.view.Same Expr.plain) ⟨started, held, known⟩ (.behind held)
      (attrs expr recursive) (attrs expr' recursive) := by
  apply (expect_parallel calm rfl (by decide)).andThen
  apply (bindings_parallel calm_braces nested spells (by decide)).bind
  intro entries entries' same
  apply (expect_parallel calm_braces rfl (by decide)).andThen
  refine .pure (same.map (fun entries => Expr.bare (.attrs recursive entries.1 entries.2))
    fun alike => ?_)
  simp [alike]

theorem letIn_parallel :
    C.Parallel (C.view.Same Expr.plain) ⟨started, held, known⟩ (.behind held) (letIn expr)
      (letIn expr') := by
  apply (expect_parallel calm rfl (by decide)).andThen
  apply Parallel.choose _ (.inl rfl)
  intro kind
  apply Parallel.ite
  · intro _
    exact rejected_parallel calm
  · intro _
    apply (bindings_parallel calm nested spells (by decide)).anywhere.bind
    intro entries entries' sameEntries
    apply (expect_parallel calm rfl (by decide)).andThen
    apply (nested _ calm).bind
    intro body body' sameBody
    refine .pure (sameEntries.map₂ sameBody
      (fun entries body => Expr.bare (.letIn entries.1 entries.2 body)) ?_)
    intro alike alikeBody
    simp [alike, alikeBody]

/-! ## Start rules -/

theorem name_parallel :
    C.Parallel (C.view.Same Expr.plain) ⟨started, held, known⟩ (.behind held) (name expr)
      (name expr') := by
  apply Parallel.peek _ rfl
  intro kind
  split
  · exact lambda_parallel calm nested spells
  · exact lambda_parallel calm nested spells
  · apply (attrPath_parallel calm nested spells).bind
    intro path path' same
    refine .pure (same.map (fun path => Expr.bare (.name path)) fun alike => ?_)
    simp [alike]

theorem braces_parallel :
    C.Parallel (C.view.Same Expr.plain) ⟨started, held, known⟩ (.behind held) (braces expr)
      (braces expr') := by
  intro source source' near
  show C.Ends _ _ ((if startsPattern source then lambda expr else attrs expr false) source)
    ((if startsPattern source' then lambda expr' else attrs expr' false) source')
  rw [startsPattern_eq (C.kind_peek near.1)]
  split
  · exact lambda_parallel calm nested spells source source' near
  · exact attrs_parallel calm nested spells false source source' near

omit spells in
theorem group_parallel :
    C.Parallel (C.view.Same Expr.plain) ⟨started, held, some .parenOpen⟩ (.behind held)
      (group expr) (group expr') := by
  apply (advance_parallel rfl (by decide)).andThen
  apply (nested _ calm).bind
  intro value value' same
  apply (expect_parallel calm rfl (by decide)).andThen
  exact .pure same

theorem list_parallel :
    C.Parallel (C.view.Same Expr.plain) ⟨started, held, some .bracketOpen⟩ (.behind held)
      (list expr) (list expr') := by
  have elements : C.Parallel (C.view.Same (Option.map Expr.plain)) (.behind held) (.behind held)
      (element expr) (element expr') := by
    apply Parallel.choose _ (.inr ⟨_, rfl⟩)
    intro kind
    split
    · exact .pure (.refl _ _)
    · exact unexpected_parallel (by decide) calm
    · exact (nested _ calm).anywhere.some
  have closes : ∀ source items target, source.Ended →
      many (element expr) source = .ok items target → target.current.kind = .bracketClose :=
    fun source items target ended run => (elements_reads spells run).2 ended
  have all := many_parallel elements elements (roundsShrink_of_spells spells).element
  apply (advance_parallel rfl (by decide)).andThen
  apply (all.closing closes).bind
  intro values values' same
  apply (claim_parallel .before).bind
  intro inner inner' sameInner
  apply (advance_parallel rfl (by decide)).andThen
  refine .pure (same.map₂ sameInner (fun values inner => Expr.bare (.list values inner)) ?_)
  intro alike _
  simp [alike]

omit spells in
theorem importing_parallel :
    C.Parallel (C.view.Same Expr.plain) ⟨started, held, some .kwImport⟩ (.behind held)
      (importing expr) (importing expr') := by
  apply (advance_parallel rfl (by decide)).andThen
  apply (nested _ calm).bind
  intro target target' same
  refine .pure (same.map (fun target => Expr.bare (.importing target)) fun alike => ?_)
  simp [alike]

omit spells in
theorem unary_parallel {kind : Kind} (operator : kind ∈ [Kind.dash, .not]) :
    C.Parallel (C.view.Same Expr.plain) ⟨started, held, some kind⟩ (.behind held)
      (unary expr) (unary expr') := by
  have settles : kind.settle held = some held := by
    simp only [List.mem_cons, List.not_mem_nil, or_false] at operator
    rcases operator with rfl | rfl <;> rfl
  have solid : kind ≠ .endOfInput := by
    rintro rfl
    simp at operator
  apply (advance_parallel settles solid).bind
  rintro operator operator' ⟨sameOperator, -⟩
  rw [Token.kind_eq sameOperator]
  apply Parallel.ite
  · intro _
    apply (nested _ calm).bind
    intro operand operand' same
    refine .pure (same.map (fun operand => Expr.bare (.unary .not operand)) fun alike => ?_)
    simp [alike]
  · intro _
    apply (nested _ calm).bind
    intro operand operand' same
    refine .pure (same.map (fun operand => Expr.bare (.unary .negate operand)) fun alike => ?_)
    simp [alike]

omit spells in
theorem conditional_parallel :
    C.Parallel (C.view.Same Expr.plain) ⟨started, held, some .kwIf⟩ (.behind held)
      (conditional expr) (conditional expr') := by
  apply (advance_parallel rfl (by decide)).andThen
  apply (nested _ calm).bind
  intro condition condition' sameCondition
  apply (expect_parallel calm rfl (by decide)).andThen
  apply (nested _ calm).bind
  intro yes yes' sameYes
  apply (expect_parallel calm rfl (by decide)).andThen
  apply (nested _ calm).bind
  intro no no' sameNo
  refine .pure (sameCondition.map₃ sameYes sameNo
    (fun condition yes no => Expr.bare (.conditional condition yes no)) ?_)
  intro alike alikeYes alikeNo
  simp [alike, alikeYes, alikeNo]

omit spells in
theorem clause_parallel {kind : Kind} (word : kind ∈ [Kind.kwWith, .kwAssert]) :
    C.Parallel (C.view.Same Expr.plain) ⟨started, held, some kind⟩ (.behind held)
      (clause expr) (clause expr') := by
  have settles : kind.settle held = some held := by
    simp only [List.mem_cons, List.not_mem_nil, or_false] at word
    rcases word with rfl | rfl <;> rfl
  have solid : kind ≠ .endOfInput := by
    rintro rfl
    simp at word
  apply (advance_parallel settles solid).bind
  rintro word word' ⟨sameWord, -⟩
  apply (nested _ calm).bind
  intro subject subject' sameSubject
  apply (expect_parallel calm rfl (by decide)).andThen
  apply (claim_parallel .unclaimed).bind
  intro comments comments' sameComments
  apply (nested _ calm).bind
  intro body body' sameBody
  rw [Token.kind_eq sameWord]
  refine .pure (sameBody.map₃ sameSubject sameComments (fun body subject comments =>
    body.addClause ⟨if word'.kind = .kwAssert then .assertion else .scope,
      subject.addAfter comments⟩) ?_)
  intro alike alikeSubject _
  simp [alike, alikeSubject]

/-- A start rule is compared from its first token on. -/
theorem startRule_parallel {kind : Kind} {rule : StartRule}
    (start : Grammar.standardStart kind = some rule) :
    C.Parallel (C.view.Same Expr.plain) ⟨started, held, some kind⟩ (.behind held)
      (rule.parse expr) (rule.parse expr') := by
  have opens := standardStart_opens start
  cases rule with
  | literal => exact literal_parallel calm
  | name => exact name_parallel calm nested spells
  | string =>
      apply (stringLiteral_parallel calm nested spells).bind
      intro result result' same
      refine .pure (same.map (fun result => Expr.bare (.string result.1 result.2)) fun alike => ?_)
      obtain ⟨sameIndented, sameParts⟩ := Prod.mk.inj alike
      simp [sameIndented, sameParts]
  | group =>
      obtain rfl : kind = .parenOpen := opens
      exact group_parallel calm nested
  | list =>
      obtain rfl : kind = .bracketOpen := opens
      exact list_parallel calm nested spells
  | importing =>
      obtain rfl : kind = .kwImport := opens
      exact importing_parallel calm nested
  | unary => exact unary_parallel calm nested opens
  | conditional =>
      obtain rfl : kind = .kwIf := opens
      exact conditional_parallel calm nested
  | clause => exact clause_parallel calm nested opens
  | braces => exact braces_parallel calm nested spells
  | recursiveAttrs =>
      apply (expect_parallel calm rfl (by decide)).andThen
      exact attrs_parallel calm nested spells true
  | letIn => exact letIn_parallel calm nested spells
  | lambda => exact lambda_parallel calm nested spells

/-! ## Join rules -/

omit spells in
theorem binary_parallel {fallback : FallbackLevel} {left left' : Expr}
    (sameLeft : C.view.Same Expr.plain left left') (power : Power) :
    C.Parallel (C.view.Same Expr.plain) ⟨started, held, known⟩ (.behind held)
      (binary (.standard fallback) expr left power)
      (binary (.standard fallback) expr' left' power) := by
  apply Parallel.choose _ (.inl rfl)
  intro kind
  split
  · exact unexpected_parallel (by decide) calm
  · next op isOperator =>
      obtain ⟨rfl, -⟩ := ofKind?_kind isOperator
      have settles : op.kind.settle held = some held := by cases op <;> rfl
      have solid : op.kind ≠ .endOfInput := by cases op <;> decide
      apply (advance_parallel settles solid).andThen
      apply (nested _ calm).bind
      intro right right' sameRight
      apply Parallel.choose _ (.inl rfl)
      intro next
      apply Parallel.ite
      · intro _ source source' near
        exact .error (C.refuse .chained near.1 calm near.1 List.not_mem_nil)
      · intro _
        refine .pure (sameLeft.map₂ sameRight
          (fun left right => Expr.bare (.binary op left right)) ?_)
        intro alike alikeRight
        simp [alike, alikeRight]

/-- A join rule reads its operator first.  A function has none in front of its
first argument, and that argument starts where the rule does. -/
theorem joinRule_parallel {fallback : FallbackLevel} {kind : Kind} {operatorPower : Power}
    {rule : JoinRule}
    (first : C.Parallel (C.view.Same Expr.plain) ⟨started, held, none⟩ (.behind held)
      (expr .application) (expr' .application))
    (joins : Grammar.standardJoin fallback kind = some (operatorPower, rule)) {left left' : Expr}
    (sameLeft : C.view.Same Expr.plain left left') (power : Power) :
    C.Parallel (C.view.Same Expr.plain) ⟨started, held, some kind⟩ (.behind held)
      (rule.parse (.standard fallback) expr left power)
      (rule.parse (.standard fallback) expr' left' power) := by
  have opens := standardJoin_opens joins
  cases rule with
  | binary => exact binary_parallel calm nested sameLeft power
  | hasAttr =>
      obtain rfl : kind = .question := opens
      apply (advance_parallel rfl (by decide)).andThen
      apply (attrPath_parallel calm nested spells).bind
      intro path path' same
      refine .pure (sameLeft.map₂ same (fun left path => Expr.bare (.hasAttr left path)) ?_)
      intro alike alikePath
      simp [alike, alikePath]
  | select =>
      obtain rfl : kind = .dot := opens
      apply (advance_parallel rfl (by decide)).andThen
      apply (attrPath_parallel calm nested spells).bind
      intro path path' same
      refine .pure (sameLeft.map₂ same (fun left path => Expr.bare (.select left path)) ?_)
      intro alike alikePath
      simp [alike, alikePath]
  | apply =>
      have member := standardJoin_apply joins
      have solid : kind ≠ .endOfInput := by
        rintro rfl
        simp [Kind.argumentStart] at member
      have here : C.Parallel (C.view.Same (Option.map Expr.plain)) ⟨started, held, some kind⟩
          (.behind held) (argument expr) (argument expr') := by
        apply Parallel.choose_at solid
        rw [if_pos member, if_pos member]
        exact first.anywhere.some
      have again : C.Parallel (C.view.Same (Option.map Expr.plain)) (.behind held) (.behind held)
          (argument expr) (argument expr') := by
        apply Parallel.choose _ (.inl rfl)
        intro found
        apply Parallel.ite
        · intro _
          exact (nested _ calm).anywhere.some
        · intro _
          exact .pure (.refl _ _)
      apply (many_parallel here again (roundsShrink_of_spells spells).argument).bind
      intro arguments arguments' same
      refine .pure (sameLeft.map₂ same (fun left arguments => Expr.bare (.apply left arguments)) ?_)
      intro alike alikeArguments
      simp [alike, alikeArguments]

end Rules

/-! ## Expressions with other parsers inside -/

section Bodies

variable (grammar : Grammar) (expr : ExprParser) (more : Power → Expr → Parser Expr)

/-- The body of `expression`: `expr` reads nested expressions, and `more` goes on
behind the first one. -/
def opening (power : Power) : Parser Expr := do
  let before ← takeBefore
  match grammar.start (← currentKind) with
  | none => unexpected Kind.expressionStart
  | some rule =>
    let first ← rule.parse expr
    let after ← takeAfter
    more power ((first.addBefore before).addAfter after)

/-- The body of `continuation` while there are levels. -/
def joining (power : Power) (left : Expr) : Parser Expr := do
  match grammar.join (← currentKind) with
  | none => return left
  | some (operatorPower, rule) =>
    if power < operatorPower then
      let node ← rule.parse grammar expr left operatorPower
      let after ← takeAfter
      more power (node.addAfter after)
    else return left

end Bodies

theorem expression_succ (grammar : Grammar) (limit levels : Nat) :
    expression grammar limit (levels + 1) =
      opening grammar (expression grammar limit levels) (continuation grammar limit levels) := by
  funext power
  rw [expression]
  rfl

theorem continuation_succ (grammar : Grammar) (limit levels : Nat) :
    continuation grammar limit (levels + 1) =
      joining grammar (expression grammar limit levels) (continuation grammar limit levels) := by
  funext power left
  rw [continuation]
  rfl

section Bodies

variable {fallback : FallbackLevel} {expr expr' : ExprParser}
  {more more' : Power → Expr → Parser Expr} (calm : Calm held)
  (spells : ∀ power, Spells Expr.spellings (expr power))
  (nested : ∀ power {held}, Calm held →
    C.Parallel (C.view.Same Expr.plain) (.behind held) (.behind held) (expr power) (expr' power))
  (goesOn : ∀ power left left', C.view.Same Expr.plain left left' →
    C.Parallel (C.view.Same Expr.plain) (.behind held) (.behind held) (more power left)
      (more' power left'))

include calm spells nested goesOn

theorem opening_parallel (power : Power) :
    C.Parallel (C.view.Same Expr.plain) ⟨started, held, none⟩ (.behind held)
      (opening (.standard fallback) expr more power)
      (opening (.standard fallback) expr' more' power) := by
  apply (claim_parallel .before).bind
  intro before before' sameBefore
  apply Parallel.choose _ (.inl rfl)
  intro kind
  split
  · exact unexpected_parallel (by decide) calm
  · next rule start =>
      apply (startRule_parallel calm nested spells start).bind
      intro first first' same
      apply (claim_parallel .after).bind
      intro after after' sameAfter
      apply goesOn
      apply same.map₃ sameBefore sameAfter fun first before after =>
        (first.addBefore before).addAfter after
      intro alike _ _
      simp [alike]

theorem joining_parallel
    (first : C.Parallel (C.view.Same Expr.plain) ⟨started, held, none⟩ (.behind held)
      (expr .application) (expr' .application))
    (power : Power) {left left' : Expr} (sameLeft : C.view.Same Expr.plain left left') :
    C.Parallel (C.view.Same Expr.plain) ⟨started, held, none⟩ ⟨started, held, none⟩
      (joining (.standard fallback) expr more power left)
      (joining (.standard fallback) expr' more' power left') := by
  apply Parallel.choose _ (.inl rfl)
  intro kind
  split
  · exact .pure sameLeft
  · next operatorPower rule joins =>
      apply Parallel.ite
      · intro _
        apply (joinRule_parallel calm nested spells first joins sameLeft operatorPower).bind
        intro node node' same
        apply (claim_parallel .after).bind
        intro after after' sameAfter
        apply Parallel.receding
        apply goesOn
        apply same.map₂ sameAfter Expr.addAfter
        intro alike _
        simp [alike]
      · intro _
        exact .pure sameLeft

end Bodies

/-! ## Whole expressions -/

section Levels

variable {fallback : FallbackLevel} {limit limit' : Nat} (calm : Calm held)
  (gaveUp : ∀ {pre post : Stage}, Calm pre.held → C.Parallel (C.view.Same Expr.plain) pre post
    (fail (.tooDeep limit)) (fail (.tooDeep limit')))

include calm gaveUp

theorem continuation_zero_parallel (power : Power) {left left' : Expr}
    (sameLeft : C.view.Same Expr.plain left left') :
    C.Parallel (C.view.Same Expr.plain) ⟨started, held, none⟩ ⟨started, held, none⟩
      (continuation (.standard fallback) limit 0 power left)
      (continuation (.standard fallback) limit' 0 power left') := by
  rw [continuation, continuation]
  apply Parallel.choose _ (.inl rfl)
  intro kind
  split
  · exact .pure sameLeft
  · apply Parallel.ite
    · intro _
      exact gaveUp calm
    · intro _
      exact .pure sameLeft

theorem continuation_parallel (levels : Nat)
    (nested : ∀ fewer, fewer < levels → ∀ power {held}, Calm held →
      C.Parallel (C.view.Same Expr.plain) (.behind held) (.behind held)
        (expression (.standard fallback) limit fewer power)
        (expression (.standard fallback) limit' fewer power))
    (power : Power) {left left' : Expr} (sameLeft : C.view.Same Expr.plain left left') :
    C.Parallel (C.view.Same Expr.plain) (.behind held) (.behind held)
      (continuation (.standard fallback) limit levels power left)
      (continuation (.standard fallback) limit' levels power left') := by
  induction levels generalizing power left left' with
  | zero => exact continuation_zero_parallel calm gaveUp power sameLeft
  | succ levels ih =>
      rw [continuation_succ, continuation_succ]
      have inner : ∀ power {held}, Calm held → _ := nested levels (Nat.lt_succ_self levels)
      apply joining_parallel calm (expression_spells fallback limit levels) inner
      · intro power left left' same
        exact ih (fun fewer less => nested fewer (Nat.lt_succ_of_lt less)) power same
      · exact inner .application calm
      · exact sameLeft

/-- Whole expressions keep a comparison if giving up at the limit of depth does. -/
theorem expression_parallel (levels : Nat) (power : Power) :
    C.Parallel (C.view.Same Expr.plain) ⟨started, held, none⟩ (.behind held)
      (expression (.standard fallback) limit levels power)
      (expression (.standard fallback) limit' levels power) := by
  induction levels using Nat.strongRecOn generalizing started held power with
  | ind levels ih =>
      cases levels with
      | zero =>
          rw [expression, expression]
          exact gaveUp calm
      | succ levels =>
          rw [expression_succ, expression_succ]
          apply opening_parallel calm (expression_spells fallback limit levels)
          · intro power held calm
            exact ih levels (Nat.lt_succ_self levels) calm power
          · intro power left left' same
            apply continuation_parallel calm gaveUp levels _ power same
            intro fewer less power held calm
            exact ih fewer (Nat.lt_succ_of_lt less) calm power

end Levels

/-- Only a comparison that never differs in the kinds of tokens goes on to the end of
the input. -/
theorem document_parallel
    (even : ∀ {started : Bool} {held : List Kind} {source source' : Stream},
      C.Near started held source source' → source'.current.kind = source.current.kind)
    {fallback : FallbackLevel} {limit limit' : Nat} (calm : Calm held)
    (read : C.Parallel (C.view.Same Expr.plain) ⟨started, held, none⟩ (.behind held)
      (expression (.standard fallback) limit limit .base)
      (expression (.standard fallback) limit' limit' .base)) :
    C.Parallel (C.view.Same Document.plain) ⟨started, held, none⟩ (.behind held)
      (Parser.document (.standard fallback) limit)
      (Parser.document (.standard fallback) limit') := by
  apply (claim_parallel .detached).bind
  intro before before' sameBefore
  apply read.bind
  intro value value' same source source' near
  rw [currentKind_bind, currentKind_bind, even near.1]
  split
  · apply ((claim_parallel .before).bind _) source source' near
    intro after after' sameAfter
    refine .pure (same.map₃ sameBefore sameAfter
      (fun value before after => Document.mk before value after) ?_)
    intro alike _ _
    rw [Document.plain, Document.plain, alike]
  · exact unexpected_parallel (by decide) calm source source' near

end Parser

end NixSyntax
