/-
Module: NixSyntax.Proofs.Forked
Purpose: The rules of the grammar that look at one token at a time, compared along a fork.
Main exports: Parser.Reliable, Parser.attrPath_sound, Parser.attrs_sound, Parser.letIn_sound,
  Parser.pattern_sound, Parser.patternLambda_sound
-/
import NixSyntax.Proofs.Fork
import NixSyntax.Proofs.Inversion

namespace NixSyntax

namespace Parser

open NixSyntax.Stream

/-! ## Taking comments -/

section Steps

variable {α γ : Type} {least : Nat} {known starts : Kind → Prop} {closes : List Kind}
  {view : α → γ} {next : List Comment → Parser α} {kind : Kind}

namespace Sound

theorem takeBefore (rest : ∀ comments, Sound least known starts closes view (next comments)) :
    Sound least known starts closes view (Parser.takeBefore >>= next) :=
  take (fun _ => ⟨_, _, rfl, rfl⟩) (fun _ => takeBefore_quiet) rest

theorem takeUnclaimed (rest : ∀ comments, Sound least known starts closes view (next comments)) :
    Sound least known starts closes view (Parser.takeUnclaimed >>= next) :=
  take (fun _ => ⟨_, _, rfl, rfl⟩) (fun _ => takeUnclaimed_quiet) rest

theorem takeDetached (rest : ∀ comments, Sound least known starts closes view (next comments)) :
    Sound least known starts closes view (Parser.takeDetached >>= next) :=
  take (fun _ => ⟨_, _, rfl, rfl⟩) (fun _ => takeDetached_quiet) rest

theorem takeAfter (rest : ∀ comments, Sound least known starts closes view (next comments)) :
    Sound least known starts closes view (Parser.takeAfter >>= next) := by
  refine take (fun source => ?_) (fun _ => takeAfter_quiet) rest
  rw [takeAfter_eq]
  split <;> exact ⟨_, _, rfl, rfl⟩

end Sound

theorem advance_at (solid : kind ≠ .endOfInput) :
    Sound 1 (· = kind) starts [] Token.sign advance :=
  advance_sound.at_kind (Nat.zero_le 1) fun _ => solid

end Steps

/-! ## Rules without nested expressions -/

/-- What a rule around expressions may rely on. -/
structure Reliable (expr : ExprParser) : Prop where
  sound : ∀ power, Sound 0 Anywhere (· ∈ Kind.expressionStart) [] id (expr power)
  refuses : ∀ power (source : Stream), source.current.kind ∉ Kind.expressionStart →
    Refuses (· ∈ Kind.expressionStart) (expr power) source

/-- An expression that is read starts as one. -/
theorem Reliable.starts {expr : ExprParser} (nested : Reliable expr) {power : Power}
    {source target : Stream} {value : Expr} (run : expr power source = .ok value target) :
    source.current.kind ∈ Kind.expressionStart := by
  by_contra other
  obtain ⟨fault, stopped, failed, -⟩ := nested.refuses power source other
  rw [run] at failed
  cases failed

section Rules

variable {expr : ExprParser} (nested : Reliable expr)

include nested

/-! ## Strings and attribute paths -/

theorem interpolated_sound :
    Sound 0 Anywhere (· = .interpOpen) [] id (interpolated expr) := by
  apply (expect_sound _ (by decide)).andThen
  apply (nested.sound _).bind
  intro value
  apply (expect_sound _ (by decide)).andThen
  exact .pure

theorem stringPart_sound {close : Kind} (closing : close ∈ [Kind.quoteClose, .indentClose]) :
    Sound 0 Anywhere (· ∈ [Kind.fragment, .interpOpen]) [close] id (stringPart expr close) := by
  apply Sound.choose
  intro kind
  split
  · apply Sound.Branch.reads (by decide)
    apply (advance_at (by decide)).bind_sign
    · intro token token' same
      rw [Token.value_eq same]
    · exact fun _ => .pure
  · apply Sound.Branch.reads (by decide)
    apply ((interpolated_sound nested).at_kind (Nat.zero_le 1) fun _ => rfl).bind
    exact fun _ => .pure
  · next text opens =>
      have other : kind ∉ [Kind.fragment, .interpOpen] := by simpa using ⟨text, opens⟩
      split
      · next same => exact .nothing (List.mem_singleton.2 same) other
      · next differs =>
          refine .unexpected other (by simpa using differs) ?_ (List.cons_ne_nil _ _) ?_
          · simp
          · simp only [List.mem_cons, List.not_mem_nil, or_false] at closing
            rcases closing with rfl | rfl <;> decide

theorem stringLiteral_sound :
    Sound 0 Anywhere (· ∈ [Kind.quoteOpen, .indentOpen]) [] id (stringLiteral expr) := by
  apply (expectOneOf_sound _ (List.cons_ne_nil _ _) (by decide)).bind_sign
  · intro token token' same
    simp only [Token.kind_eq same]
  · intro opening
    dsimp only
    generalize known : (if opening.kind == .indentOpen then Kind.indentClose else .quoteClose) = close
    have closing : close ∈ [Kind.quoteClose, .indentClose] := by
      rw [← known]
      split <;> simp
    have parts : Sound 0 Anywhere (· ∈ [Kind.fragment, .interpOpen]) [close] id
        (many (stringPart expr close)) := by
      apply many_sound (stringPart_sound nested closing)
      · intro source item target run
        rcases stringPart_ok.1 run with ⟨text, -⟩ | ⟨_, inner, -⟩ | ⟨-, -, -, ⟨⟩, -⟩
        · simp [text]
        · simp [(interpolated_ok.1 inner).1]
      · rintro _ member source rfl
        refine stringPart_ok.2 (.inr (.inr ⟨?_, ?_, by simpa using member, rfl, rfl⟩)) <;>
          · intro other
            rw [← List.mem_singleton.1 member, other] at closing
            simp at closing
    apply parts.bind_close
    · intro found
      apply advance_sound.andThen
      exact .pure
    · intro kind member
      rw [List.mem_singleton.1 member]
      left
      rintro rfl
      simp at closing

theorem segment_branches :
    Sound.Branches (· ∈ [Kind.identifier, .kwOr, .interpOpen, .quoteOpen]) [] id
      (segment expr) := by
  refine ⟨_, rfl, fun kind => ?_⟩
  have word : ∀ {kind : Kind}, kind ∈ [Kind.identifier, .kwOr] →
      Sound.Branch (· ∈ [Kind.identifier, .kwOr, .interpOpen, .quoteOpen]) [] id kind
        (advance >>= fun token => pure (Segment.name token.value)) := by
    intro kind member
    refine .reads (List.mem_append_left [Kind.interpOpen, .quoteOpen] member) ?_
    apply (advance_at (by rintro rfl; simp at member)).bind_sign
    · intro token token' same
      rw [Token.value_eq same]
    · exact fun _ => .pure
  split
  · exact word (by decide)
  · exact word (by decide)
  · apply Sound.Branch.reads (by decide)
    exact ((interpolated_sound nested).at_kind (Nat.zero_le 1) fun _ => rfl).bind fun _ => .pure
  · apply Sound.Branch.reads (by decide)
    exact ((stringLiteral_sound nested).at_kind (Nat.zero_le 1) fun _ => by decide).bind
      fun _ => .pure
  · next name word computed quoted =>
      refine .unexpected (by simpa using ⟨name, word, computed, quoted⟩) List.not_mem_nil ?_
        (List.cons_ne_nil _ _) (by decide)
      simp

theorem segment_sound :
    Sound 0 Anywhere (· ∈ [Kind.identifier, .kwOr, .interpOpen, .quoteOpen]) [] id
      (segment expr) :=
  (segment_branches nested).sound

theorem dottedSegment_sound : Sound 0 Anywhere (· = .dot) [] id (dottedSegment expr) := by
  apply (skip_sound _ (by decide)).bind
  rintro (_ | _)
  · exact .pure
  · exact (segment_sound nested).some.lax

theorem attrPath_sound :
    Sound 0 Anywhere (· ∈ [Kind.identifier, .kwOr, .interpOpen, .quoteOpen]) [] id
      (attrPath expr) := by
  have dotted : Sound 0 Anywhere (· = .dot) [] id (many (dottedSegment expr)) := by
    apply many_sound (dottedSegment_sound nested) _ nofun
    intro source item target run
    rcases dottedSegment_ok.1 run with ⟨dot, -⟩ | ⟨-, ⟨⟩, -⟩
    exact dot
  apply (segment_sound nested).bind
  intro first
  apply dotted.bind
  exact fun _ => .pure

/-! ## Entries of sets and of `let` -/

theorem assignment_sound (comments : List Comment) :
    Sound 0 Anywhere (· ∈ [Kind.identifier, .kwOr, .interpOpen, .quoteOpen]) [] id
      (assignment expr comments) := by
  apply (attrPath_sound nested).bind
  intro path
  apply (expect_sound _ (by decide)).andThen
  apply (nested.sound _).bind
  intro value
  apply (expect_sound _ (by decide)).andThen
  apply Sound.takeUnclaimed
  exact fun _ => .pure

theorem inheritSource_sound :
    Sound 0 Anywhere (· = .parenOpen) [] id (inheritSource expr) := by
  apply (skip_sound _ (by decide)).bind
  rintro (_ | _)
  · exact .pure
  · apply Sound.lax
    apply (nested.sound _).bind
    intro origin
    apply (expect_sound _ (by decide)).andThen
    exact .pure

theorem inheritedName_sound :
    Sound 0 Anywhere (· ∈ [Kind.identifier, .kwOr, .interpOpen, .quoteOpen]) [.semicolon] id
      (inheritedName expr) := by
  apply Sound.choose
  intro kind
  split
  · next same => exact .nothing (List.mem_singleton.2 same) (by rw [same]; decide)
  · next differs =>
      refine .item (segment_sound nested) (fun source other => ?_) (by simpa using differs)
      exact ((segment_branches nested).refused other List.not_mem_nil).mono fun kind =>
        (·.resolve_right List.not_mem_nil)

theorem inheritance_sound (comments : List Comment) :
    Sound 0 Anywhere (· = .kwInherit) [] id (inheritance expr comments) := by
  have names : Sound 0 Anywhere (· ∈ [Kind.identifier, .kwOr, .interpOpen, .quoteOpen])
      [.semicolon] id (many (inheritedName expr)) := by
    apply many_sound (inheritedName_sound nested)
    · intro source item target run
      rcases inheritedName_ok.1 run with ⟨-, ⟨⟩, -⟩ | ⟨-, found, read, -⟩
      rcases segment_ok.1 read with ⟨word, -⟩ | ⟨_, inner, -⟩ | ⟨quote, -⟩
      · exact List.mem_append_left [Kind.interpOpen, .quoteOpen] word
      · simp [(interpolated_ok.1 inner).1]
      · simp [quote]
    · intro kind member source same
      exact inheritedName_ok.2 (.inl ⟨same.trans (List.mem_singleton.1 member), rfl, rfl⟩)
  apply (expect_sound _ (by decide)).andThen
  apply (inheritSource_sound nested).bind
  intro origin
  apply (segment_sound nested).bind
  intro first
  apply names.bind_close
  · intro others
    apply advance_sound.andThen
    apply Sound.takeUnclaimed
    exact fun _ => .pure
  · intro kind member
    rw [List.mem_singleton.1 member]
    exact .inl (by decide)

theorem binding_branches {close : Kind} (closing : close ∈ [Kind.curlyClose, .kwIn]) :
    Sound.Branches (· ∈ Kind.bindingStart) [close] id (binding expr close) := by
  have outside : close ∉ Kind.bindingStart := by
    simp only [List.mem_cons, List.not_mem_nil, or_false] at closing
    rcases closing with rfl | rfl <;> decide
  refine ⟨_, rfl, fun kind => ?_⟩
  split
  · next same => exact .nothing (List.mem_singleton.2 same) (same ▸ outside)
  split
  · next differs start =>
      apply Sound.Branch.reads start
      apply Sound.takeBefore
      intro comments
      split
      · next inherits =>
          exact ((inheritance_sound nested comments).at_kind (Nat.zero_le 1)
            fun _ => inherits).some
      · next other =>
          apply Sound.some
          apply (assignment_sound nested comments).at_kind (Nat.zero_le 1)
          rw [Kind.bindingStart] at start
          simp only [List.mem_cons, List.not_mem_nil, or_false] at start ⊢
          tauto
  · next differs other =>
      refine .unexpected other (by simpa using differs) ?_ (List.cons_ne_nil _ _) ?_
      · intro kind member
        exact (List.mem_cons.1 member).symm.imp_right List.mem_singleton.2
      · simp only [List.mem_cons, List.not_mem_nil, or_false] at closing
        rcases closing with rfl | rfl <;> decide

/-- In front of the closing token the entries end. -/
theorem bindings_sound {close : Kind} (closing : close ∈ [Kind.curlyClose, .kwIn]) :
    Sound 0 Anywhere (· ∈ Kind.bindingStart) [close] id (bindings expr close) := by
  have entries : Sound 0 Anywhere (· ∈ Kind.bindingStart) [close] id (many (binding expr close)) := by
    apply many_sound (binding_branches nested closing).sound
    · intro source item target run
      rcases binding_ok.1 run with ⟨-, ⟨⟩, -⟩ | ⟨-, start, -⟩
      exact start
    · intro kind member source same
      exact binding_ok.2 (.inl ⟨same.trans (List.mem_singleton.1 member), rfl, rfl⟩)
  apply entries.bind_close
  · intro found
    apply Sound.takeBefore
    exact fun _ => .pure
  · exact fun kind member => .inr ⟨member, fun found source _ => ⟨_, _, rfl, rfl⟩⟩

omit nested in
theorem bindings_keeps {close : Kind} : Keeps close (bindings expr close) := by
  intro source same
  have none_left : many (binding expr close) source = .ok [] source :=
    many_stops (binding_ok.2 (.inl ⟨same, rfl, rfl⟩))
  exact ⟨_, _, bindings_ok.2 ⟨source, none_left, rfl⟩, rfl⟩

theorem bindings_refused {close : Kind} (closing : close ∈ [Kind.curlyClose, .kwIn])
    {source : Stream} (other : source.current.kind ∉ close :: Kind.bindingStart) :
    Refuses (fun kind => kind ∈ Kind.bindingStart ∨ kind ∈ [close]) (bindings expr close)
      source := by
  rw [List.mem_cons, not_or] at other
  have first := (binding_branches nested closing).refused other.2 (by simpa using other.1)
  have all : Refuses _ (many (binding expr close)) source := first.bind
  exact all.bind

theorem attrs_sound (recursive : Bool) :
    Sound 0 Anywhere (· = .curlyOpen) [] id (attrs expr recursive) := by
  apply (expect_sound _ (by decide)).andThen
  apply (bindings_sound nested (by decide)).bind_close
  · intro found
    apply (expect_sound _ (by decide)).andThen
    exact .pure
  · exact fun kind member => .inl (List.mem_singleton.1 member)

theorem letIn_sound : Sound 0 Anywhere (· = .kwLet) [] id (letIn expr) := by
  apply (expect_sound _ (by decide)).andThen
  suffices tail : Sound 0 Anywhere (fun kind => kind ∈ Kind.bindingStart ∨ kind = .kwIn) [] id _
    from tail.lax
  apply Sound.choose
  intro kind
  split
  · next legacy => exact .rejected (by rw [legacy]; decide) List.not_mem_nil
  · next usual =>
      have body : ∀ found : List Binding × List Comment,
          Sound 0 Anywhere (· = .kwIn) [] id (expect .kwIn >>= fun _ => expr .base >>= fun body =>
            pure (Expr.bare (.letIn found.1 found.2 body))) := by
        intro found
        apply (expect_sound _ (by decide)).andThen
        apply (nested.sound _).bind
        exact fun _ => .pure
      have whole := ((bindings_sound nested (by decide)).bind_close body
        (fun kind member => .inl (List.mem_singleton.1 member))).start_behind
        (by rintro _ rfl; exact bindings_keeps) body
      by_cases start : kind ∈ Kind.bindingStart ∨ kind = .kwIn
      · exact .reads start (whole.at_kind (Nat.zero_le 1) id)
      · refine .refuses start List.not_mem_nil ?_
        rintro source rfl
        rw [or_comm, ← List.mem_cons] at start
        apply ((bindings_refused nested (by decide) start).bind).mono
        intro kind content
        rw [List.mem_singleton] at content
        exact .inl content

/-! ## Functions -/

theorem paramDefault_sound : Sound 0 Anywhere (· = .question) [] id (paramDefault expr) := by
  apply (skip_sound _ (by decide)).bind
  rintro (_ | _)
  · exact .pure
  · exact (nested.sound _).some.lax

omit nested in
/-- A comma is read, and the closing brace is left to be read. -/
theorem separated_sound {α : Type} {finish : Parser α}
    (sound : Sound 0 Anywhere (fun _ => False) [] id finish)
    (keeps : ∀ kind, Keeps kind finish) :
    Sound 0 Anywhere (· = .comma) [.curlyClose] id
      (skip .comma >>= fun comma => if comma = true then finish else
        currentKind >>= fun kind => if kind = Kind.curlyClose then finish else
          (unexpected [Kind.comma, .curlyClose] : Parser PUnit) >>= fun _ => finish) := by
  have choice : (skip .comma >>= fun comma => if comma = true then finish else
        currentKind >>= fun kind => if kind = Kind.curlyClose then finish else
          (unexpected [Kind.comma, .curlyClose] : Parser PUnit) >>= fun _ => finish) =
      (currentKind >>= fun kind => if kind = Kind.comma then advance >>= fun _ => finish else
        if kind = Kind.curlyClose then finish else
          (unexpected [Kind.comma, .curlyClose] : Parser PUnit) >>= fun _ => finish) := by
    funext source
    rw [currentKind_bind]
    by_cases comma : source.current.kind = .comma
    · rw [if_pos comma, bind_run (skip_ok.2 (.inl ⟨comma, rfl, rfl⟩))]
      rfl
    · rw [if_neg comma, bind_run (skip_ok.2 (.inr ⟨comma, rfl, rfl⟩))]
      rfl
  rw [choice]
  apply Sound.choose
  intro kind
  split
  · next comma =>
      exact .reads comma ((advance_at (comma ▸ by decide)).andThen sound.loose)
  split
  · next close =>
      refine .stops (List.mem_singleton.2 close) ?_ (keeps kind)
      apply sound.at_kind (Nat.zero_le 1)
      exact fun comma => absurd (close.symm.trans comma) (by decide)
  · next comma close =>
      refine .refuses comma (by simpa using close) ?_
      rintro source rfl
      exact Refuses.bind (unexpected_refuses (List.cons_ne_nil _ _) (by simpa using ⟨comma, close⟩)
        (by decide) (by simp))

/-- What follows the name of a parameter: its default and its comma. -/
theorem paramRest_sound (before : List Comment) (name : String) :
    Sound 0 Anywhere (fun kind => kind = .question ∨ kind = .comma) [.curlyClose] id
      (paramDefault expr >>= fun default => skip .comma >>= fun comma =>
        if comma = true then takeUnclaimed >>= fun after =>
          pure { name, default, margin := { before, after } : Param } else
        currentKind >>= fun kind => if kind = Kind.curlyClose then takeUnclaimed >>= fun after =>
          pure { name, default, margin := { before, after } : Param } else
        (unexpected [Kind.comma, .curlyClose] : Parser PUnit) >>= fun _ =>
          takeUnclaimed >>= fun after =>
            pure { name, default, margin := { before, after } : Param }) := by
  have finish : ∀ default : Option Expr, Sound 0 Anywhere (fun _ => False) [] id
      (takeUnclaimed >>= fun after =>
        pure { name, default, margin := { before, after } : Param }) := fun default =>
    .takeUnclaimed fun _ => .pure
  have tail := fun default => separated_sound (finish default) fun kind source _ => ⟨_, _, rfl, rfl⟩
  apply ((paramDefault_sound nested).bind tail).start_behind _ tail
  rintro _ rfl source comma
  exact ⟨_, _, paramDefault_ok.2 (.inr ⟨by rw [comma]; decide, rfl, rfl⟩), rfl⟩

theorem param_sound : Sound 0 Anywhere (· = .identifier) [.curlyClose] id (param expr) := by
  apply Sound.takeBefore
  intro before
  apply (expect_sound _ (by decide)).bind_sign
  · intro name name' same
    rw [Token.value_eq same]
  · exact fun name => paramRest_sound nested before name.value

theorem nextParam_sound :
    Sound 0 Anywhere (· = .identifier) [.curlyClose, .ellipsis] id (nextParam expr) := by
  apply Sound.choose
  intro kind
  split
  · exact .nothing (by decide) (by decide)
  · exact .nothing (by decide) (by decide)
  · refine .reads ?_ ?_
    · rfl
    have found := (param_sound nested).bind_close (fun value => (Sound.pure : Sound 0 Anywhere _
      [.curlyClose] id (pure (some value)))) fun kind close =>
        .inr ⟨close, fun value source _ => ⟨_, _, rfl, rfl⟩⟩
    exact found.mono (Nat.zero_le 1) (fun _ _ => trivial) (fun _ _ => id) (by simp)
  · next close ellipsis name =>
      refine .unexpected name (by simpa using ⟨close, ellipsis⟩) ?_ (List.cons_ne_nil _ _)
        (by decide)
      simp

theorem params_sound :
    Sound 0 Anywhere (· = .identifier) [.curlyClose, .ellipsis] id (many (nextParam expr)) := by
  apply many_sound (nextParam_sound nested)
  · intro source item target run
    rcases nextParam_ok.1 run with ⟨-, ⟨⟩, -⟩ | ⟨name, -⟩
    exact name
  · rintro _ member source rfl
    exact nextParam_ok.2 (.inl ⟨member, rfl, rfl⟩)

omit nested in
/-- What follows the parameters of a pattern. -/
theorem patternEnd_sound (params : List Param) :
    Sound 0 Anywhere (fun kind => kind = .ellipsis ∨ kind = .curlyClose) [] id
      (skip .ellipsis >>= fun isOpen => takeBefore >>= fun inner => expect .curlyClose >>= fun _ =>
        pure { params, isOpen, inner : Pattern }) := by
  have closing : ∀ isOpen, Sound 0 Anywhere (· = .curlyClose) [] id
      (takeBefore >>= fun inner => expect .curlyClose >>= fun _ =>
        pure { params, isOpen, inner : Pattern }) := by
    intro isOpen
    apply Sound.takeBefore
    intro inner
    apply (expect_sound _ (by decide)).andThen
    exact .pure
  apply ((skip_sound _ (by decide)).bind closing).start_behind _ closing
  rintro _ rfl source close
  exact ⟨_, _, skip_ok.2 (.inr ⟨by rw [close]; decide, rfl, rfl⟩), rfl⟩

/-- What follows the opening brace of a pattern. -/
theorem patternRest_sound :
    Sound 0 Anywhere (fun kind => kind = .identifier ∨ kind = .ellipsis ∨ kind = .curlyClose) [] id
      (many (nextParam expr) >>= fun params => skip .ellipsis >>= fun isOpen =>
        takeBefore >>= fun inner => expect .curlyClose >>= fun _ =>
          pure { params, isOpen, inner : Pattern }) := by
  have closing : ∀ kind ∈ [Kind.curlyClose, .ellipsis], kind = .ellipsis ∨ kind = .curlyClose := by
    simp [or_comm]
  apply ((params_sound nested).bind_close patternEnd_sound fun kind close =>
    .inl (closing kind close)).start_behind _ patternEnd_sound
  rintro kind ends source rfl
  exact ⟨[], source, many_stops (nextParam_ok.2 (.inl ⟨by simpa [or_comm] using ends, rfl, rfl⟩)),
    rfl⟩

theorem pattern_sound : Sound 0 Anywhere (· = .curlyOpen) [] id (pattern expr) :=
  (expect_sound _ (by decide)).andThen (patternRest_sound nested)

omit nested in
theorem wholeBefore_sound : Sound 0 Anywhere (· = .identifier) [] id wholeBefore := by
  apply Sound.offer
  · rintro _ rfl
    rw [if_pos rfl]
    apply (advance_at (by decide)).bind_sign
    · intro name name' same
      rw [Token.value_eq same]
    · intro name
      apply (expect_sound _ (by decide)).andThen
      exact .pure
  · intro kind other
    rw [if_neg other]

omit nested in
/-- Behind a pattern stands an at sign or a colon.  The at sign is refused if it
has been read on the other side. -/
theorem wholeAfter_sound {given : Option String} {starts : Kind → Prop}
    {next : Option String → Parser Expr}
    (rest : ∀ whole, Sound 0 Anywhere starts [] id (next whole)) :
    Sound 0 Anywhere (fun kind => kind = .colon ∨ kind = .atSign ∧ given = none) [] id
      (wholeAfter given >>= fun whole => expect .colon >>= fun _ => next whole) := by
  have colon : ∀ whole, Sound 0 Anywhere (· = .colon) [] id
      (expect .colon >>= fun _ => next whole) := fun whole =>
    (expect_sound _ (by decide)).andThen (rest whole)
  suffices branches : Sound.Branches _ [] id
      (wholeAfter given >>= fun whole => expect .colon >>= fun _ => next whole) from branches.sound
  refine ⟨fun kind => (if kind = .atSign then _ else _) >>= fun whole =>
    expect .colon >>= fun _ => next whole, rfl, fun kind => ?_⟩
  beta_reduce
  split
  · next sign =>
      split
      · next present =>
          refine .refuses ?_ List.not_mem_nil fun source _ => Refuses.bind ?_
          · simp [sign, Option.isSome_iff_ne_none.1 present]
          · exact ⟨_, source, rfl, rfl, .of_stream source rfl nofun, nofun⟩
      · next absent =>
          apply Sound.Branch.reads (.inr ⟨sign, by simpa using absent⟩)
          apply Sound.bind _ colon
          apply (advance_at (sign ▸ by decide)).andThen
          apply (expectOr_sound _ _ (by decide)).bind_sign
          · intro name name' same
            rw [Token.value_eq same]
          · exact fun _ => .pure
  · next other =>
      by_cases here : kind = .colon
      · refine .reads (.inl here) ?_
        exact (colon given).at_kind (Nat.zero_le 1) fun _ => here
      · refine .refuses (by simp [here, other]) List.not_mem_nil ?_
        rintro source rfl
        have refused := (expect_branches .colon (by decide)).refused here List.not_mem_nil
        exact refused.bind.mono fun kind content =>
          .inl (.inl (content.resolve_right List.not_mem_nil))

/-- What follows a pattern. -/
theorem behindPattern_sound (given : Option String) (pattern : Pattern) :
    Sound 0 Anywhere (fun kind => kind = .colon ∨ kind = .atSign ∧ given = none) [] id
      (wholeAfter given >>= fun whole => expect .colon >>= fun _ => expr .base >>= fun body =>
        pure (Expr.bare
          (.patternLambda pattern.params pattern.isOpen whole pattern.inner body))) := by
  apply wholeAfter_sound
  intro whole
  apply (nested.sound _).bind
  exact fun _ => .pure

/-- What follows the name in front of a pattern. -/
theorem lambdaRest_sound (given : Option String) :
    Sound 0 Anywhere (· = .curlyOpen) [] id
      (Parser.pattern expr >>= fun pattern => wholeAfter given >>= fun whole =>
        expect .colon >>= fun _ => expr .base >>= fun body => pure (Expr.bare
          (.patternLambda pattern.params pattern.isOpen whole pattern.inner body))) :=
  (pattern_sound nested).bind fun pattern => (behindPattern_sound nested given pattern).lax

theorem patternLambda_sound :
    Sound 0 Anywhere (fun kind => kind = .identifier ∨ kind = .curlyOpen) [] id
      (patternLambda expr) := by
  apply (wholeBefore_sound.bind (lambdaRest_sound nested)).start_behind _ (lambdaRest_sound nested)
  rintro _ rfl source brace
  exact ⟨_, _, wholeBefore_ok.2 (.inr ⟨by rw [brace]; decide, rfl, rfl⟩), rfl⟩

theorem namedLambda_sound : Sound 0 Anywhere (· ≠ .endOfInput) [] id (namedLambda expr) := by
  apply advance_sound.bind_sign
  · intro name name' same
    rw [Token.value_eq same]
  · intro name
    apply (expect_sound _ (by decide)).andThen
    apply (nested.sound _).bind
    exact fun _ => .pure

end Rules

end Parser

end NixSyntax
