/-
Module: NixSyntax.Proofs.Foresight
Purpose: The rules that look some tokens ahead, where the fork may be among these tokens.
Main exports: Parser.name_sound, Parser.startsPattern_reads, Parser.braces_sound
-/
import NixSyntax.Proofs.Forked
import NixSyntax.Proofs.Lookahead

namespace NixSyntax

/-!
A rule that decides by tokens further ahead may decide differently for two runs
whose fork is among these tokens.  The run that was sent to read a function
then reads all tokens that were looked at, so it passes the fork.  The other one
has come as far as the fork when it succeeds, and nothing has to be known of it
when it fails, since it is at most refused for what the first run has read.
-/

namespace Parser

open NixSyntax.Stream

variable {α : Type} {source target : Stream} {expr : ExprParser}

/-! ## Tokens that were read -/

theorem Passed.mono {left left' : Nat} {run : EStateM.Result Fault Stream α}
    (passed : Passed left run) (more : left ≤ left') : Passed left' run := by
  cases run with
  | ok value target => exact Nat.le_trans passed more
  | error fault target => exact passed.imp_right fun fewer => fewer.trans more

/-- Reading a token leaves one token less. -/
theorem length_advance (ended : source.Ended) (solid : source.current.kind ≠ .endOfInput) :
    source.signs.length = source.advance.2.signs.length + 1 := by
  rw [signs_advance (upcoming_ne_nil ended solid), List.length_cons]

theorem Leaves.passed {run : EStateM.Result Fault Stream α} (leaves : Leaves True source run) :
    Passed (source.signs.length - 1) run := by
  apply Passed.of_leaves leaves
  rw [length_signs]
  rfl

/-! ## Names -/

section Rules

variable (nested : Reliable expr)

theorem lambda_of_colon (name : source.current.kind = .identifier)
    (colon : (source.peek 1).kind = .colon) : lambda expr source = namedLambda expr source := by
  show (if _ then namedLambda expr else patternLambda expr) source = _
  rw [if_pos ⟨name, colon⟩]

theorem lambda_of_pattern (other : source.current.kind = .identifier → (source.peek 1).kind ≠ .colon) :
    lambda expr source = patternLambda expr source := by
  show (if _ then namedLambda expr else patternLambda expr) source = _
  rw [if_neg fun both => other both.1 both.2]

include nested

/-- Behind a name, the colon or the at sign that was seen is read. -/
theorem lambda_reads_sign (ended : source.Ended) (name : source.current.kind = .identifier)
    (sign : (source.peek 1).kind ∈ [Kind.colon, .atSign]) :
    Passed (source.signs.length - 2) (lambda expr source) := by
  have behind := behind_advance ended
  have endedThen := behind.ended ended
  have next := kind_advance source
  have length := length_advance ended (by rw [name]; decide)
  simp only [List.mem_cons, List.not_mem_nil, or_false] at sign
  rcases sign with colon | atSign
  · rw [lambda_of_colon name colon]
    have rest := (expect_sound .colon (by decide)).andThen ((nested.sound .base).bind fun body =>
      (Sound.pure : Sound 0 Anywhere _ [] id (pure (Expr.bare
        (.lambda source.advance.1.value body)))))
    exact ((rest.leaves source.advance.2 endedThen trivial).mono
      fun _ => next.trans colon).passed.mono (by omega)
  · rw [lambda_of_pattern fun _ => by rw [atSign]; decide]
    have before : wholeBefore source = (expect .atSign >>= fun _ =>
        pure (some source.advance.1.value)) source.advance.2 := by
      unfold wholeBefore
      rw [currentKind_bind, if_pos name]
      rfl
    have sign : Sound 0 Anywhere (· = .atSign) [] id (expect .atSign >>= fun _ =>
        pure (some source.advance.1.value)) := (expect_sound _ (by decide)).andThen .pure
    have passed : Passed (source.signs.length - 2) (wholeBefore source) := by
      rw [before]
      exact ((sign.leaves source.advance.2 endedThen trivial).mono
        fun _ => next.trans atSign).passed.mono (by omega)
    exact passed.bind fun given target run => ((lambdaRest_sound nested given).leaves target
      (wholeBefore_sound.ended ended trivial run) trivial).mono False.elim

theorem lambda_leaves (ended : source.Ended)
    (start : source.current.kind = .identifier ∨ source.current.kind = .curlyOpen) :
    Leaves True source (lambda expr source) := by
  by_cases colon : source.current.kind = .identifier ∧ (source.peek 1).kind = .colon
  · rw [lambda_of_colon colon.1 colon.2]
    exact ((namedLambda_sound nested).leaves source ended trivial).mono
      fun _ => by rw [colon.1]; decide
  · rw [lambda_of_pattern fun name sign => colon ⟨name, sign⟩]
    exact ((patternLambda_sound nested).leaves source ended trivial).mono fun _ => start

omit nested in
theorem name_of_sign (sign : (source.peek 1).kind ∈ [Kind.colon, .atSign]) :
    name expr source = lambda expr source := by
  unfold name
  rw [peekKind_bind]
  simp only [List.mem_cons, List.not_mem_nil, or_false] at sign
  rcases sign with sign | sign <;> rw [sign]

omit nested in
theorem name_of_path (other : (source.peek 1).kind ∉ [Kind.colon, .atSign]) :
    name expr source = (attrPath expr >>= fun path => pure (Expr.bare (.name path))) source := by
  unfold name
  rw [peekKind_bind]
  generalize (source.peek 1).kind = kind at other
  cases kind <;> first | rfl | simp at other

theorem name_sound : Sound 1 (· = .identifier) (fun _ => True) [] id (name expr) := by
  have path : Sound 0 Anywhere (· ∈ [Kind.identifier, .kwOr, .interpOpen, .quoteOpen]) [] id
      (attrPath expr >>= fun path => pure (Expr.bare (.name path))) :=
    (attrPath_sound nested).bind fun _ => .pure
  have path_leaves : ∀ {source : Stream}, source.Ended → source.current.kind = .identifier →
      Leaves True source ((attrPath expr >>= fun path => pure (Expr.bare (.name path))) source) :=
    fun ended name => (path.leaves _ ended trivial).mono fun _ => by rw [name]; decide
  constructor
  · intro source ended named
    by_cases sign : (source.peek 1).kind ∈ [Kind.colon, .atSign]
    · rw [name_of_sign sign]
      exact lambda_leaves nested ended (.inl named)
    · rw [name_of_path sign]
      exact path_leaves ended named
  · intro fork front source source' ahead before named named'
    match front, before with
    | [first], _ =>
        have peek := kind_peek_one ahead.signs
        have peek' := kind_peek_one ahead.signs'
        have length : source.signs.length = fork.behind.length + 2 := by simp [ahead.signs]
        have length' : source'.signs.length = fork.behind'.length + 2 := by simp [ahead.signs']
        by_cases sign : (source.peek 1).kind ∈ [Kind.colon, .atSign]
        · rw [name_of_sign sign]
          exact .gone ((lambda_reads_sign nested ahead.ended named sign).mono (by omega))
        rw [name_of_path sign]
        by_cases sign' : (source'.peek 1).kind ∈ [Kind.colon, .atSign]
        · rw [name_of_sign sign']
          refine .past ?_ ((lambda_reads_sign nested ahead.ended' named' sign').mono (by omega))
          intro value target run
          have leaves := path_leaves ahead.ended named
          rw [run] at leaves
          have fewer := leaves.shorter trivial
          omega
        · rw [name_of_path sign']
          exact path.meets fork [first] source source' ahead (Nat.zero_le _) trivial trivial
    | first :: second :: front, _ =>
        have same : (source'.peek 1).kind = (source.peek 1).kind :=
          (kind_peek_one ahead.signs').trans (kind_peek_one ahead.signs).symm
        by_cases sign : (source.peek 1).kind ∈ [Kind.colon, .atSign]
        · rw [name_of_sign sign, name_of_sign (same ▸ sign)]
          by_cases colon : (source.peek 1).kind = .colon
          · rw [lambda_of_colon named colon, lambda_of_colon named' (same.trans colon)]
            exact (namedLambda_sound nested).meets fork _ source source' ahead (Nat.zero_le _)
              trivial trivial
          · rw [lambda_of_pattern fun _ => colon, lambda_of_pattern fun _ => same ▸ colon]
            exact (patternLambda_sound nested).meets fork _ source source' ahead (Nat.zero_le _)
              trivial trivial
        · rw [name_of_path sign, name_of_path (same ▸ sign)]
          exact path.meets fork _ source source' ahead (Nat.zero_le _) trivial trivial

/-! ## Braces -/

omit nested in
/-- At a brace a function is read from its pattern on. -/
theorem lambda_of_brace (brace : source.current.kind = .curlyOpen) :
    lambda expr source = (Parser.pattern expr >>= fun pattern => wholeAfter none >>= fun whole =>
      expect .colon >>= fun _ => expr .base >>= fun body => pure (Expr.bare
        (.patternLambda pattern.params pattern.isOpen whole pattern.inner body))) source := by
  have other : source.current.kind ≠ .identifier := by rw [brace]; decide
  rw [lambda_of_pattern fun name => absurd name other]
  exact bind_run (wholeBefore_ok.2 (.inr ⟨other, rfl, rfl⟩))

/-- What is read of the pattern is read of the function. -/
theorem lambda_passed (ended : source.Ended) (brace : source.current.kind = .curlyOpen) {left : Nat}
    (passed : Passed left (Parser.pattern expr source)) :
    Passed left (lambda expr source) := by
  rw [lambda_of_brace brace]
  exact passed.bind fun pattern target run => ((behindPattern_sound nested none pattern).leaves
    target ((pattern_sound nested).ended ended trivial run) trivial).mono False.elim

/-- Behind a pattern, the colon or the at sign is read. -/
theorem lambda_reads_behind (ended : source.Ended) (brace : source.current.kind = .curlyOpen)
    {pattern : Pattern} (run : Parser.pattern expr source = .ok pattern target)
    (follows : followsPattern target.current.kind) :
    Passed (target.signs.length - 1) (lambda expr source) := by
  rw [lambda_of_brace brace, bind_run run]
  refine (((behindPattern_sound nested none pattern).leaves target
    ((pattern_sound nested).ended ended trivial run) trivial).mono fun _ => ?_).passed
  revert follows
  cases target.current.kind <;> simp [followsPattern]

omit nested in
/-- A pattern ends with the brace that its parameters end in front of. -/
theorem pattern_of_params (brace : source.current.kind = .curlyOpen) {params : List Param}
    {middle : Stream} (read : many (nextParam expr) source.advance.2 = .ok params middle)
    (ended : middle.Ended) (close : middle.current.kind = .curlyClose) :
    ∃ pattern target, Parser.pattern expr source = .ok pattern target ∧
      target.current.kind = (middle.peek 1).kind ∧
      middle.signs.length = target.signs.length + 1 := by
  have none_open : skip .ellipsis middle = .ok false middle :=
    skip_ok.2 (.inr ⟨by rw [close]; decide, rfl, rfl⟩)
  obtain ⟨comments, last, took⟩ : ∃ comments last, takeBefore middle = .ok comments last :=
    ⟨_, _, rfl⟩
  have same := takeBefore_signs took
  have closing : last.current.kind = .curlyClose := kind_eq_of_signs same ▸ close
  refine ⟨_, _, pattern_ok.2 ⟨brace, params, middle, false, middle, comments, last, read, none_open,
    took, closing, rfl, rfl⟩, ?_, ?_⟩
  · rw [kind_advance, kind_peek_eq same]
  · have endedThen : last.Ended := by rwa [Stream.Ended, ← same]
    rw [same, length_advance endedThen (by rw [closing]; decide)]

/-- A question mark or a comma behind the first name of a pattern is read. -/
theorem pattern_reads_first (ended : source.Ended) (brace : source.current.kind = .curlyOpen)
    (name : source.advance.2.current.kind = .identifier)
    (sign : (source.peek 2).kind = .question ∨ (source.peek 2).kind = .comma) :
    Passed (source.signs.length - 3) (Parser.pattern expr source) := by
  have endedThen := (behind_advance ended).ended ended
  have length := length_advance ended (by rw [brace]; decide)
  obtain ⟨comments, middle, took⟩ : ∃ comments middle,
      takeBefore source.advance.2 = .ok comments middle := ⟨_, _, rfl⟩
  have same := takeBefore_signs took
  have named : middle.current.kind = .identifier := kind_eq_of_signs same ▸ name
  have endedMiddle : middle.Ended := by rwa [Stream.Ended, ← same]
  have lengthThen := length_advance endedMiddle (by rw [named]; decide)
  have found : Parser.param expr source.advance.2 = _ :=
    (bind_run took).trans (bind_run (expect_ok.2 ⟨named, rfl, rfl⟩))
  have first : Passed (source.signs.length - 3) (Parser.param expr source.advance.2) := by
    rw [found]
    refine (((paramRest_sound nested comments _).leaves middle.advance.2
      ((behind_advance endedMiddle).ended endedMiddle) trivial).mono fun _ => ?_).passed.mono ?_
    · rwa [kind_advance, ← kind_peek_eq same, kind_peek_advance]
    · rw [length, same, lengthThen]
      omega
  have step : nextParam expr source.advance.2 =
      (Parser.param expr >>= fun found => pure (some found)) source.advance.2 := by
    unfold nextParam
    rw [currentKind_bind, name]
  have item : Passed (source.signs.length - 3) (nextParam expr source.advance.2) := by
    rw [step]
    exact first.bind fun found target _ => Behind.refl target
  have params : Passed (source.signs.length - 3) (many (nextParam expr) source.advance.2) :=
    item.bind fun found target run => round_leaves (nextParam_sound nested) _ found
      ((nextParam_sound nested).ended endedThen trivial run)
  have opened : Parser.pattern expr source = _ := bind_run (expect_ok.2 ⟨brace, rfl, rfl⟩)
  rw [opened]
  exact params.bind fun params target run => ((patternEnd_sound params).leaves target
    ((params_sound nested).ended endedThen trivial run) trivial).mono False.elim

omit nested in
/-- A name in front of the closing brace is the only parameter. -/
theorem params_of_name (ended : source.Ended) (name : source.current.kind = .identifier)
    (close : (source.peek 1).kind = .curlyClose) :
    ∃ params target, many (nextParam expr) source = .ok params target ∧ target.Ended ∧
      target.current.kind = .curlyClose ∧ (target.peek 1).kind = (source.peek 2).kind ∧
      source.signs.length = target.signs.length + 1 := by
  obtain ⟨comments, middle, took⟩ : ∃ comments middle, takeBefore source = .ok comments middle :=
    ⟨_, _, rfl⟩
  have same := takeBefore_signs took
  have named : middle.current.kind = .identifier := kind_eq_of_signs same ▸ name
  have closing : middle.advance.2.current.kind = .curlyClose := by
    rwa [kind_advance, ← kind_peek_eq same]
  have none_default : paramDefault expr middle.advance.2 = .ok none middle.advance.2 :=
    paramDefault_ok.2 (.inr ⟨by rw [closing]; decide, rfl, rfl⟩)
  obtain ⟨after, target, claimed⟩ : ∃ after target,
      takeUnclaimed middle.advance.2 = .ok after target := ⟨_, _, rfl⟩
  have behind := takeUnclaimed_signs claimed
  have found := param_ok.2 ⟨comments, middle, none, _, _, after, took, named, none_default,
    .inr ⟨closing, rfl⟩, claimed, rfl⟩
  have stops : target.current.kind = .curlyClose := kind_eq_of_signs behind ▸ closing
  have endedMiddle : middle.Ended := by rwa [Stream.Ended, ← same]
  refine ⟨_, target, many_ok.2 (.inr ⟨_, target, [], nextParam_ok.2 (.inr ⟨name, _, found, rfl⟩),
    manyWithin_stop (nextParam_stop (by simp [stops])) _, rfl⟩), ?_, stops, ?_, ?_⟩
  · have endedThen := (behind_advance endedMiddle).ended endedMiddle
    rwa [Stream.Ended, ← behind]
  · rw [← kind_peek_eq behind, kind_peek_advance, kind_peek_eq same]
  · rw [same, length_advance endedMiddle (by rw [named]; decide), behind]

/-- Where a pattern is seen, the tokens that show it are read.  They are at most
three, and if there are three, the first two are a name and the closing
brace. -/
theorem startsPattern_reads (ended : source.Ended) (brace : source.current.kind = .curlyOpen)
    (shown : startsPattern source = true) :
    ∃ distance, (distance ≤ 2 ∨ distance = 3 ∧ (source.peek 1).kind = .identifier ∧
        (source.peek 2).kind = .curlyClose) ∧
      (∀ other : Stream, (∀ near ≤ distance, (other.peek near).kind = (source.peek near).kind) →
        startsPattern other = true) ∧
      Passed (source.signs.length - (distance + 1)) (lambda expr source) := by
  have behind := behind_advance ended
  have endedThen := behind.ended ended
  have length := length_advance ended (by rw [brace]; decide)
  have first := kind_advance source
  have opened : Parser.pattern expr source = _ := bind_run (expect_ok.2 ⟨brace, rfl, rfl⟩)
  unfold startsPattern at shown
  split at shown
  · next ellipsis =>
      refine ⟨1, .inl (by omega), fun other same => ?_, ?_⟩
      · rw [startsPattern, same 1 le_rfl, ellipsis]
      · apply lambda_passed nested ended brace
        rw [opened]
        exact (((patternRest_sound nested).leaves source.advance.2 endedThen trivial).mono
          fun _ => .inr (.inl (first.trans ellipsis))).passed.mono (by omega)
  · next close =>
      refine ⟨2, .inl le_rfl, fun other same => ?_, ?_⟩
      · rw [startsPattern, same 1 (by omega), close, same 2 le_rfl]
        exact shown
      · rw [close] at first
        obtain ⟨pattern, target, run, kind, fewer⟩ := pattern_of_params brace
          (many_stops (nextParam_stop (by simp [first]))) endedThen first
        rw [kind_peek_advance] at kind
        exact (lambda_reads_behind nested ended brace run (kind ▸ shown)).mono (by omega)
  · next name =>
      rw [name] at first
      split at shown
      · next comma =>
          refine ⟨2, .inl le_rfl, fun other same => ?_, ?_⟩
          · rw [startsPattern, same 1 (by omega), name, same 2 le_rfl, comma]
          · exact lambda_passed nested ended brace
              (pattern_reads_first nested ended brace first (.inr comma))
      · next question =>
          refine ⟨2, .inl le_rfl, fun other same => ?_, ?_⟩
          · rw [startsPattern, same 1 (by omega), name, same 2 le_rfl, question]
          · exact lambda_passed nested ended brace
              (pattern_reads_first nested ended brace first (.inl question))
      · next close =>
          refine ⟨3, .inr ⟨rfl, name, close⟩, fun other same => ?_, ?_⟩
          · rw [startsPattern, same 1 (by omega), name, same 2 (by omega), close, same 3 le_rfl]
            exact shown
          · obtain ⟨params, middle, read, endedMiddle, closing, third, fewer⟩ :=
              params_of_name endedThen first ((kind_peek_advance source 1).trans close)
            obtain ⟨pattern, target, run, kind, fewerThen⟩ :=
              pattern_of_params brace read endedMiddle closing
            rw [third, kind_peek_advance] at kind
            exact (lambda_reads_behind nested ended brace run (kind ▸ shown)).mono (by omega)
      · cases shown
  · cases shown

/-- A set is read with both its braces. -/
theorem attrs_shorter (ended : source.Ended) {recursive : Bool} {value : Expr}
    (run : attrs expr recursive source = .ok value target) :
    target.signs.length + 2 ≤ source.signs.length := by
  obtain ⟨opens, entries, inner, middle, read, closes, rfl, -⟩ := attrs_ok.1 run
  have endedThen := (behind_advance ended).ended ended
  have entriesSound : Sound 0 Anywhere _ [.curlyClose] id (bindings expr .curlyClose) :=
    bindings_sound nested (by decide)
  have behind := entriesSound.behind endedThen trivial read
  have length := length_advance ended (by rw [opens]; decide)
  have fewer := behind.length_le
  have lengthThen := length_advance (behind.ended endedThen) (by rw [closes]; decide)
  omega

omit nested in
/-- The kinds ahead are the same up to the fork. -/
theorem kind_peek_ahead {fork : Fork} {front : List Sign} {source source' : Stream}
    (ahead : fork.Ahead front source source') {distance : Nat} (near : distance < front.length) :
    (source'.peek distance).kind = (source.peek distance).kind := by
  have same : some (source'.peek distance).sign = some (source.peek distance).sign := by
    rw [sign_peek, sign_peek, ahead.signs, ahead.signs', List.getElem?_append_left near,
      List.getElem?_append_left near, List.getElem?_eq_getElem near]
    rfl
  exact Token.kind_eq (Option.some.inj same)

omit nested in
theorem braces_of_pattern (shown : startsPattern source = true) :
    braces expr source = lambda expr source := by
  show (if startsPattern source then lambda expr else attrs expr false) source = _
  rw [if_pos shown]

theorem braces_sound : Sound 1 (· = .curlyOpen) (fun _ => True) [] id (braces expr) := by
  have chosen : ∀ source : Stream, braces expr source =
      if startsPattern source then lambda expr source else attrs expr false source := by
    intro source
    show (if _ then lambda expr else attrs expr false) source = _
    split <;> rfl
  have sets := attrs_sound nested false
  constructor
  · intro source ended brace
    rw [chosen]
    split
    · exact lambda_leaves nested ended (.inr brace)
    · exact (sets.leaves source ended trivial).mono fun _ => brace
  · intro fork front source source' ahead before brace brace'
    rw [chosen, chosen]
    have length : source.signs.length = front.length + (fork.behind.length + 1) := by
      rw [ahead.signs, List.length_append, List.length_cons]
    have length' : source'.signs.length = front.length + (fork.behind'.length + 1) := by
      rw [ahead.signs', List.length_append, List.length_cons]
    cases shown : startsPattern source <;> cases shown' : startsPattern source'
    · exact sets.meets fork front source source' ahead (Nat.zero_le _) trivial trivial
    · -- Only the second run was sent to read a function.
      obtain ⟨distance, shape, others, passed⟩ := startsPattern_reads nested ahead.ended' brace' shown'
      have near : front.length ≤ distance := by
        by_contra far
        have same := others source fun near most => (kind_peek_ahead ahead (by omega)).symm
        exact Bool.noConfusion (shown.symm.trans same)
      refine .past (fun value target run => ?_) (passed.mono (by omega))
      have fewer := attrs_shorter nested ahead.ended run
      rcases shape with short | ⟨rfl, name, close⟩
      · omega
      · by_contra most
        have name := (kind_peek_ahead ahead (show 1 < front.length by omega)).symm.trans name
        have close := (kind_peek_ahead ahead (show 2 < front.length by omega)).symm.trans close
        have second := attrs_second name run
        rw [close] at second
        exact absurd second (by decide)
    · -- Only the first run was sent to read a function.
      obtain ⟨distance, -, others, passed⟩ := startsPattern_reads nested ahead.ended brace shown
      have near : front.length ≤ distance := by
        by_contra far
        have same := others source' fun near most => kind_peek_ahead ahead (by omega)
        exact Bool.noConfusion (shown'.symm.trans same)
      exact .gone (passed.mono (by omega))
    · have other : ∀ {source : Stream}, source.current.kind = .curlyOpen →
          source.current.kind = .identifier → (source.peek 1).kind ≠ .colon := by
        intro source brace name
        exact absurd (brace.symm.trans name) (by decide)
      rw [if_pos rfl, if_pos rfl, lambda_of_pattern (other brace), lambda_of_pattern (other brace')]
      exact (patternLambda_sound nested).meets fork front source source' ahead (Nat.zero_le _)
        trivial trivial

end Rules

end Parser

end NixSyntax
