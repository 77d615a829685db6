/-
Module: NixSyntax.Proofs.Expected
Purpose: The kinds that a fault names as expected would have been accepted where it lies.
Main exports: RefusedAt, refusedAt_of_parseTokens, parseTokens_expected
-/
import NixSyntax.Proofs.Entire
import NixSyntax.Proofs.NonInterference

namespace NixSyntax

/-!
A refused parse and the parse of the same tokens with another kind at the fault
are two runs that fork there.  Both are first freed of their comments, which
decide nothing but where they go.
-/

/-! ## Tokens without comments -/

namespace Stream

/-- The stream without comments. -/
def hushed (stream : Stream) : Stream where
  current := stream.current.bare
  upcoming := stream.upcoming.map Token.bare

theorem hushed_quiet (stream : Stream) : stream.hushed.Quiet where
  tokens := by
    have each : ∀ token ∈ (stream.tokens.map Token.bare), token.Quiet := by
      intro token member
      obtain ⟨token, -, rfl⟩ := List.mem_map.1 member
      exact ⟨rfl, rfl⟩
    exact each
  unclaimed := rfl

@[simp] theorem signs_hushed (stream : Stream) : stream.hushed.signs = stream.signs := by
  have same : stream.hushed.tokens = stream.tokens.map Token.bare := rfl
  rw [signs, same, List.map_map]
  rfl

theorem ended_hushed {stream : Stream} : stream.hushed.Ended ↔ stream.Ended := by
  rw [Ended, signs_hushed, Ended]

end Stream

namespace Cause

@[simp] theorem expected_outline (cause : Cause) : cause.outline.expected = cause.expected := by
  cases cause <;> rfl

@[simp] theorem kindless_outline (cause : Cause) : cause.outline.kindless = cause.kindless := by
  cases cause <;> rfl

theorem title_of_kindless {cause : Cause} (kindless : cause.kindless = true) :
    cause.title ∉ ["UnexpectedToken", "UnexpectedTokenDetailed", "NonAssociative"] := by
  cases cause with
  | badNumber text => simp [title]
  | tooDeep limit => simp [title]
  | _ => cases kindless

end Cause

/-- Without its comments a stream is refused for the same reason, in front of the
same token. -/
theorem Parser.document_hushed {fallback : FallbackLevel} {limit : Nat} {source target : Stream}
    {fault : Fault} (ended : source.Ended)
    (run : document (.standard fallback) limit source = .error fault target) :
    ∃ fault' target', document (.standard fallback) limit source.hushed = .error fault' target' ∧
      fault'.cause.outline = fault.cause.outline ∧ target'.signs = target.signs := by
  have twins : (Comparison.alike (Stream.SameIndex source source.hushed)).At ⟨false, [], none⟩
      source source.hushed := ⟨⟨.of_signs source.signs_hushed.symm, ended⟩, nofun⟩
  rcases (document_alike fallback limit _ _ twins).of_error run with
    ⟨fault', target', run', outline, -, twin⟩ | ⟨⟨⟩⟩
  exact ⟨fault', target', run', outline.symm, twin.signs.symm⟩

/-- A document that is refused at the fork, in favour of the kind that another
one has there, is not refused there in the other one. -/
theorem Parser.document_fork {fallback : FallbackLevel} {limit : Nat} (fork : Fork)
    {front : List Sign} {source source' target target' : Stream} {fault fault' : Fault}
    (signs : source.signs = front ++ fork.sign :: fork.behind)
    (signs' : source'.signs = front ++ fork.sign' :: fork.behind')
    (run : document (.standard fallback) limit source = .error fault target)
    (run' : document (.standard fallback) limit source' = .error fault' target')
    (here : target.signs.length = fork.behind.length + 1) (named : fault.cause.kindless = false)
    (member : fork.sign'.kind ∈ fault.cause.expected) :
    fault'.cause.kindless = true ∨ target'.signs.length ≤ fork.behind'.length := by
  have ahead : fork.Ahead front source.hushed source'.hushed :=
    ⟨source.hushed_quiet, source'.hushed_quiet, source.signs_hushed.trans signs,
      source'.signs_hushed.trans signs'⟩
  obtain ⟨hushed, stopped, quiet, outline, same⟩ :=
    document_hushed (Stream.ended_hushed.1 ahead.ended) run
  obtain ⟨hushed', stopped', quiet', outline', same'⟩ :=
    document_hushed (Stream.ended_hushed.1 ahead.ended') run'
  rw [← same] at here
  rw [← same', ← Cause.kindless_outline, ← outline', Cause.kindless_outline]
  rw [← Cause.kindless_outline, ← outline, Cause.kindless_outline] at named
  rw [← Cause.expected_outline, ← outline, Cause.expected_outline] at member
  have meets := (document_sound fallback limit).meets fork front source.hushed source'.hushed
    ahead (Nat.zero_le _) trivial trivial
  rw [quiet, quiet'] at meets
  cases meets with
  | gone passed =>
      rcases passed with kindless | fewer
      · exact Bool.noConfusion (kindless.symm.trans named)
      · exact absurd (here ▸ fewer) (Nat.not_succ_le_self _)
  | stuck other => exact absurd member (other here)
  | past _ passed => exact passed

/-! ## Where a parse is refused -/

/-- The parse of the tokens ends with this fault in front of the token of this
index, counting the end of the input that may have been supplied. -/
def RefusedAt (options : Options) (tokens : List Token) (index : Nat) (fault : Fault) : Prop :=
  ∃ target, Parser.document (.standard options.fallback) options.maxDepth
      (.ofTokens options.file tokens) = .error fault target ∧
    target.bare = (Stream.ofTokens options.file tokens).bare.drop index

/-- A parse that fails is refused at one of the tokens.  If the kind of a token
is at fault, the fault lies at this one. -/
theorem refusedAt_of_parseTokens {options : Options} {tokens : List Token} {fault : Fault}
    (failed : parseTokens options tokens = .error fault) :
    ∃ index token, (Stream.ofTokens options.file tokens).tokens[index]? = some token ∧
      RefusedAt options tokens index fault ∧
      (fault.cause.kindless = false → fault.position = token.span.start) ∧
      ∀ expected found shown, fault.cause = .unexpected expected found shown →
        found = token.kind ∧ found.Wanted expected := by
  obtain ⟨target, run, ⟨front, split⟩, fair⟩ := parseTokens_stops failed
  have left : target.bare = (Stream.ofTokens options.file tokens).bare.drop front.length := by
    rw [← split, List.drop_left]
  obtain ⟨token, found, same⟩ : ∃ token,
      (Stream.ofTokens options.file tokens).tokens[front.length]? = some token ∧
        token.bare = target.current.bare := by
    rw [← Option.map_eq_some_iff, ← List.getElem?_map]
    show (Stream.ofTokens options.file tokens).bare[front.length]? = _
    rw [← split, List.getElem?_append_right le_rfl, Nat.sub_self]
    rfl
  refine ⟨front.length, token, found, ⟨target, run, left⟩, fun named => ?_, ?_⟩
  · rw [fair.current named]
    exact congrArg (fun token => token.span.start) same.symm
  · intro expected kind shown cause
    obtain ⟨rfl, wanted⟩ := fair.wanted expected kind shown cause
    exact ⟨(congrArg Token.kind same).symm, wanted⟩

/-! ## Another kind at the fault -/

/-- Behind a token of another kind the tokens still end with the end of the
input, which is supplied if that token stood there. -/
theorem Sign.completed_fork {front behind : List Sign} {sign sign' : Sign}
    (other : sign'.kind ≠ sign.kind)
    (ends : ∃ last ∈ (sign :: behind).getLast?, last.kind = .endOfInput) :
    ∃ behind', completed (front ++ sign' :: behind) = front ++ sign' :: behind' ∧
      ∃ last ∈ behind'.getLast?, last.kind = .endOfInput := by
  cases behind with
  | nil =>
      obtain ⟨_, ⟨⟩, atEnd⟩ := ends
      refine ⟨[{ kind := .endOfInput, value := "EOF" }], ?_, _, rfl, rfl⟩
      rw [completed, if_neg]
      · simp
      · rintro ⟨last, isLast, atEnd'⟩
        rw [List.getLast?_concat] at isLast
        cases isLast
        exact other (atEnd'.trans atEnd.symm)
  | cons next rest =>
      rw [List.getLast?_cons_cons] at ends
      refine ⟨next :: rest, ?_, ends⟩
      rw [completed, if_pos]
      rwa [List.getLast?_append_of_ne_nil _ (List.cons_ne_nil _ _), List.getLast?_cons_cons]

/-- The signs of tokens of which one has been given another kind. -/
theorem Stream.signs_modify (file : String) {stream : Stream} {index : Nat} {token : Token}
    {kind : Kind} (found : stream.tokens[index]? = some token) (ended : stream.Ended)
    (other : kind ≠ token.kind) :
    ∃ front behind behind', front.length = index ∧ stream.signs = front ++ token.sign :: behind ∧
      (ofTokens file (stream.tokens.modify index ({ · with kind }))).signs =
        front ++ { kind, value := token.value } :: behind' ∧
      (∃ last ∈ (token.sign :: behind).getLast?, last.kind = .endOfInput) ∧
      ∃ last ∈ behind'.getLast?, last.kind = .endOfInput := by
  obtain ⟨bound, rfl⟩ := List.getElem?_eq_some_iff.1 found
  rw [List.modify_eq_take_cons_drop bound]
  have split : stream.tokens = stream.tokens.take index ++
      stream.tokens[index] :: stream.tokens.drop (index + 1) := by
    rw [← List.drop_eq_getElem_cons bound, List.take_append_drop]
  have length : (stream.tokens.take index).length = index := List.length_take_of_le bound.le
  generalize stream.tokens[index] = token at split other ⊢
  generalize stream.tokens.take index = front at split length ⊢
  generalize stream.tokens.drop (index + 1) = behind at split ⊢
  have signs : stream.signs = front.map Token.sign ++ token.sign :: behind.map Token.sign := by
    rw [Stream.signs, split, List.map_append, List.map_cons]
  have ends : ∃ last ∈ (token.sign :: behind.map Token.sign).getLast?, last.kind = .endOfInput := by
    rwa [Ended, signs, List.getLast?_append_of_ne_nil _ (List.cons_ne_nil _ _)] at ended
  obtain ⟨behind', completed, ends'⟩ := Sign.completed_fork
    (show ({ kind, value := token.value } : Sign).kind ≠ token.sign.kind from other) ends
  refine ⟨front.map Token.sign, behind.map Token.sign, behind', ?_, signs, ?_, ends, ends'⟩
  · rw [List.length_map, length]
  · rw [signs_ofTokens, List.map_append, List.map_cons]
    exact completed

/-- Each kind that a fault names as expected would have taken the parse further
in place of the one that was found. -/
theorem parseTokens_expected (options : Options) (tokens : List Token) (fault : Fault)
    (expected : List Kind) (found : Kind) (shown : String)
    (failed : parseTokens options tokens = .error fault)
    (cause : fault.cause = .unexpected expected found shown) :
    ∃ index token, RefusedAt options tokens index fault ∧
      (Stream.ofTokens options.file tokens).tokens[index]? = some token ∧
      fault.position = token.span.start ∧ found = token.kind ∧ expected ≠ [] ∧
      found ∉ expected ∧
      ∀ kind ∈ expected, ∀ fault', RefusedAt options
          ((Stream.ofTokens options.file tokens).tokens.modify index ({ · with kind })) index fault' →
        fault'.cause.title ∉ ["UnexpectedToken", "UnexpectedTokenDetailed", "NonAssociative"] := by
  obtain ⟨index, token, stands, refused, place, named⟩ := refusedAt_of_parseTokens failed
  obtain ⟨rfl, wanted⟩ := named expected found shown cause
  refine ⟨index, token, refused, stands, place (by rw [cause]; rfl), rfl, wanted.present,
    wanted.missing, ?_⟩
  intro kind member fault' refused'
  obtain ⟨target, run, left⟩ := refused
  obtain ⟨target', run', left'⟩ := refused'
  have other : kind ≠ token.kind := by
    rintro rfl
    exact wanted.missing member
  obtain ⟨front, behind, behind', rfl, signs, signs', ends, ends'⟩ :=
    Stream.signs_modify options.file stands (Stream.ofTokens_ended options.file tokens) other
  let fork : Fork := ⟨token.sign, behind, ⟨kind, token.value⟩, behind', ends, ends',
    wanted.single kind member⟩
  have here := congrArg List.length (Stream.signs_of_drop left signs)
  have here' := congrArg List.length (Stream.signs_of_drop left' signs')
  rcases Parser.document_fork fork signs signs' run run' here (by rw [cause]; rfl)
    (by rw [cause]; exact member) with kindless | fewer
  · exact Cause.title_of_kindless kindless
  · rw [here'] at fewer
    exact absurd fewer (Nat.not_succ_le_self _)

/-- In a list, an equals sign stands where any expression could start. -/
theorem parseTokens_expected_element :
    ∃ tokens fault, tokenize "a.nix" "[ a = ]" = .ok tokens ∧
      parseTokens { maxDepth := 4 } tokens = .error fault ∧
      fault.cause = .unexpected Kind.expressionStart .assign "`=`" ∧
      ∃ index token, RefusedAt { maxDepth := 4 } tokens index fault ∧
        (Stream.ofTokens defaultFile tokens).tokens[index]? = some token ∧
        ∀ kind ∈ Kind.expressionStart, ∀ fault', RefusedAt { maxDepth := 4 }
            ((Stream.ofTokens defaultFile tokens).tokens.modify index ({ · with kind })) index
            fault' →
          fault'.cause.title ∉ ["UnexpectedToken", "UnexpectedTokenDetailed", "NonAssociative"] := by
  have run : ∃ tokens fault, tokenize "a.nix" "[ a = ]" = .ok tokens ∧
      parseTokens { maxDepth := 4 } tokens = .error fault ∧
      fault.cause = .unexpected Kind.expressionStart .assign "`=`" :=
    ⟨_, _, by cbv, by cbv, by cbv⟩
  obtain ⟨tokens, fault, done, failed, cause⟩ := run
  obtain ⟨index, token, refused, here, -, -, -, -, others⟩ :=
    parseTokens_expected { maxDepth := 4 } tokens fault _ _ _ failed cause
  exact ⟨tokens, fault, done, failed, cause, index, token, refused, here, others⟩

end NixSyntax
