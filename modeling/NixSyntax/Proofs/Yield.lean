/-
Module: NixSyntax.Proofs.Yield
Purpose: Runs on tokens without comments, foretold from the signs of the tokens.
Main exports: Stream.Quiet, Parser.Yields, Parser.Yields.bind, Parser.Yields.advance,
  Parser.YieldsMany, Parser.YieldsMany.many
-/
import NixSyntax.Proofs.Run

namespace NixSyntax

/-!
Where no token has comments, a run depends on the signs of its tokens alone.  A
parser yields a value from given signs if it reads exactly these and returns
that value, whatever the tokens behind them are, except that the kind of the
first of these may be looked at.  Steps are put together in the order in which
a rule makes them, each with the signs that it reads.
-/

/-- The kind of the first sign, or the given kind if there is none. -/
def Sign.leadKind (signs : List Sign) (kind : Kind) : Kind :=
  match signs with
  | [] => kind
  | sign :: _ => sign.kind

@[simp] theorem Sign.leadKind_nil (kind : Kind) : Sign.leadKind [] kind = kind :=
  rfl

@[simp] theorem Sign.leadKind_cons (sign : Sign) (signs : List Sign) (kind : Kind) :
    Sign.leadKind (sign :: signs) kind = sign.kind :=
  rfl

/-- The first of several signs is the first of all if there are some. -/
theorem Sign.leadKind_append (front back : List Sign) (kind : Kind) :
    Sign.leadKind (front ++ back) kind = Sign.leadKind front (Sign.leadKind back kind) := by
  cases front <;> rfl

/-- A token without comments on either side. -/
def Token.Quiet (token : Token) : Prop :=
  token.leading = [] ∧ token.trailing = []

namespace Stream

/-- No token has comments, and none wait to be claimed. -/
structure Quiet (stream : Stream) : Prop where
  tokens : ∀ token ∈ stream.tokens, token.Quiet
  unclaimed : stream.unclaimed = {}

variable {source : Stream} {sign : Sign} {signs : List Sign}

theorem current_sign (known : source.signs = sign :: signs) : source.current.sign = sign :=
  (List.cons.inj known).1

theorem current_kind (known : source.signs = sign :: signs) : source.current.kind = sign.kind :=
  congrArg Sign.kind (current_sign known)

theorem kind_peek_one {more : Sign} (known : source.signs = sign :: more :: signs) :
    (source.peek 1).kind = more.kind := by
  have ahead : some (source.peek 1).sign = some more := by
    rw [sign_peek, known]
    rfl
  exact congrArg Sign.kind (Option.some.inj ahead)

/-- Reading the first of several tokens. -/
theorem Quiet.advance {more : Sign} (quiet : source.Quiet)
    (known : source.signs = sign :: more :: signs) :
    source.advance.2.Quiet ∧ source.advance.2.signs = more :: signs := by
  obtain ⟨leading, trailing⟩ := quiet.tokens _ List.mem_cons_self
  cases upcoming : source.upcoming with
  | nil =>
      rw [Stream.signs, Stream.tokens, upcoming] at known
      cases known
  | cons token rest =>
      have shape : source.advance.2.tokens = token :: rest := by
        rw [tokens_advance, upcoming, if_neg (List.cons_ne_nil token rest)]
      refine ⟨⟨?_, ?_⟩, ?_⟩
      · intro other member
        apply quiet.tokens
        rw [Stream.tokens, upcoming]
        rw [shape] at member
        exact List.mem_cons_of_mem _ member
      · unfold Stream.advance Unclaimed.consume Unclaimed.all
        rw [upcoming, quiet.unclaimed, leading, trailing]
        dsimp only
        split <;> rfl
      · rw [Stream.signs, Stream.tokens, upcoming] at known
        rw [Stream.signs, shape]
        exact (List.cons.inj known).2

/-- Taking comments where there are none changes nothing. -/
theorem Quiet.trim (quiet : source.Quiet) :
    { source with current := { source.current with leading := [] }, unclaimed := {} } = source := by
  have leading := (quiet.tokens _ List.mem_cons_self).1
  have same : { source.current with leading := [] } = source.current := by
    rw [← leading]
  rw [same, ← quiet.unclaimed]

end Stream

namespace Parser

open NixSyntax.Stream

variable {α β : Type} {follow follow' : Kind → Prop} {sign : Sign} {signs signs' : List Sign}
  {value : α} {result : β}

/-! ## Where there are no comments to take -/

section Comments

variable {source : Stream}

theorem takeBefore_quiet (quiet : source.Quiet) : takeBefore source = .ok [] source := by
  refine takeBefore_ok.2 ⟨?_, quiet.trim⟩
  rw [quiet.unclaimed, (quiet.tokens _ List.mem_cons_self).1]
  rfl

theorem takeUnclaimed_quiet (quiet : source.Quiet) : takeUnclaimed source = .ok [] source := by
  refine takeUnclaimed_ok.2 ⟨?_, ?_⟩
  · rw [quiet.unclaimed]
    rfl
  · rw [← quiet.unclaimed]

theorem takeAfter_quiet (quiet : source.Quiet) : takeAfter source = .ok [] source := by
  rw [takeAfter_eq, takeBefore_quiet quiet, takeUnclaimed_quiet quiet, ite_self]

theorem takeDetached_quiet (quiet : source.Quiet) : takeDetached source = .ok [] source := by
  have leading := (quiet.tokens _ List.mem_cons_self).1
  refine takeDetached_ok.2 ⟨?_, ?_⟩
  · rw [leading, List.take_nil]
  · rw [leading, List.drop_nil, ← leading]

end Comments

/-! ## What a parser yields -/

/-- The parser reads tokens with these signs and returns the value, if the kind
of the token behind them is as `follow` says. -/
def Yields (follow : Kind → Prop) (parser : Parser α) (signs : List Sign) (value : α) : Prop :=
  ∀ source next rest, source.Quiet → source.signs = signs ++ next :: rest → follow next.kind →
    ∃ target, parser source = .ok value target ∧ target.Quiet ∧ target.signs = next :: rest

namespace Yields

/-! ## Steps -/

theorem mono {parser : Parser α} (yields : Yields follow parser signs value)
    (weaker : ∀ kind, follow' kind → follow kind) : Yields follow' parser signs value :=
  fun source next rest quiet known follows =>
    yields source next rest quiet known (weaker _ follows)

/-- What may follow does follow. -/
theorem known {parser : Parser α} {kind : Kind} (yields : Yields follow parser signs value)
    (follows : follow kind) : Yields (· = kind) parser signs value :=
  yields.mono fun _ same => same ▸ follows

theorem pure (value : α) : Yields follow (pure value) [] value :=
  fun source _ _ quiet known _ => ⟨source, rfl, quiet, known⟩

/-- Two steps, the second of which starts with what may follow the first. -/
theorem bind {parser : Parser α} {next : α → Parser β}
    (first : Yields follow parser signs value) (rest : Yields follow' (next value) signs' result)
    (meets : ∀ kind, follow' kind → follow (Sign.leadKind signs' kind)) :
    Yields follow' (parser >>= next) (signs ++ signs') result := by
  intro source after others quiet known follows
  rw [List.append_assoc] at known
  have split : signs' ++ after :: others =
      (signs' ++ after :: others).head (by simp) :: (signs' ++ after :: others).tail :=
    (List.cons_head_tail _).symm
  have lead : ((signs' ++ after :: others).head (by simp)).kind =
      Sign.leadKind signs' after.kind := by
    cases signs' <;> rfl
  obtain ⟨middle, run, quietMiddle, knownMiddle⟩ :=
    first source _ _ quiet (split ▸ known) (lead ▸ meets _ follows)
  obtain ⟨target, continued, quietTarget, knownTarget⟩ :=
    rest middle after others quietMiddle (knownMiddle.trans split.symm) follows
  exact ⟨target, bind_ok.2 ⟨value, middle, run, continued⟩, quietTarget, knownTarget⟩

/-- The item of a repetition, if there is one. -/
theorem some {parser : Parser α} (yields : Yields follow parser signs value) :
    Yields follow (parser >>= fun value => Pure.pure (Option.some value)) signs
      (Option.some value) := by
  rw [← List.append_nil signs]
  exact yields.bind (.pure (Option.some value)) fun _ follows => follows

/-- A step may look at the kind of the token that it starts from. -/
theorem currentKind {next : Kind → Parser α}
    (rest : Yields follow (next sign.kind) (sign :: signs) value) :
    Yields follow (currentKind >>= next) (sign :: signs) value := by
  intro source after others quiet known follows
  rw [currentKind_bind, current_kind known]
  exact rest source after others quiet known follows

/-- The same for a step that may start behind all of the signs. -/
theorem currentKind_lead {next : Kind → Parser α}
    (rest : ∀ kind, follow kind →
      Yields (· = kind) (next (Sign.leadKind signs kind)) signs value) :
    Yields follow (Parser.currentKind >>= next) signs value := by
  intro source after others quiet known follows
  have lead : source.current.kind = Sign.leadKind signs after.kind := by
    cases signs <;> exact current_kind known
  rw [currentKind_bind, lead]
  exact rest _ follows source after others quiet known rfl

theorem peekKind_one {next : Kind → Parser α}
    (rest : ∀ kind, follow kind →
      Yields (· = kind) (next (Sign.leadKind signs kind)) (sign :: signs) value) :
    Yields follow (peekKind 1 >>= next) (sign :: signs) value := by
  intro source after others quiet known follows
  have ahead : (source.peek 1).kind = Sign.leadKind signs after.kind := by
    cases signs <;> exact kind_peek_one known
  rw [peekKind_bind, ahead]
  exact rest _ follows source after others quiet known rfl

theorem get {next : Stream → Parser α}
    (rest : ∀ stream after others, stream.signs = signs ++ after :: others → follow after.kind →
      Yields follow (next stream) signs value) :
    Yields follow (MonadState.get >>= next) signs value := by
  intro source after others quiet known follows
  exact rest source after others known follows source after others quiet known follows

theorem advance {next : Token → Parser α}
    (rest : ∀ token, token.sign = sign → Yields follow (next token) signs value) :
    Yields follow (advance >>= next) (sign :: signs) value := by
  intro source after others quiet known follows
  have same : source.advance.1.sign = sign := by
    rw [advance_fst]
    exact current_sign known
  obtain ⟨quietNext, knownNext⟩ : source.advance.2.Quiet ∧
      source.advance.2.signs = signs ++ after :: others := by
    cases signs with
    | nil => exact quiet.advance known
    | cons more signs => exact quiet.advance known
  exact rest _ same source.advance.2 after others quietNext knownNext follows

theorem expectOneOf {expected : List Kind} {next : Token → Parser α}
    (member : sign.kind ∈ expected)
    (rest : ∀ token, token.sign = sign → Yields follow (next token) signs value) :
    Yields follow (expectOneOf expected >>= next) (sign :: signs) value := by
  intro source after others quiet known follows
  obtain ⟨target, run, ends⟩ := advance rest source after others quiet known follows
  obtain ⟨token, middle, read, continued⟩ := bind_ok.1 run
  have found : source.current.kind ∈ expected := by
    rw [current_kind known]
    exact member
  exact ⟨target, bind_ok.2 ⟨token, middle, expectOneOf_ok.2 ⟨found, advance_ok.1 read⟩,
    continued⟩, ends⟩

theorem expect {kind : Kind} {text : String} {next : Token → Parser α}
    (rest : ∀ token, token.sign = ⟨kind, text⟩ → Yields follow (next token) signs value) :
    Yields follow (expect kind >>= next) (⟨kind, text⟩ :: signs) value :=
  expectOneOf List.mem_cons_self rest

theorem skip {kind : Kind} {text : String} {next : Bool → Parser α}
    (rest : Yields follow (next true) signs value) :
    Yields follow (skip kind >>= next) (⟨kind, text⟩ :: signs) value := by
  intro source after others quiet known follows
  obtain ⟨target, run, ends⟩ :=
    advance (fun _ _ => rest) source after others quiet known follows
  obtain ⟨token, middle, read, continued⟩ := bind_ok.1 run
  exact ⟨target, bind_ok.2 ⟨true, middle,
    skip_ok.2 (.inl ⟨current_kind known, rfl, (advance_ok.1 read).2⟩), continued⟩, ends⟩

/-- Nothing is skipped in front of a token of another kind. -/
theorem skip_other {kind : Kind} {next : Bool → Parser α}
    (other : ∀ found, follow found → Sign.leadKind signs found ≠ kind)
    (rest : Yields follow (next false) signs value) :
    Yields follow (Parser.skip kind >>= next) signs value := by
  intro source after others quiet known follows
  have found : source.current.kind ≠ kind := by
    have lead : source.current.kind = Sign.leadKind signs after.kind := by
      cases signs <;> exact current_kind known
    exact lead ▸ other _ follows
  obtain ⟨target, run, ends⟩ := rest source after others quiet known follows
  exact ⟨target, bind_ok.2 ⟨false, source, skip_ok.2 (.inr ⟨found, rfl, rfl⟩), run⟩, ends⟩

/-! ## Taking comments -/

/-- A step that does nothing where there are no comments. -/
theorem idle {step : Parser β} {neutral : β} {next : β → Parser α}
    (idle : ∀ {source : Stream}, source.Quiet → step source = .ok neutral source)
    (rest : Yields follow (next neutral) signs value) :
    Yields follow (step >>= next) signs value := by
  intro source after others quiet known follows
  obtain ⟨target, run, ends⟩ := rest source after others quiet known follows
  exact ⟨target, bind_ok.2 ⟨neutral, source, idle quiet, run⟩, ends⟩

theorem takeBefore {next : List Comment → Parser α} (rest : Yields follow (next []) signs value) :
    Yields follow (takeBefore >>= next) signs value :=
  rest.idle takeBefore_quiet

theorem takeUnclaimed {next : List Comment → Parser α}
    (rest : Yields follow (next []) signs value) :
    Yields follow (takeUnclaimed >>= next) signs value :=
  rest.idle takeUnclaimed_quiet

theorem takeAfter {next : List Comment → Parser α} (rest : Yields follow (next []) signs value) :
    Yields follow (takeAfter >>= next) signs value :=
  rest.idle takeAfter_quiet

theorem takeDetached {next : List Comment → Parser α} (rest : Yields follow (next []) signs value) :
    Yields follow (takeDetached >>= next) signs value :=
  rest.idle takeDetached_quiet

end Yields

/-! ## Repetition -/

/-- The step yields the items one after another and then nothing.  Each item has
a sign of its own, so the tokens do not run out. -/
def YieldsMany (follow : Kind → Prop) (step : Parser (Option α)) (signs : List Sign)
    (items : List α) : Prop :=
  items.length ≤ signs.length ∧
    ∀ source next rest, source.Quiet → source.signs = signs ++ next :: rest → follow next.kind →
      ∃ target, Repeats step source items target ∧ target.Quiet ∧ target.signs = next :: rest

theorem manyWithin_of_repeats {step : Parser (Option α)} {items : List α}
    {source target : Stream} (repeats : Repeats step source items target) {bound : List Token}
    (enough : items.length < bound.length) : manyWithin step bound source = .ok items target := by
  induction repeats generalizing bound with
  | stop last =>
      cases bound with
      | nil => cases enough
      | cons token bound => exact manyWithin_cons_ok.2 (.inl ⟨last, rfl⟩)
  | more first rest ih =>
      cases bound with
      | nil => cases enough
      | cons token bound =>
          exact manyWithin_cons_ok.2 (.inr ⟨_, _, _, first, ih (Nat.lt_of_succ_lt_succ enough), rfl⟩)

namespace YieldsMany

variable {step : Parser (Option α)} {item : α} {items : List α}

theorem nil (stops : Yields follow step [] none) : YieldsMany follow step [] [] := by
  refine ⟨Nat.le_refl 0, ?_⟩
  intro source next rest quiet known follows
  obtain ⟨target, run, ends⟩ := stops source next rest quiet known follows
  exact ⟨target, .stop run, ends⟩

theorem cons (first : Yields follow step signs (some item)) (present : signs ≠ [])
    (rest : YieldsMany follow' step signs' items)
    (meets : ∀ kind, follow' kind → follow (Sign.leadKind signs' kind)) :
    YieldsMany follow' step (signs ++ signs') (item :: items) := by
  obtain ⟨few, rest⟩ := rest
  refine ⟨?_, ?_⟩
  · have some_read := List.length_pos_iff.2 present
    rw [List.length_cons, List.length_append]
    omega
  · intro source after others quiet known follows
    -- The step that reads the first item and the repetition behind it follow one
    -- another like two steps of a rule.
    have both : ∃ middle, step source = .ok (some item) middle ∧ middle.Quiet ∧
        middle.signs = signs' ++ after :: others := by
      rw [List.append_assoc] at known
      cases signs' with
      | nil => exact first source after others quiet known (meets _ follows)
      | cons lead signs' => exact first source lead _ quiet known (meets _ follows)
    obtain ⟨middle, run, quietMiddle, knownMiddle⟩ := both
    obtain ⟨target, repeats, ends⟩ := rest middle after others quietMiddle knownMiddle follows
    exact ⟨target, .more run repeats, ends⟩

/-- A single item. -/
theorem single (only : Yields follow step signs (some item)) (present : signs ≠ [])
    (stops : Yields follow' step [] none) (meets : ∀ kind, follow' kind → follow kind) :
    YieldsMany follow' step signs [item] := by
  rw [← List.append_nil signs]
  exact cons only present (nil stops) meets

theorem many (repeated : YieldsMany follow step signs items) :
    Yields follow (many step) signs items := by
  obtain ⟨few, repeated⟩ := repeated
  intro source next rest quiet known follows
  obtain ⟨target, repeats, ends⟩ := repeated source next rest quiet known follows
  have lengths := congrArg List.length known
  rw [length_signs, List.length_append, List.length_cons] at lengths
  have enough : items.length < (source.current :: source.upcoming).length := by
    rw [List.length_cons]
    omega
  exact ⟨target, bind_ok.2 ⟨source, source, get_ok.2 ⟨rfl, rfl⟩,
    manyWithin_of_repeats repeats enough⟩, ends⟩

end YieldsMany

end Parser

end NixSyntax
