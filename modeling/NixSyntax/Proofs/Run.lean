/-
Module: NixSyntax.Proofs.Run
Purpose: How a successful run of a parser comes apart into the runs of its steps.
Main exports: Sign, Stream.signs, Parser.bind_ok, Parser.bind_error, Parser.expect_ok, Parser.skip_ok,
  Parser.Repeats, Parser.many_repeats
-/
import NixSyntax.Parser.Document

namespace NixSyntax

/-! ## Reading one token -/

/-- What a parse reads of a token: its kind and what it stands for. -/
structure Sign where
  kind : Kind
  value : String
deriving Repr, Inhabited, DecidableEq

/-- The sign of a token. -/
def Token.sign (token : Token) : Sign :=
  { kind := token.kind, value := token.value }

theorem Token.kind_eq {first second : Token} (same : first.sign = second.sign) :
    first.kind = second.kind :=
  congrArg Sign.kind same

theorem Token.value_eq {first second : Token} (same : first.sign = second.sign) :
    first.value = second.value :=
  congrArg Sign.value same

/-- The signs with the end of the input behind them, if they do not end with
it. -/
def Sign.completed (signs : List Sign) : List Sign :=
  if ∃ sign ∈ signs.getLast?, sign.kind = .endOfInput then signs
  else signs ++ [{ kind := .endOfInput, value := "EOF" }]

@[simp] theorem Token.kind_inFile (file : String) (token : Token) :
    (token.inFile file).kind = token.kind :=
  rfl

namespace Stream

/-- All tokens that are still to be read, the current one first. -/
def tokens (stream : Stream) : List Token :=
  stream.current :: stream.upcoming

/-- The signs of the tokens that are still to be read. -/
def signs (stream : Stream) : List Sign :=
  stream.tokens.map Token.sign

theorem length_signs (stream : Stream) : stream.signs.length = stream.upcoming.length + 1 := by
  simp [signs, tokens]

/-- What a token ahead stands for is known from the signs. -/
theorem sign_peek (stream : Stream) (distance : Nat) :
    some (stream.peek distance).sign =
      (stream.signs[distance]?).or stream.signs.getLast? := by
  rw [signs, List.getElem?_map, List.getLast?_map, tokens, List.getLast?_cons, peek]
  cases (stream.current :: stream.upcoming)[distance]? <;> simp

/-- The kinds of the tokens ahead are known from the signs. -/
theorem kind_peek_eq {first second : Stream} (same : first.signs = second.signs)
    (distance : Nat) : (first.peek distance).kind = (second.peek distance).kind := by
  have signs : some (first.peek distance).sign = some (second.peek distance).sign := by
    rw [sign_peek, sign_peek, same]
  exact Token.kind_eq (Option.some.inj signs)

/-- Reading hands the current token over without its comments. -/
theorem advance_fst (stream : Stream) :
    stream.advance.1 = { stream.current with leading := [], trailing := [] } := by
  unfold advance Unclaimed.consume
  cases stream.upcoming <;> dsimp only <;> split <;> rfl

@[simp] theorem advance_kind (stream : Stream) :
    stream.advance.1.kind = stream.current.kind := by
  rw [advance_fst]

@[simp] theorem advance_value (stream : Stream) :
    stream.advance.1.value = stream.current.value := by
  rw [advance_fst]

/-- Reading goes on to the next token, if there is one. -/
theorem tokens_advance (stream : Stream) :
    stream.advance.2.tokens =
      if stream.upcoming = [] then [stream.advance.1] else stream.upcoming := by
  unfold advance Unclaimed.consume tokens
  cases stream.upcoming <;> simp

@[simp] theorem unclaimed_ofTokens (file : String) (tokens : List Token) :
    (ofTokens file tokens).unclaimed = {} := by
  unfold ofTokens
  split
  · rfl
  · dsimp only
    split <;> rfl

/-- The tokens of a new stream are the given ones, and the end of the input if
they do not end with it. -/
theorem tokens_ofTokens (file : String) (tokens : List Token) :
    ((ofTokens file tokens).tokens = tokens.map (Token.inFile file) ∧
      ∃ last ∈ tokens.getLast?, last.kind = .endOfInput) ∨
    ∃ position, (ofTokens file tokens).tokens =
        tokens.map (Token.inFile file) ++ [Token.endAt position] ∧
      ∀ last ∈ tokens.getLast?, last.kind ≠ .endOfInput := by
  cases tokens with
  | nil => exact .inr ⟨{ offset := 0, file }, rfl, by simp⟩
  | cons token rest =>
      by_cases ends : (rest.getLast?.getD token).kind = .endOfInput
      · left
        simp [ofTokens, Stream.tokens, List.getLast?_cons, ends]
      · right
        refine ⟨((rest.getLast?.getD token).inFile file).span.stop, ?_⟩
        simp [ofTokens, Stream.tokens, List.getLast?_cons, ends]

/-- A new stream depends only on the signs in what it shows of them. -/
theorem signs_ofTokens (file : String) (tokens : List Token) :
    (ofTokens file tokens).signs = Sign.completed (tokens.map Token.sign) := by
  have mapped : (tokens.map (Token.inFile file)).map Token.sign = tokens.map Token.sign := by
    rw [List.map_map]
    rfl
  unfold Sign.completed
  rcases tokens_ofTokens file tokens with ⟨same, last, isLast, atEnd⟩ | ⟨position, longer, missing⟩
  · have ends : ∃ sign ∈ (tokens.map Token.sign).getLast?, sign.kind = .endOfInput := by
      rw [Option.mem_def] at isLast
      rw [List.getLast?_map, isLast]
      exact ⟨last.sign, rfl, atEnd⟩
    rw [if_pos ends, signs, same, mapped]
  · have open_ : ¬ ∃ sign ∈ (tokens.map Token.sign).getLast?, sign.kind = .endOfInput := by
      rintro ⟨sign, isLast, atEnd⟩
      rw [List.getLast?_map, Option.mem_def, Option.map_eq_some_iff] at isLast
      obtain ⟨last, isLast, rfl⟩ := isLast
      exact missing last isLast atEnd
    rw [if_neg open_, signs, longer, List.map_append, mapped]
    rfl

end Stream

namespace Parser

variable {α β : Type} {source target : Stream}

/-! ## Steps

Every inversion is an equivalence: a run succeeds with a result exactly if the
runs it is made of do.  Steps that cannot fail are given by what they return,
so they leave no trace but an equation.
-/

theorem bind_ok {parser : Parser α} {next : α → Parser β} {result : β} :
    (parser >>= next) source = .ok result target ↔
      ∃ value middle, parser source = .ok value middle ∧
        next value middle = .ok result target := by
  show EStateM.bind parser next source = _ ↔ _
  unfold EStateM.bind
  cases parser source <;> simp [and_assoc]

/-- A sequence fails where one of its steps does. -/
theorem bind_error {parser : Parser α} {next : α → Parser β} {fault : Fault} :
    (parser >>= next) source = .error fault target ↔
      parser source = .error fault target ∨ ∃ value middle,
        parser source = .ok value middle ∧ next value middle = .error fault target := by
  show EStateM.bind parser next source = _ ↔ _
  unfold EStateM.bind
  cases parser source <;> simp [and_assoc]

theorem map_ok {parser : Parser α} {f : α → β} {result : β} :
    (f <$> parser) source = .ok result target ↔
      ∃ value, parser source = .ok value target ∧ f value = result := by
  show EStateM.map f parser source = _ ↔ _
  unfold EStateM.map
  cases parser source with
  | ok value middle =>
      constructor
      · rintro ⟨⟩
        exact ⟨value, rfl, rfl⟩
      · rintro ⟨other, ⟨⟩, rfl⟩
        rfl
  | error fault middle => simp

theorem pure_ok {value result : α} :
    (pure value : Parser α) source = .ok result target ↔
      value = result ∧ source = target := by
  show EStateM.Result.ok value source = _ ↔ _
  simp

theorem throw_ok {fault : Fault} {result : α} :
    ¬ (throw fault : Parser α) source = .ok result target := by
  show ¬ EStateM.Result.error fault source = _
  simp

theorem ite_ok {condition : Prop} [Decidable condition] {yes no : Parser α} {result : α} :
    (if condition then yes else no) source = .ok result target ↔
      (condition ∧ yes source = .ok result target) ∨
      (¬ condition ∧ no source = .ok result target) := by
  by_cases holds : condition <;> simp [holds]

theorem get_ok {stream : Stream} :
    (get : Parser Stream) source = .ok stream target ↔ source = stream ∧ source = target :=
  pure_ok

theorem currentKind_ok {kind : Kind} :
    currentKind source = .ok kind target ↔ source.current.kind = kind ∧ source = target :=
  pure_ok

/-- The kind of the current token is known before the run goes on. -/
theorem currentKind_bind {next : Kind → Parser β} :
    (currentKind >>= next) source = next source.current.kind source :=
  rfl

theorem peekKind_ok {distance : Nat} {kind : Kind} :
    peekKind distance source = .ok kind target ↔
      (source.peek distance).kind = kind ∧ source = target :=
  pure_ok

theorem peekKind_bind {distance : Nat} {next : Kind → Parser β} :
    (peekKind distance >>= next) source = next (source.peek distance).kind source :=
  rfl

theorem fail_ok {cause : Cause} {result : α} :
    ¬ (fail cause : Parser α) source = .ok result target :=
  throw_ok

theorem unexpected_ok {expected : List Kind} {result : α} :
    ¬ (unexpected expected : Parser α) source = .ok result target :=
  throw_ok

theorem rejected_ok {reason : String} {result : α} :
    ¬ (rejected reason : Parser α) source = .ok result target :=
  throw_ok

theorem advance_ok {token : Token} :
    advance source = .ok token target ↔
      source.advance.1 = token ∧ source.advance.2 = target :=
  pure_ok

theorem expectOneOf_ok {expected : List Kind} {token : Token} :
    expectOneOf expected source = .ok token target ↔
      source.current.kind ∈ expected ∧ source.advance.1 = token ∧
        source.advance.2 = target := by
  by_cases member : source.current.kind ∈ expected <;>
    simp [expectOneOf, bind_ok, currentKind_ok, member, advance_ok, unexpected_ok, and_assoc]

theorem expect_ok {kind : Kind} {token : Token} :
    expect kind source = .ok token target ↔
      source.current.kind = kind ∧ source.advance.1 = token ∧ source.advance.2 = target := by
  simp [expect, expectOneOf_ok]

theorem expectOr_ok {kind : Kind} {reason : String} {token : Token} :
    expectOr kind reason source = .ok token target ↔
      source.current.kind = kind ∧ source.advance.1 = token ∧ source.advance.2 = target := by
  by_cases same : source.current.kind = kind <;>
    simp [expectOr, bind_ok, currentKind_ok, same, advance_ok, rejected_ok, and_assoc]

theorem skip_ok {kind : Kind} {found : Bool} :
    skip kind source = .ok found target ↔
      (source.current.kind = kind ∧ found = true ∧ source.advance.2 = target) ∨
      (source.current.kind ≠ kind ∧ found = false ∧ source = target) := by
  by_cases same : source.current.kind = kind <;>
    simp [skip, bind_ok, map_ok, currentKind_ok, same, advance_ok, pure_ok, and_assoc,
      and_comm, eq_comm (b := found)]

/-! ## Taking comments -/

theorem takeBefore_ok {comments : List Comment} :
    takeBefore source = .ok comments target ↔
      source.unclaimed.all ++ source.current.leading = comments ∧
        { source with current := { source.current with leading := [] }, unclaimed := {} } =
          target :=
  pure_ok

theorem takeUnclaimed_ok {comments : List Comment} :
    takeUnclaimed source = .ok comments target ↔
      source.unclaimed.all = comments ∧ { source with unclaimed := {} } = target :=
  pure_ok

/-- In front of a token that continues a node, the comments above that token are
taken too. -/
theorem takeAfter_eq :
    takeAfter source =
      if source.current.kind.isFollower then takeBefore source else takeUnclaimed source := by
  have run : takeAfter source =
      .ok (source.unclaimed.after source.current).1
        { source with current := (source.unclaimed.after source.current).2, unclaimed := {} } :=
    rfl
  by_cases follower : source.current.kind.isFollower = true
  · rw [run, Unclaimed.after, if_pos follower, if_pos follower]
    rfl
  · rw [run, Unclaimed.after, if_neg follower, if_neg follower]
    rfl

theorem takeDetached_ok {comments : List Comment} :
    takeDetached source = .ok comments target ↔
      source.current.leading.take source.current.detached = comments ∧
        { source with
          current := { source.current with
            leading := source.current.leading.drop source.current.detached } } = target :=
  pure_ok

/-! ## Repetition

`many` runs for at most as many rounds as tokens are left.  A step that reads a
token whenever it returns something cannot use them all up, so the bound is
never the reason to stop.
-/

/-- The step returns the items one after another and then nothing. -/
inductive Repeats (step : Parser (Option α)) : Stream → List α → Stream → Prop where
  | stop {source target : Stream} (last : step source = .ok none target) :
      Repeats step source [] target
  | more {source middle target : Stream} {item : α} {items : List α}
      (first : step source = .ok (some item) middle)
      (rest : Repeats step middle items target) :
      Repeats step source (item :: items) target

/-- A step that keeps an invariant and reads a token with every item. -/
def Shrinks (invariant : Stream → Prop) (step : Parser (Option α)) : Prop :=
  ∀ source item target, invariant source → step source = .ok (some item) target →
    invariant target ∧ target.upcoming.length < source.upcoming.length

theorem manyWithin_cons_ok {step : Parser (Option α)} {token : Token} {bound : List Token}
    {items : List α} :
    manyWithin step (token :: bound) source = .ok items target ↔
      (step source = .ok none target ∧ items = []) ∨
      ∃ item middle rest, step source = .ok (some item) middle ∧
        manyWithin step bound middle = .ok rest target ∧ items = item :: rest := by
  rw [manyWithin, bind_ok]
  constructor
  · rintro ⟨_ | item, middle, stepped, rest⟩
    · obtain ⟨rfl, rfl⟩ := pure_ok.1 rest
      exact .inl ⟨stepped, rfl⟩
    · obtain ⟨others, last, repeated, finished⟩ := bind_ok.1 rest
      obtain ⟨rfl, rfl⟩ := pure_ok.1 finished
      exact .inr ⟨item, middle, others, stepped, repeated, rfl⟩
  · rintro (⟨stepped, rfl⟩ | ⟨item, middle, rest, stepped, repeated, rfl⟩)
    · exact ⟨none, target, stepped, rfl⟩
    · exact ⟨some item, middle, stepped,
        bind_ok.2 ⟨rest, target, repeated, pure_ok.2 ⟨rfl, rfl⟩⟩⟩

theorem manyWithin_repeats {invariant : Stream → Prop} {step : Parser (Option α)}
    (shrinks : Shrinks invariant step) {bound : List Token} {items : List α}
    (holds : invariant source) (enough : source.upcoming.length < bound.length)
    (run : manyWithin step bound source = .ok items target) :
    Repeats step source items target := by
  induction bound generalizing source items with
  | nil => simp at enough
  | cons token bound ih =>
      rcases manyWithin_cons_ok.1 run with
        ⟨stepped, rfl⟩ | ⟨item, middle, rest, stepped, repeated, rfl⟩
      · exact .stop stepped
      · obtain ⟨kept, shorter⟩ := shrinks _ _ _ holds stepped
        rw [List.length_cons] at enough
        exact .more stepped (ih kept (by omega) repeated)

theorem many_repeats {invariant : Stream → Prop} {step : Parser (Option α)}
    (shrinks : Shrinks invariant step) {items : List α} (holds : invariant source)
    (run : many step source = .ok items target) : Repeats step source items target := by
  obtain ⟨stream, middle, got, repeated⟩ := bind_ok.1 run
  obtain ⟨rfl, rfl⟩ := get_ok.1 got
  exact manyWithin_repeats shrinks holds (by simp) repeated

end Parser

end NixSyntax
