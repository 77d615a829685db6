/-
Module: NixSyntax.Proofs.Parallel
Purpose: Two runs of a parser side by side, for any way in which they are compared.
Main exports: View.Same, Complaint, Comparison, Stage, Comparison.Ends, Comparison.Parallel,
  Comparison.Parallel.bind, Comparison.Parallel.choose, Comparison.Parallel.many, Watch
-/
import NixSyntax.Proofs.Balance
import NixSyntax.Proofs.Plain
import NixSyntax.Proofs.Rounds

namespace NixSyntax

/-!
Several properties of the parser are about two of its runs: a run is compared with
one on tokens with other comments, with one under another limit of depth, or with
one in which something else is done for nested expressions.  What is compared
differs, and the steps that a rule takes do not.  So the comparison is a parameter
here.  It says which streams may stand side by side and how the two runs may fail,
and it has to be kept by each single step.  That whole rules keep it is then proved
once for all comparisons.
-/

/-! ## Results -/

/-- How much of the results of two runs is the same. -/
inductive View where
  | whole
  /-- All but the comments. -/
  | plain

namespace View

variable {α β γ δ ε ζ η θ : Type} {view : View}

/-- The results are the same, if need be without what `erase` takes away. -/
def Same (view : View) (erase : α → β) (value value' : α) : Prop :=
  match view with
  | whole => value = value'
  | plain => erase value = erase value'

theorem Same.refl (erase : α → β) (value : α) : view.Same erase value value := by
  cases view <;> rfl

/-- What is made of results is the same as far as they are. -/
theorem Same.map {erase : α → β} {erase' : γ → δ} {value value' : α}
    (same : view.Same erase value value') (make : α → γ)
    (through : erase value = erase value' → erase' (make value) = erase' (make value')) :
    view.Same erase' (make value) (make value') := by
  cases view with
  | whole => exact congrArg make same
  | plain => exact through same

theorem Same.map₂ {erase : α → β} {erase' : γ → δ} {eraseTo : ε → ζ} {first first' : α}
    {second second' : γ} (same : view.Same erase first first')
    (sameThen : view.Same erase' second second') (make : α → γ → ε)
    (through : erase first = erase first' → erase' second = erase' second' →
      eraseTo (make first second) = eraseTo (make first' second')) :
    view.Same eraseTo (make first second) (make first' second') := by
  cases view with
  | whole => exact congrArg₂ make same sameThen
  | plain => exact through same sameThen

theorem Same.map₃ {erase : α → β} {erase' : γ → δ} {erase'' : η → θ} {eraseTo : ε → ζ}
    {first first' : α} {second second' : γ} {third third' : η}
    (same : view.Same erase first first') (sameThen : view.Same erase' second second')
    (sameLast : view.Same erase'' third third') (make : α → γ → η → ε)
    (through : erase first = erase first' → erase' second = erase' second' →
      erase'' third = erase'' third' →
      eraseTo (make first second third) = eraseTo (make first' second' third')) :
    view.Same eraseTo (make first second third) (make first' second' third') := by
  cases view with
  | whole =>
      obtain rfl : first = first' := same
      obtain rfl : second = second' := sameThen
      obtain rfl : third = third' := sameLast
      rfl
  | plain => exact through same sameThen sameLast

theorem Same.none_left {erase : α → β} {found : Option α}
    (same : view.Same (Option.map erase) none found) : found = none := by
  cases view with
  | whole => exact Eq.symm same
  | plain => exact Option.map_eq_none_iff.1 (Eq.symm same)

theorem Same.some_left {erase : α → β} {value : α} {found : Option α}
    (same : view.Same (Option.map erase) (some value) found) :
    ∃ value', found = some value' ∧ view.Same erase value value' := by
  cases view with
  | whole => exact ⟨value, Eq.symm same, rfl⟩
  | plain =>
      obtain ⟨value', isFound, erased⟩ := Option.map_eq_some_iff.1 (Eq.symm same)
      exact ⟨value', isFound, erased.symm⟩

end View

/-! ## Comparisons -/

/-- What a rule says of a token that it refuses. -/
inductive Complaint where
  | unexpected (expected : List Kind)
  | rejected (reason : String)
  | badNumber
  | chained

/-- The fault that comes of a complaint about the current token. -/
def Complaint.fault (stream : Stream) : Complaint → Fault
  | unexpected expected => stream.unexpected expected
  | rejected reason => stream.rejected reason
  | badNumber => stream.fault (.badNumber stream.current.raw)
  | chained => stream.fault (.chained stream.current.raw)

/-- The steps that take comments. -/
inductive Parser.Claiming : Parser (List Comment) → Prop where
  | before : Claiming takeBefore
  | after : Claiming takeAfter
  | unclaimed : Claiming takeUnclaimed
  | detached : Claiming takeDetached

/-- What is open innermost is no string. -/
def Calm (held : List Kind) : Prop :=
  ∀ opener ∈ held.head?, opener.opensString = false

theorem calm_nil : Calm [] :=
  nofun

theorem calm_interpolation {held : List Kind} : Calm (.interpOpen :: held) := by
  rintro _ ⟨⟩
  rfl

theorem calm_braces {held : List Kind} : Calm (.curlyOpen :: held) := by
  rintro _ ⟨⟩
  rfl

open NixSyntax.Parser in
/-- A way to compare two runs.  `Near` says which streams may stand side by side
once a token has been read, or before, and with these delimiters open.  The second
stream may hold a closing parenthesis where the first one ends, if a run that fails
there need not be compared. -/
structure Comparison where
  view : View
  Near (started : Bool) (held : List Kind) (source source' : Stream) : Prop
  /-- The two runs fail with these faults, and stop at these streams. -/
  Failed (fault : Fault) (target : Stream) (fault' : Fault) (target' : Stream) : Prop
  /-- The first run fails so, and the second one may do anything. -/
  Cut (fault : Fault) (target : Stream) : Prop
  ended {started : Bool} {held : List Kind} {source source' : Stream}
    (near : Near started held source source') : source.Ended
  length_le {started : Bool} {held : List Kind} {source source' : Stream}
    (near : Near started held source source') : source.upcoming.length ≤ source'.upcoming.length
  /-- It may be left aside that a token has been read. -/
  recede {started : Bool} {held : List Kind} {source source' : Stream}
    (near : Near true held source source') : Near started held source source'
  sign {started : Bool} {held : List Kind} {source source' : Stream}
    (near : Near started held source source') (solid : source.current.kind ≠ .endOfInput) :
    source'.current.sign = source.current.sign
  kind_peek {started : Bool} {held : List Kind} {source source' : Stream}
    (near : Near started held source source') (distance : Nat) :
    (source'.peek distance).kind = (source.peek distance).kind ∨
      (source.peek distance).kind = .endOfInput ∧ (source'.peek distance).kind = .parenClose
  uneven {started : Bool} {held : List Kind} {source source' : Stream}
    (near : Near started held source source')
    (differs : source'.current.kind ≠ source.current.kind) (fault : Fault) : Cut fault source
  advance {started : Bool} {held left : List Kind} {source source' : Stream}
    (near : Near started held source source') (solid : source.current.kind ≠ .endOfInput)
    (settles : source.current.kind.settle held = some left) :
    Near true left source.advance.2 source'.advance.2
  claim {take : Parser (List Comment)} (claiming : Claiming take) {started : Bool}
    {held : List Kind} {source source' : Stream} (near : Near started held source source') :
    ∃ comments target comments' target', take source = .ok comments target ∧
      take source' = .ok comments' target' ∧ view.Same unseen comments comments' ∧
      Near started held target target'
  /-- A complaint may be about a token that has been read since.  In a string there is
  none but the one below. -/
  refuse {started started' : Bool} {held held' : List Kind}
    {source source' target target' : Stream} (complaint : Complaint)
    (near : Near started held source source') (calm : Calm held)
    (nearThen : Near started' held' target target')
    (noText : .fragment ∉ (complaint.fault source).cause.expected) :
    Failed (complaint.fault source) target (complaint.fault source') target'
  /-- Behind the opening quotes only a token that is no part of a string is
  refused. -/
  stray {started : Bool} {held : List Kind} {opener close : Kind} {source source' : Stream}
    (near : Near started (opener :: held) source source') (string : opener.opensString)
    (closes : opener.closer? = some close)
    (other : source.current.kind ∉ [close, .fragment, .interpOpen]) :
    Failed (source.unexpected [close, .fragment, .interpOpen]) source
      (source'.unexpected [close, .fragment, .interpOpen]) source'

theorem Stream.signs_claim (stream : Stream) (leading : List Comment) (unclaimed : Unclaimed) :
    stream.signs = signs
      { stream with current := { stream.current with leading }, unclaimed } :=
  rfl

/-- Taking comments changes nothing but the unclaimed ones and those above the
current token. -/
theorem Parser.Claiming.claims {take : Parser (List Comment)} (claiming : Claiming take)
    (source : Stream) : ∃ comments leading unclaimed, take source =
      .ok comments { source with current := { source.current with leading }, unclaimed } := by
  have before : ∃ comments leading unclaimed, takeBefore source =
      .ok comments { source with current := { source.current with leading }, unclaimed } :=
    ⟨_, [], {}, rfl⟩
  have all : ∃ comments leading unclaimed, takeUnclaimed source =
      .ok comments { source with current := { source.current with leading }, unclaimed } :=
    ⟨_, source.current.leading, {}, rfl⟩
  cases claiming with
  | before => exact before
  | after =>
      rw [takeAfter_eq]
      split
      · exact before
      · exact all
  | unclaimed => exact all
  | detached => exact ⟨_, _, source.unclaimed, rfl⟩

theorem Parser.Claiming.signs {take : Parser (List Comment)} (claiming : Claiming take)
    {source target : Stream} {comments : List Comment} (run : take source = .ok comments target) :
    source.signs = target.signs := by
  obtain ⟨_, leading, unclaimed, done⟩ := claiming.claims source
  cases run.symm.trans done
  exact source.signs_claim leading unclaimed

/-- How far a rule has come: whether it has read a token, which delimiters are open,
and what the current token is if the rule has looked. -/
structure Stage where
  started : Bool
  held : List Kind
  here : Option Kind

/-- Behind the first token. -/
abbrev Stage.behind (held : List Kind) : Stage :=
  ⟨true, held, none⟩

namespace Comparison

open NixSyntax.Parser

variable {C : Comparison} {α β γ δ : Type} {same : α → α → Prop} {same' : β → β → Prop}
  {pre middle post : Stage} {started started' : Bool} {held held' left : List Kind}
  {known : Option Kind} {source source' : Stream}

/-- The two streams stand side by side at a stage. -/
def At (C : Comparison) (stage : Stage) (source source' : Stream) : Prop :=
  C.Near stage.started stage.held source source' ∧ ∀ kind ∈ stage.here, source.current.kind = kind

/-- How two runs end: with results that are the same at streams that stand side by
side, or both with a fault, or the first one alone with a fault that may be
missed. -/
inductive Ends (C : Comparison) (same : α → α → Prop) (post : Stage) :
    EStateM.Result Fault Stream α → EStateM.Result Fault Stream α → Prop where
  | ok {value value' : α} {target target' : Stream} (equal : same value value')
      (reached : C.At post target target') :
      Ends C same post (.ok value target) (.ok value' target')
  | error {fault fault' : Fault} {target target' : Stream}
      (failed : C.Failed fault target fault' target') :
      Ends C same post (.error fault target) (.error fault' target')
  | cut {fault : Fault} {target : Stream} {other : EStateM.Result Fault Stream α}
      (cut : C.Cut fault target) : Ends C same post (.error fault target) other

/-- From streams that stand side by side at `pre` the two parsers end so. -/
def Parallel (C : Comparison) (same : α → α → Prop) (pre post : Stage) (first second : Parser α) :
    Prop :=
  ∀ source source', C.At pre source source' → C.Ends same post (first source) (second source')

namespace Ends

variable {first second : EStateM.Result Fault Stream α} {target : Stream}

theorem of_ok {value : α} (ends : C.Ends same post first second)
    (run : first = .ok value target) :
    ∃ value' target', second = .ok value' target' ∧ same value value' ∧
      C.At post target target' := by
  cases ends with
  | ok equal reached =>
      cases run
      exact ⟨_, _, rfl, equal, reached⟩
  | error _ => cases run
  | cut _ => cases run

theorem of_error {fault : Fault} (ends : C.Ends same post first second)
    (run : first = .error fault target) :
    (∃ fault' target', second = .error fault' target' ∧ C.Failed fault target fault' target') ∨
      C.Cut fault target := by
  cases ends with
  | ok _ _ => cases run
  | error failed =>
      cases run
      exact .inl ⟨_, _, rfl, failed⟩
  | cut cut =>
      cases run
      exact .inr cut

end Ends

/-! ## Steps -/

theorem Ends.bind {first second : Parser α} {next next' : α → Parser β}
    (ends : C.Ends same middle (first source) (second source'))
    (rest : ∀ value value' target target', first source = .ok value target → same value value' →
      C.At middle target target' → C.Ends same' post (next value target) (next' value' target')) :
    C.Ends same' post ((first >>= next) source) ((second >>= next') source') := by
  show C.Ends same' post (EStateM.bind first next source) (EStateM.bind second next' source')
  unfold EStateM.bind
  generalize first source = run at ends rest ⊢
  generalize second source' = run' at ends ⊢
  cases ends with
  | ok equal reached => exact rest _ _ _ _ rfl equal reached
  | error failed => exact .error failed
  | cut cut => exact .cut cut

namespace Parallel

theorem bind {first second : Parser α} {next next' : α → Parser β}
    (parallel : C.Parallel same pre middle first second)
    (rest : ∀ value value', same value value' →
      C.Parallel same' middle post (next value) (next' value')) :
    C.Parallel same' pre post (first >>= next) (second >>= next') :=
  fun source source' near => (parallel source source' near).bind
    fun value value' target target' _ equal => rest value value' equal target target'

/-- The same for a step whose results are not used. -/
theorem andThen {first second : Parser α} {next next' : Parser β}
    (parallel : C.Parallel same pre middle first second)
    (rest : C.Parallel same' middle post next next') :
    C.Parallel same' pre post (first >>= fun _ => next) (second >>= fun _ => next') :=
  parallel.bind fun _ _ _ => rest

/-- What is known of the current token may be left aside. -/
theorem anywhere {first second : Parser α}
    (parallel : C.Parallel same ⟨started, held, none⟩ post first second) :
    C.Parallel same ⟨started, held, known⟩ post first second :=
  fun source source' near => parallel source source' ⟨near.1, nofun⟩

/-- So may be that a token has been read. -/
theorem receding {first second : Parser α}
    (parallel : C.Parallel same pre (.behind held) first second) :
    C.Parallel same pre ⟨started, held, none⟩ first second := by
  intro source source' near
  have ends := parallel source source' near
  generalize first source = run at ends ⊢
  generalize second source' = run' at ends ⊢
  cases ends with
  | ok equal reached => exact .ok equal ⟨C.recede reached.1, nofun⟩
  | error failed => exact .error failed
  | cut cut => exact .cut cut

/-- What is known of the results of the first run by other means is known behind
both. -/
theorem closing {first second : Parser α} {close : Kind}
    (parallel : C.Parallel same pre ⟨started, held, none⟩ first second)
    (closes : ∀ source value target, source.Ended → first source = .ok value target →
      target.current.kind = close) :
    C.Parallel same pre ⟨started, held, some close⟩ first second := by
  intro source source' near
  have ends := parallel source source' near
  have known := closes source
  generalize first source = run at ends known ⊢
  generalize second source' = run' at ends ⊢
  cases ends with
  | ok equal reached =>
      refine .ok equal ⟨reached.1, ?_⟩
      rintro kind ⟨⟩
      exact known _ _ (C.ended near.1) rfl
  | error failed => exact .error failed
  | cut cut => exact .cut cut

theorem pure {value value' : α} (equal : same value value') :
    C.Parallel same ⟨started, held, known⟩ ⟨started, held, none⟩ (pure value) (pure value') :=
  fun _ _ near => .ok equal ⟨near.1, nofun⟩

/-- The item of a repetition, if there is one. -/
theorem some {erase : α → β} {first second : Parser α}
    (parallel : C.Parallel (C.view.Same erase) pre ⟨started, held, none⟩ first second) :
    C.Parallel (C.view.Same (Option.map erase)) pre ⟨started, held, none⟩
      (first >>= fun value => Pure.pure (Option.some value))
      (second >>= fun value => Pure.pure (Option.some value)) := by
  apply parallel.bind
  intro value value' equal
  exact pure (equal.map Option.some (congrArg Option.some))

theorem ite {condition : Prop} [Decidable condition] {yes yes' no no' : Parser α}
    (whenTrue : condition → C.Parallel same pre post yes yes')
    (whenFalse : ¬ condition → C.Parallel same pre post no no') :
    C.Parallel same pre post (if condition then yes else no) (if condition then yes' else no') := by
  by_cases holds : condition
  · rw [if_pos holds, if_pos holds]
    exact whenTrue holds
  · rw [if_neg holds, if_neg holds]
    exact whenFalse holds

/-- A choice by the current token.  Where the first stream ends, the choice may be
the same at a closing parenthesis, or the first run is refused. -/
theorem choose {next next' : Kind → Parser α}
    (each : ∀ kind, C.Parallel same ⟨started, held, Option.some kind⟩ post (next kind) (next' kind))
    (atEnd : next' .parenClose = next' .endOfInput ∨
      ∃ expected, next .endOfInput = unexpected expected) :
    C.Parallel same ⟨started, held, known⟩ post (currentKind >>= next)
      (currentKind >>= next') := by
  rintro source source' ⟨near, -⟩
  rw [currentKind_bind, currentKind_bind]
  have ends := each source.current.kind source source' ⟨near, fun _ => Option.some.inj⟩
  rcases C.kind_peek near 0 with alike | ⟨last, closes⟩
  · rw [show source'.current.kind = _ from alike]
    exact ends
  · replace last : source.current.kind = .endOfInput := last
    rw [show source'.current.kind = _ from closes]
    rw [last] at ends ⊢
    rcases atEnd with alike | ⟨expected, refused⟩
    · rwa [alike]
    · rw [refused]
      exact .cut (C.uneven near (by rw [last]; exact closes ▸ Kind.noConfusion) _)

/-- A choice by a current token that is known. -/
theorem choose_at {next next' : Kind → Parser α} {kind : Kind} (solid : kind ≠ .endOfInput)
    (parallel : C.Parallel same ⟨started, held, Option.some kind⟩ post (next kind) (next' kind)) :
    C.Parallel same ⟨started, held, Option.some kind⟩ post (currentKind >>= next)
      (currentKind >>= next') := by
  intro source source' near
  obtain rfl := near.2 kind rfl
  rw [currentKind_bind, currentKind_bind, Token.kind_eq (C.sign near.1 solid)]
  exact parallel source source' near

/-- A choice by a token further ahead. -/
theorem peek {next next' : Kind → Parser α} {distance : Nat}
    (each : ∀ kind, C.Parallel same pre post (next kind) (next' kind))
    (atEnd : next' .parenClose = next' .endOfInput) :
    C.Parallel same pre post (peekKind distance >>= next) (peekKind distance >>= next') := by
  intro source source' near
  rw [peekKind_bind, peekKind_bind]
  rcases C.kind_peek near.1 distance with alike | ⟨last, closes⟩
  · rw [alike]
    exact each _ source source' near
  · rw [closes, last, atEnd]
    exact each _ source source' near

/-- A refusal of the current token, or of one that has been read since. -/
theorem refuse (complaint : Complaint)
    (noText : ∀ stream, .fragment ∉ (complaint.fault stream).cause.expected)
    (near : C.Near started held source source') (calm : Calm held) :
    C.Parallel same pre post (throw (complaint.fault source))
      (throw (complaint.fault source') : Parser α) :=
  fun _ _ nearThen => .error (C.refuse complaint near calm nearThen.1 (noText source))

end Parallel

end Comparison

namespace Parser

variable {C : Comparison} {α β : Type} {pre post : Stage} {started : Bool} {held left : List Kind}
  {known : Option Kind} {source source' : Stream}

open Comparison

/-- The two parsers return tokens with the same sign, of the kind that is known. -/
def SameSign (kind : Kind) (token token' : Token) : Prop :=
  token.sign = token'.sign ∧ token.kind = kind

theorem unexpected_parallel {same : α → α → Prop} {expected : List Kind}
    (noText : .fragment ∉ expected) (calm : Calm pre.held) :
    C.Parallel same pre post (unexpected expected) (unexpected expected) :=
  fun source source' near =>
    Parallel.refuse (.unexpected expected) (fun _ => noText) near.1 calm source source' near

theorem rejected_parallel {same : α → α → Prop} {reason : String} (calm : Calm pre.held) :
    C.Parallel same pre post (rejected reason) (rejected reason) :=
  fun source source' near =>
    Parallel.refuse (.rejected reason) (fun _ => List.not_mem_nil) near.1 calm source source' near

/-! ## Single tokens -/

/-- Reading a known token opens what it opens and closes what it closes. -/
theorem advance_parallel {kind : Kind} (settles : kind.settle held = some left)
    (solid : kind ≠ .endOfInput) :
    C.Parallel (SameSign kind) ⟨started, held, some kind⟩ (.behind left) advance advance := by
  intro source source' near
  obtain rfl := near.2 kind rfl
  have equal : source.advance.1.sign = source'.advance.1.sign := by
    rw [Stream.advance_fst, Stream.advance_fst]
    exact (C.sign near.1 solid).symm
  exact .ok ⟨equal, source.advance_kind⟩ ⟨C.advance near.1 solid settles, nofun⟩

/-- What is known to stand there is not refused. -/
theorem expect_parallel_at {kind : Kind} (settles : kind.settle held = some left)
    (solid : kind ≠ .endOfInput) :
    C.Parallel (SameSign kind) ⟨started, held, some kind⟩ (.behind left) (expect kind)
      (expect kind) := by
  apply Parallel.choose_at solid
  rw [if_pos (List.mem_singleton_self kind)]
  exact advance_parallel settles solid

theorem expect_parallel {kind : Kind} (calm : Calm held) (settles : kind.settle held = some left)
    (solid : kind ∉ [Kind.endOfInput, .fragment]) :
    C.Parallel (SameSign kind) ⟨started, held, known⟩ (.behind left) (expect kind)
      (expect kind) := by
  simp only [List.mem_cons, List.not_mem_nil, or_false, not_or] at solid
  have other : Kind.endOfInput ∉ [kind] := by simpa using Ne.symm solid.1
  apply Parallel.choose
  · intro found
    apply Parallel.ite
    · intro member
      obtain rfl := List.mem_singleton.1 member
      exact advance_parallel settles solid.1
    · intro _
      exact unexpected_parallel (by simpa using Ne.symm solid.2) calm
  · exact .inr ⟨[kind], if_neg other⟩

theorem expectOr_parallel {kind : Kind} {reason : String} (calm : Calm held)
    (settles : kind.settle held = some left) (usual : kind ∉ [Kind.endOfInput, .parenClose]) :
    C.Parallel (SameSign kind) ⟨started, held, known⟩ (.behind left) (expectOr kind reason)
      (expectOr kind reason) := by
  simp only [List.mem_cons, List.not_mem_nil, or_false, not_or] at usual
  apply Parallel.choose
  · intro found
    apply Parallel.ite
    · rintro rfl
      exact advance_parallel settles usual.1
    · intro _
      exact rejected_parallel calm
  · rw [if_neg (Ne.symm usual.1), if_neg (Ne.symm usual.2)]
    exact .inl rfl

/-- A token that is read or not is no delimiter. -/
theorem skip_parallel {kind : Kind} (settles : kind.settle held = some held)
    (usual : kind ∉ [Kind.endOfInput, .parenClose]) :
    C.Parallel Eq (.behind held) (.behind held) (skip kind) (skip kind) := by
  simp only [List.mem_cons, List.not_mem_nil, or_false, not_or] at usual
  apply Parallel.choose
  · intro found
    apply Parallel.ite
    · rintro rfl
      exact (advance_parallel settles usual.1).andThen (.pure rfl)
    · intro _
      exact .pure rfl
  · rw [if_neg (Ne.symm usual.1), if_neg (Ne.symm usual.2)]
    exact .inl rfl

/-- Taking comments does not hide what the current token is. -/
theorem claim_parallel {take : Parser (List Comment)} (claiming : Claiming take) :
    C.Parallel (C.view.Same unseen) ⟨started, held, known⟩ ⟨started, held, known⟩ take take := by
  rintro source source' ⟨near, here⟩
  obtain ⟨comments, target, comments', target', run, run', equal, reached⟩ := C.claim claiming near
  have same : source.signs = target.signs := claiming.signs run
  rw [run, run']
  exact .ok equal ⟨reached, fun kind isKnown => Stream.kind_eq_of_signs same ▸ here kind isKnown⟩

/-! ## Repetition -/

section Repetition

variable {erase : α → β} {step step' : Parser (Option α)}

theorem round_parallel {loop loop' : Parser (List α)}
    (ends : C.Ends (C.view.Same (Option.map erase)) (.behind held) (step source) (step' source'))
    (rest : ∀ item target target', step source = .ok (some item) target →
      C.At (.behind held) target target' →
      C.Ends (C.view.Same (List.map erase)) (.behind held) (loop target) (loop' target')) :
    C.Ends (C.view.Same (List.map erase)) (.behind held) (round step loop source)
      (round step' loop' source') := by
  apply ends.bind
  intro found found' target target' run equal reached
  cases found with
  | none =>
      obtain rfl := equal.none_left
      exact .ok (.refl _ _) reached
  | some item =>
      obtain ⟨item', rfl, sameItem⟩ := equal.some_left
      apply (rest item target target' run reached).bind
      intro items items' last last' _ sameItems reachedThen
      refine .ok (sameItem.map₂ sameItems List.cons fun alike alikeThen => ?_) reachedThen
      rw [List.map_cons, List.map_cons, alike, alikeThen]

/-- The bound on the rounds is never reached in the first run, and so the second
one may have a higher bound. -/
theorem manyWithin_parallel
    (parallel : C.Parallel (C.view.Same (Option.map erase)) (.behind held) (.behind held) step
      step')
    (shrinks : Shrinks Stream.Ended step) {bound bound' : List Token}
    (least : bound.length ≤ bound'.length) (near : C.At (.behind held) source source')
    (enough : source.upcoming.length < bound.length) :
    C.Ends (C.view.Same (List.map erase)) (.behind held) (manyWithin step bound source)
      (manyWithin step' bound' source') := by
  induction bound generalizing bound' source source' with
  | nil => exact absurd enough (Nat.not_lt_zero _)
  | cons token bound ih =>
      cases bound' with
      | nil => exact absurd least (Nat.not_succ_le_zero _)
      | cons token' bound' =>
          apply round_parallel (parallel source source' near)
          intro item target target' run reached
          have fewer := (shrinks _ _ _ (C.ended near.1) run).2
          rw [List.length_cons] at enough
          exact ih (Nat.le_of_succ_le_succ least) reached (by omega)

/-- The first round of a repetition may start at another stage than the rounds
behind it. -/
theorem many_parallel
    (first : C.Parallel (C.view.Same (Option.map erase)) pre (.behind held) step step')
    (again : C.Parallel (C.view.Same (Option.map erase)) (.behind held) (.behind held) step step')
    (shrinks : Shrinks Stream.Ended step) :
    C.Parallel (C.view.Same (List.map erase)) pre (.behind held) (many step) (many step') := by
  intro source source' near
  apply round_parallel (first source source' near)
  intro item target target' run reached
  exact manyWithin_parallel again shrinks (C.length_le near.1) reached
    (shrinks _ _ _ (C.ended near.1) run).2

end Repetition

end Parser

/-! ## Runs from one stream -/

/-- What is watched in a run: of which streams it stays true how far the rule has
come, and with which faults the run may fail at which streams.  If a run is cut off,
nothing is said of another one from the same stream, and else it is the same. -/
structure Watch where
  Good (started : Bool) (held : List Kind) (stream : Stream) : Prop
  Blame (fault : Fault) (target : Stream) : Prop
  Cut (fault : Fault) (target : Stream) : Prop
  ended {started : Bool} {held : List Kind} {stream : Stream} (good : Good started held stream) :
    stream.Ended
  recede {started : Bool} {held : List Kind} {stream : Stream} (good : Good true held stream) :
    Good started held stream
  advance {started : Bool} {held left : List Kind} {stream : Stream}
    (good : Good started held stream) (solid : stream.current.kind ≠ .endOfInput)
    (settles : stream.current.kind.settle held = some left) : Good true left stream.advance.2
  claim {started : Bool} {held : List Kind} {stream : Stream} (good : Good started held stream)
    (leading : List Comment) (unclaimed : Unclaimed) : Good started held
      { stream with current := { stream.current with leading }, unclaimed }
  refuse {started started' : Bool} {held held' : List Kind} {stream target : Stream}
    (complaint : Complaint) (good : Good started held stream) (calm : Calm held)
    (goodThen : Good started' held' target)
    (noText : .fragment ∉ (complaint.fault stream).cause.expected) :
    Blame (complaint.fault stream) target
  stray {started : Bool} {held : List Kind} {opener close : Kind} {stream : Stream}
    (good : Good started (opener :: held) stream) (string : opener.opensString)
    (closes : opener.closer? = some close)
    (other : stream.current.kind ∉ [close, .fragment, .interpOpen]) :
    Blame (stream.unexpected [close, .fragment, .interpOpen]) stream

namespace Watch

variable {α : Type} {watch : Watch} {pre post : Stage} {source target : Stream}
  {first second : Parser α}

/-- Two runs from the same stream are compared on the diagonal. -/
def comparison (watch : Watch) : Comparison where
  view := .whole
  Near started held source source' := source' = source ∧ watch.Good started held source
  Failed fault target fault' target' := fault' = fault ∧ target' = target ∧ watch.Blame fault target
  Cut := watch.Cut
  ended near := watch.ended near.2
  length_le near := near.1 ▸ le_refl _
  recede near := ⟨near.1, watch.recede near.2⟩
  sign near _ := near.1 ▸ rfl
  kind_peek near _ := near.1 ▸ .inl rfl
  uneven near differs := absurd (near.1 ▸ rfl) differs
  advance := by
    rintro started held left _ source ⟨rfl, good⟩ solid settles
    exact ⟨rfl, watch.advance good solid settles⟩
  claim := by
    rintro take claiming started held _ source ⟨rfl, good⟩
    obtain ⟨comments, leading, unclaimed, run⟩ := claiming.claims source
    exact ⟨comments, _, comments, _, run, run, rfl, rfl, watch.claim good leading unclaimed⟩
  refuse := by
    rintro started started' held held' _ source _ target complaint ⟨rfl, good⟩ calm ⟨rfl, goodThen⟩
      noText
    exact ⟨rfl, rfl, watch.refuse complaint good calm goodThen noText⟩
  stray := by
    rintro started held opener close _ source ⟨rfl, good⟩ string closes other
    exact ⟨rfl, rfl, watch.stray good string closes other⟩

theorem even {started : Bool} {held : List Kind} {source' : Stream}
    (near : watch.comparison.Near started held source source') :
    source'.current.kind = source.current.kind :=
  near.1 ▸ rfl

/-- Under a watch two parsers run the same from the streams at a stage. -/
abbrev Sees (watch : Watch) (pre post : Stage) (first second : Parser α) : Prop :=
  watch.comparison.Parallel Eq pre post first second

theorem fail_sees {cause : Cause}
    (blame : ∀ stream, watch.Good pre.started pre.held stream →
      watch.Blame (stream.fault cause) stream) :
    watch.Sees pre post (Parser.fail cause : Parser α) (Parser.fail cause) := by
  rintro _ source ⟨⟨rfl, good⟩, -⟩
  exact .error ⟨rfl, rfl, blame source good⟩

namespace Sees

theorem many {step : Parser (Option α)} {held : List Kind}
    (sees : watch.Sees (.behind held) (.behind held) step step)
    (shrinks : Parser.Shrinks Stream.Ended step) :
    watch.Sees (.behind held) (.behind held) (Parser.many step) (Parser.many step) := by
  have round : watch.comparison.Parallel (watch.comparison.view.Same (Option.map unseen))
      (.behind held) (.behind held) step step := sees
  exact Parser.many_parallel round round shrinks

/-- A parser may be replaced where it is not called. -/
theorem replace {other : Parser α} (sees : watch.Sees pre post first second)
    (agrees : ∀ stream, watch.Good pre.started pre.held stream → other stream = second stream) :
    watch.Sees pre post first other := by
  rintro _ source ⟨⟨rfl, good⟩, here⟩
  rw [agrees source good]
  exact sees source source ⟨⟨rfl, good⟩, here⟩

variable (sees : watch.Sees pre post first second) (good : watch.Good pre.started pre.held source)
  (here : ∀ kind ∈ pre.here, source.current.kind = kind)

include sees good here

theorem of_ok {value : α} (run : first source = .ok value target) :
    second source = .ok value target ∧ watch.Good post.started post.held target := by
  obtain ⟨_, _, run', rfl, ⟨rfl, reached⟩, -⟩ := (sees source source ⟨⟨rfl, good⟩, here⟩).of_ok run
  exact ⟨run', reached⟩

theorem of_error {fault : Fault} (run : first source = .error fault target) :
    (second source = .error fault target ∧ watch.Blame fault target) ∨ watch.Cut fault target := by
  rcases (sees source source ⟨⟨rfl, good⟩, here⟩).of_error run with
    ⟨_, _, run', rfl, rfl, blame⟩ | cut
  · exact .inl ⟨run', blame⟩
  · exact .inr cut

/-- A run that is not cut off is the same. -/
theorem run_eq (uncut : ∀ fault target, ¬ watch.Cut fault target) :
    first source = second source := by
  cases run : first source with
  | ok value target => exact (sees.of_ok good here run).1.symm
  | error fault target =>
      rcases sees.of_error good here run with ⟨run', -⟩ | cut
      · exact run'.symm
      · exact absurd cut (uncut fault target)

end Sees

end Watch

end NixSyntax
