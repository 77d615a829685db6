/-
Module: NixSyntax.Proofs.Remains
Purpose: What a run leaves unread when it ends, and what a fault says of the token it lies at.
Main exports: Stream.bare, Fault.Fair, Parser.Leaves, Parser.Leaves.bind, Parser.Keeps, Parser.Refuses
-/
import NixSyntax.Proofs.Reading

namespace NixSyntax

/-!
A run that succeeds leaves the tokens behind those it has read, and so does a
run that fails: the stream of a fault begins with the token that is at fault.
Only a bad number lies at a token that has been read already.  The comments of a
token may be taken while the token stays, so tokens are compared without them.
-/

/-! ## Tokens without comments -/

/-- The token without its comments. -/
def Token.bare (token : Token) : Token :=
  { token with leading := [], trailing := [], detached := 0 }

@[simp] theorem Token.sign_bare (token : Token) : token.bare.sign = token.sign :=
  rfl

namespace Stream

/-- The tokens that are still to be read, without their comments. -/
def bare (stream : Stream) : List Token :=
  stream.tokens.map Token.bare

variable {source middle target : Stream}

theorem signs_eq_map_bare (stream : Stream) : stream.signs = stream.bare.map Token.sign := by
  simp [signs, bare]

theorem signs_eq_of_bare (same : target.bare = source.bare) : target.signs = source.signs := by
  rw [signs_eq_map_bare, signs_eq_map_bare, same]

theorem kind_eq_of_bare (same : target.bare = source.bare) :
    target.current.kind = source.current.kind :=
  kind_eq_of_signs (signs_eq_of_bare same)

/-- The tokens of `target` are the last ones of `source`, and not all of them if
`strict`. -/
structure Behind (strict : Prop) (source target : Stream) : Prop where
  suffix : target.bare <:+ source.bare
  shorter : strict → target.signs.length < source.signs.length

namespace Behind

variable {strict strict' : Prop}

theorem of_bare (same : target.bare = source.bare) : Behind False source target :=
  ⟨same ▸ List.suffix_rfl, False.elim⟩

theorem refl (stream : Stream) : Behind False stream stream :=
  of_bare rfl

theorem mono (behind : Behind strict source target) (weaker : strict' → strict) :
    Behind strict' source target :=
  ⟨behind.suffix, fun holds => behind.shorter (weaker holds)⟩

theorem signs (behind : Behind strict source target) : target.signs <:+ source.signs := by
  rw [signs_eq_map_bare, signs_eq_map_bare]
  exact behind.suffix.map Token.sign

theorem length_le (behind : Behind strict source target) :
    target.signs.length ≤ source.signs.length :=
  behind.signs.length_le

/-- Going on from a later place leaves no more. -/
theorem trans (first : Behind strict source middle) (second : Behind strict' middle target) :
    Behind (strict ∨ strict') source target := by
  refine ⟨second.suffix.trans first.suffix, ?_⟩
  have fewer := first.length_le
  have least := second.length_le
  rintro (holds | holds)
  · have := first.shorter holds
    omega
  · have := second.shorter holds
    omega

/-- The last token stays. -/
theorem ended (behind : Behind strict source target) (ended : source.Ended) : target.Ended := by
  obtain ⟨passed, split⟩ := behind.signs
  have present : target.signs ≠ [] := by simp [Stream.signs, tokens]
  rwa [Ended, ← split, List.getLast?_append_of_ne_nil _ present] at ended

end Behind

/-- Reading leaves the tokens behind the current one, if there are any. -/
theorem bare_advance (more : source.upcoming ≠ []) :
    source.bare = source.current.bare :: source.advance.2.bare := by
  rw [bare, bare, tokens_advance, if_neg more]
  rfl

theorem behind_advance (ended : source.Ended) :
    Behind (source.current.kind ≠ .endOfInput) source source.advance.2 := by
  by_cases more : source.upcoming = []
  · have same : source.advance.2.bare = source.bare := by
      rw [bare, bare, tokens_advance, if_pos more, tokens, more, advance_fst]
      rfl
    exact ⟨same ▸ List.suffix_rfl, fun solid => absurd more (upcoming_ne_nil ended solid)⟩
  · refine ⟨⟨[source.current.bare], (bare_advance more).symm⟩, fun _ => ?_⟩
    rw [signs_advance more, List.length_cons]
    exact Nat.lt_succ_self _

end Stream

/-- What is left in front of the token of an index. -/
theorem Stream.signs_of_drop {source target : Stream} {front behind : List Sign}
    (left : target.bare = source.bare.drop front.length) (signs : source.signs = front ++ behind) :
    target.signs = behind := by
  rw [signs_eq_map_bare, left, List.map_drop, ← signs_eq_map_bare, signs, List.drop_left]

/-! ## Faults -/

/-- The faults that lie in what a token stands for, or in how deep it stands, and
not in its kind. -/
def Cause.kindless : Cause → Bool
  | .badNumber _ | .tooDeep _ => true
  | _ => false

/-- The faults that only the scanner raises. -/
def Cause.lexical : Cause → Bool
  | .unrecognised _ | .openString | .openComment => true
  | _ => false

/-- The kinds of the operators that compare. -/
def Kind.comparisons : List Kind :=
  [equal, notEqual, less, lessEqual, greater, greaterEqual]

/-- Kinds that a fault may name as expected where `found` stands. -/
structure Kind.Wanted (found : Kind) (expected : List Kind) : Prop where
  present : expected ≠ []
  missing : found ∉ expected
  single : ∀ kind ∈ expected, kind ∉ Kind.comparisons

/-- The fault of a run from `source` that has stopped at `target` is one of the
parser's own and says of its token what is so. -/
structure Fault.Fair (fault : Fault) (source target : Stream) : Prop where
  /-- The fault lies at a token. -/
  inside : ∃ token ∈ source.bare, fault.position = token.span.start
  grammatical : fault.cause.lexical = false
  /-- If the kind of a token is at fault, the token is the current one. -/
  current : fault.cause.kindless = false → fault.position = target.position
  wanted : ∀ expected found shown, fault.cause = .unexpected expected found shown →
    found = target.current.kind ∧ found.Wanted expected

theorem Fault.Fair.of_behind {fault : Fault} {strict : Prop} {source middle target : Stream}
    (fair : fault.Fair middle target) (behind : Stream.Behind strict source middle) :
    fault.Fair source target := by
  obtain ⟨token, member, place⟩ := fair.inside
  exact { fair with inside := ⟨token, behind.suffix.subset member, place⟩ }

/-- The current token is always one of those ahead. -/
theorem Fault.Fair.of_stream (stream : Stream) {cause : Cause} (own : cause.lexical = false)
    (wanted : ∀ expected found shown, cause = .unexpected expected found shown →
      found = stream.current.kind ∧ found.Wanted expected) :
    (stream.fault cause).Fair stream stream :=
  ⟨⟨stream.current.bare, List.mem_cons_self, rfl⟩, own, fun _ => rfl, wanted⟩

namespace Parser

open NixSyntax.Stream

variable {α β : Type} {source target : Stream} {strict strict' : Prop}

/-! ## Runs -/

/-- Where the first step returns something, the run is that of the steps behind
it. -/
theorem bind_run {first : Parser α} {next : α → Parser β} {value : α}
    (run : first source = .ok value target) : (first >>= next) source = next value target := by
  show EStateM.bind first next source = _
  rw [EStateM.bind, run]

theorem bind_stuck {first : Parser α} {next : α → Parser β} {fault : Fault}
    (run : first source = .error fault target) :
    (first >>= next) source = .error fault target := by
  show EStateM.bind first next source = _
  rw [EStateM.bind, run]

/-- How a run from `source` ends: behind what it has read, which is something if
`strict`.  A fault is fair, and if it lies in the kind of a token, that token
counts as read up to. -/
def Leaves (strict : Prop) (source : Stream) : EStateM.Result Fault Stream α → Prop
  | .ok _ target => Behind strict source target
  | .error fault target =>
    Behind (strict ∧ fault.cause.kindless = false) source target ∧ fault.Fair source target

namespace Leaves

theorem mono {run : EStateM.Result Fault Stream α} (leaves : Leaves strict source run)
    (weaker : strict' → strict) : Leaves strict' source run := by
  cases run with
  | ok value target => exact Behind.mono leaves weaker
  | error fault target => exact ⟨leaves.1.mono fun both => ⟨weaker both.1, both.2⟩, leaves.2⟩

/-- A run from a later place is a run from there on. -/
theorem of_behind {middle : Stream} {run : EStateM.Result Fault Stream α}
    (leaves : Leaves strict middle run) (behind : Behind strict' source middle) :
    Leaves strict source run := by
  cases run with
  | ok value target => exact (Behind.trans behind leaves).mono .inr
  | error fault target => exact ⟨(behind.trans leaves.1).mono .inr, leaves.2.of_behind behind⟩

/-- What follows a step leaves no more than the step. -/
theorem bind {first : Parser α} {next : α → Parser β} (leaves : Leaves strict source (first source))
    (rest : ∀ value target, first source = .ok value target →
      Leaves False target (next value target)) :
    Leaves strict source ((first >>= next) source) := by
  show Leaves _ source (EStateM.bind first next source)
  unfold EStateM.bind
  cases run : first source with
  | error fault target => rwa [run] at leaves
  | ok value middle =>
      rw [run] at leaves
      have after := rest value middle run
      dsimp only
      cases further : next value middle with
      | ok result target =>
          rw [further] at after
          exact (Behind.trans leaves after).mono .inl
      | error fault target =>
          rw [further] at after
          exact ⟨(Behind.trans leaves after.1).mono fun both => .inl both.1,
            after.2.of_behind leaves⟩

end Leaves

/-- At a token of this kind the parser returns something and reads nothing. -/
def Keeps (kind : Kind) (parser : Parser α) : Prop :=
  ∀ source, source.current.kind = kind →
    ∃ value target, parser source = .ok value target ∧ target.bare = source.bare

/-- The parser fails at the current token, and would be content with other
kinds there. -/
def Refuses (content : Kind → Prop) (parser : Parser α) (source : Stream) : Prop :=
  ∃ fault target, parser source = .error fault target ∧ target.bare = source.bare ∧
    fault.Fair source target ∧ ∀ kind ∈ fault.cause.expected, content kind

namespace Refuses

variable {content content' : Kind → Prop} {parser : Parser α}

theorem mono (refuses : Refuses content parser source)
    (more : ∀ kind, content kind → content' kind) : Refuses content' parser source := by
  obtain ⟨fault, target, run, same, fair, wanted⟩ := refuses
  exact ⟨fault, target, run, same, fair, fun kind named => more kind (wanted kind named)⟩

theorem bind {next : α → Parser β} (refuses : Refuses content parser source) :
    Refuses content (parser >>= next) source := by
  obtain ⟨fault, target, run, same, fair, wanted⟩ := refuses
  exact ⟨fault, target, bind_stuck run, same, fair, wanted⟩

/-- A step that reads nothing may come first. -/
theorem behind {first : Parser α} {next : α → Parser β} {value : α} {middle : Stream}
    (run : first source = .ok value middle) (same : middle.bare = source.bare)
    (refuses : Refuses content (next value) middle) : Refuses content (first >>= next) source := by
  obtain ⟨fault, target, failed, sameThen, fair, wanted⟩ := refuses
  exact ⟨fault, target, (bind_run run).trans failed, sameThen.trans same,
    fair.of_behind (Behind.of_bare same), wanted⟩

end Refuses

end Parser

end NixSyntax
