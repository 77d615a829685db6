/-
Module: NixSyntax.Proofs.Fork
Purpose: Comparing two runs of a parser on tokens that are the same up to a fork.
Main exports: Fork, Fork.Ahead, Parser.Meets, Parser.Sound, Parser.Sound.bind, Parser.Sound.choose,
  Parser.Sound.offer, Parser.shrinks_of_sound, Parser.many_sound
-/
import NixSyntax.Proofs.Plain
import NixSyntax.Proofs.Remains
import NixSyntax.Proofs.Yield

namespace NixSyntax

/-!
Two runs of one parser read tokens with the same signs up to a fork, where each
of them finds a token of its own.  Until then they do the same.  At the fork
they may part, and what can be said then depends on which of them reads on: a
run that has read its token at the fork is left to itself, and a run that is
refused there names kinds that the other token is not of, or else the other run
reads that token.

A repetition that stops in front of its closing token has not refused anything,
so between its end and the reading of the closing token one run may have failed
while the other still stands at the fork.  The kinds that close are remembered
for that time.
-/

/-! ## Forks -/

/-- Two tokens at which two runs may part, each with the tokens behind it. -/
structure Fork where
  sign : Sign
  behind : List Sign
  sign' : Sign
  behind' : List Sign
  ends : ∃ last ∈ (sign :: behind).getLast?, last.kind = .endOfInput
  ends' : ∃ last ∈ behind'.getLast?, last.kind = .endOfInput
  single : sign'.kind ∉ Kind.comparisons

/-- The fork lies ahead of both streams, behind the same signs. -/
structure Fork.Ahead (fork : Fork) (front : List Sign) (source source' : Stream) : Prop where
  quiet : source.Quiet
  quiet' : source'.Quiet
  signs : source.signs = front ++ fork.sign :: fork.behind
  signs' : source'.signs = front ++ fork.sign' :: fork.behind'

namespace Fork.Ahead

variable {fork : Fork} {sign : Sign} {front : List Sign} {source source' : Stream}

theorem ended (ahead : fork.Ahead front source source') : source.Ended := by
  rw [Stream.Ended, ahead.signs, List.getLast?_append_of_ne_nil _ (List.cons_ne_nil _ _)]
  exact fork.ends

theorem ended' (ahead : fork.Ahead front source source') : source'.Ended := by
  obtain ⟨last, isLast, atEnd⟩ := fork.ends'
  have present : fork.behind' ≠ [] := by
    intro empty
    rw [empty] at isLast
    cases isLast
  rw [Stream.Ended, ahead.signs', List.getLast?_append_of_ne_nil _ (List.cons_ne_nil _ _),
    ← List.singleton_append, List.getLast?_append_of_ne_nil _ present]
  exact ⟨last, isLast, atEnd⟩

/-- In front of the fork the current tokens have the same sign. -/
theorem same_sign (ahead : fork.Ahead (sign :: front) source source') :
    source.current.sign = sign ∧ source'.current.sign = sign :=
  ⟨Stream.current_sign ahead.signs, Stream.current_sign ahead.signs'⟩

theorem same_kind (ahead : fork.Ahead front source source') (before : front ≠ []) :
    source'.current.kind = source.current.kind := by
  cases front with
  | nil => exact absurd rfl before
  | cons sign front =>
      obtain ⟨first, second⟩ := ahead.same_sign
      exact Token.kind_eq (second.trans first.symm)

theorem advance (ahead : fork.Ahead (sign :: front) source source') :
    fork.Ahead front source.advance.2 source'.advance.2 := by
  obtain ⟨next, rest, shape⟩ : ∃ next rest, front ++ fork.sign :: fork.behind = next :: rest := by
    cases front <;> exact ⟨_, _, rfl⟩
  obtain ⟨next', rest', shape'⟩ : ∃ next rest,
      front ++ fork.sign' :: fork.behind' = next :: rest := by
    cases front <;> exact ⟨_, _, rfl⟩
  obtain ⟨quiet, signs⟩ := ahead.quiet.advance (ahead.signs.trans (congrArg (sign :: ·) shape))
  obtain ⟨quiet', signs'⟩ :=
    ahead.quiet'.advance (ahead.signs'.trans (congrArg (sign :: ·) shape'))
  exact ⟨quiet, quiet', signs.trans shape.symm, signs'.trans shape'.symm⟩

/-- At the fork the current tokens are those of the fork. -/
theorem at_fork (ahead : fork.Ahead [] source source') :
    source.current.kind = fork.sign.kind ∧ source'.current.kind = fork.sign'.kind :=
  ⟨Stream.current_kind ahead.signs, Stream.current_kind ahead.signs'⟩

end Fork.Ahead

namespace Parser

open NixSyntax.Stream

variable {α β γ δ : Type} {fork : Fork} {front : List Sign} {source source' : Stream}

/-! ## Pairs of runs -/

/-- The run ends on at most so many tokens, or for a reason that lies in no
kind. -/
def Passed (left : Nat) : EStateM.Result Fault Stream α → Prop
  | .ok _ target => target.signs.length ≤ left
  | .error fault target => fault.cause.kindless = true ∨ target.signs.length ≤ left

theorem Passed.of_leaves {left : Nat} {run : EStateM.Result Fault Stream α}
    (leaves : Leaves True source run) (length : source.signs.length = left + 1) :
    Passed left run := by
  cases run with
  | ok value target =>
      have fewer := leaves.shorter trivial
      rw [length] at fewer
      exact Nat.le_of_lt_succ fewer
  | error fault target =>
      cases kindless : fault.cause.kindless with
      | true => exact .inl kindless
      | false =>
          have fewer := leaves.1.shorter ⟨trivial, kindless⟩
          rw [length] at fewer
          exact .inr (Nat.le_of_lt_succ fewer)

theorem Passed.bind {left : Nat} {first : Parser α} {next : α → Parser β}
    (passed : Passed left (first source))
    (rest : ∀ value target, first source = .ok value target →
      Leaves False target (next value target)) :
    Passed left ((first >>= next) source) := by
  show Passed left (EStateM.bind first next source)
  unfold EStateM.bind
  cases run : first source with
  | error fault target => rwa [run] at passed
  | ok value middle =>
      rw [run] at passed
      have after := rest value middle run
      have fewer : middle.signs.length ≤ left := passed
      dsimp only
      cases further : next value middle with
      | ok result target =>
          rw [further] at after
          exact after.length_le.trans fewer
      | error fault target =>
          rw [further] at after
          exact .inr (after.1.length_le.trans fewer)

/-- How two runs compare. -/
inductive Meets (fork : Fork) (closes : List Kind) (view : α → γ) :
    EStateM.Result Fault Stream α → EStateM.Result Fault Stream α → Prop where
  /-- Both return the same, and the fork still lies ahead. -/
  | ok {value value' : α} {target target' : Stream} (same : view value = view value')
      (ahead : ∃ front, fork.Ahead front target target') :
      Meets fork closes view (.ok value target) (.ok value' target')
  /-- The first run has read its token at the fork. -/
  | gone {run run' : EStateM.Result Fault Stream α} (passed : Passed fork.behind.length run) :
      Meets fork closes view run run'
  /-- The first run is refused, and if so at the fork, it does not name the kind
  that the second one finds there. -/
  | stuck {fault : Fault} {target : Stream} {run' : EStateM.Result Fault Stream α}
      (other : target.signs.length = fork.behind.length + 1 →
        fork.sign'.kind ∉ fault.cause.expected) :
      Meets fork closes view (.error fault target) run'
  /-- The second run has read its token at the fork, and the first one has come
  as far as the fork, if it goes on. -/
  | past {run run' : EStateM.Result Fault Stream α}
      (arrived : ∀ value target, run = .ok value target →
        target.signs.length ≤ fork.behind.length + 1)
      (passed : Passed fork.behind'.length run') :
      Meets fork closes view run run'
  /-- The first run stands at a closing token. -/
  | ends {value : α} {target : Stream} {run' : EStateM.Result Fault Stream α}
      (here : target.signs = fork.sign :: fork.behind) (closing : fork.sign.kind ∈ closes) :
      Meets fork closes view (.ok value target) run'
  /-- The first run is refused, and the second one stands at a closing token. -/
  | waits {fault : Fault} {value' : α} {target target' : Stream}
      (here : target'.signs = fork.sign' :: fork.behind') (closing : fork.sign'.kind ∈ closes) :
      Meets fork closes view (.error fault target) (.ok value' target')

namespace Meets

variable {closes closes' : List Kind} {view : α → γ} {view' : β → δ}

theorem mono {run run' : EStateM.Result Fault Stream α} (meets : Meets fork closes view run run')
    (more : closes ⊆ closes') : Meets fork closes' view run run' := by
  cases meets with
  | ok same ahead => exact .ok same ahead
  | gone passed => exact .gone passed
  | stuck other => exact .stuck other
  | past arrived passed => exact .past arrived passed
  | ends here closing => exact .ends here (more closing)
  | waits here closing => exact .waits here (more closing)

/-- What follows at a closing token reads it, or leaves it to be read. -/
def Closes (closes : List Kind) (target : Stream) (run : EStateM.Result Fault Stream α) : Prop :=
  Leaves True target run ∨ target.current.kind ∈ closes ∧
    ∃ value last, run = .ok value last ∧ last.bare = target.bare

/-- The parsers of the two runs need not be equal, since a repetition is bounded
by the tokens that are left. -/
theorem bind {first first' : Parser α} {next next' : α → Parser β}
    (meets : Meets fork closes view (first source) (first' source'))
    (leaves : ∀ value target, first source = .ok value target →
      Leaves False target (next value target))
    (leaves' : ∀ value target, first' source' = .ok value target →
      Leaves False target (next' value target))
    (rest : ∀ value value' target target' front, first source = .ok value target →
      first' source' = .ok value' target' → view value = view value' →
      fork.Ahead front target target' →
      Meets fork closes' view' (next value target) (next' value' target'))
    (closing : ∀ value target, first source = .ok value target → target.current.kind ∈ closes →
      Closes closes' target (next value target))
    (closing' : ∀ value target, first' source' = .ok value target →
      target.current.kind ∈ closes → Closes closes' target (next' value target)) :
    Meets fork closes' view' ((first >>= next) source) ((first' >>= next') source') := by
  generalize run : first source = result at meets
  generalize run' : first' source' = result' at meets
  cases meets with
  | ok same ahead =>
      obtain ⟨front, ahead⟩ := ahead
      rw [bind_run run, bind_run run']
      exact rest _ _ _ _ front run run' same ahead
  | gone passed => exact .gone (Passed.bind (run ▸ passed) leaves)
  | stuck other =>
      rw [bind_stuck run]
      exact .stuck other
  | past arrived passed =>
      refine .past ?_ (Passed.bind (run' ▸ passed) leaves')
      intro last target further
      obtain ⟨value, middle, early, late⟩ := bind_ok.1 further
      have left := leaves value middle early
      rw [late] at left
      exact left.length_le.trans (arrived value middle (run ▸ early))
  | @ends value target run' here close =>
      rw [bind_run run]
      rcases closing value target run (current_kind here ▸ close) with
        moves | ⟨still, last, end', finished, same⟩
      · exact .gone (.of_leaves moves (congrArg List.length here))
      · rw [finished]
        exact .ends ((signs_eq_of_bare same).trans here) (current_kind here ▸ still)
  | @waits fault value' target target' here close =>
      rw [bind_stuck run, bind_run run']
      rcases closing' value' target' run' (current_kind here ▸ close) with
        moves | ⟨still, last, end', finished, same⟩
      · exact .past nofun (.of_leaves moves (congrArg List.length here))
      · rw [finished]
        exact .waits ((signs_eq_of_bare same).trans here) (current_kind here ▸ still)

end Meets

/-! ## Sound parsers -/

/-- What is proved of every rule.  Started at a token of a kind as `known` says,
its runs leave what they should, and less than they found if the kind is as
`starts` says; and two of its runs compare, if the fork is at least so many
tokens ahead. -/
structure Sound (least : Nat) (known starts : Kind → Prop) (closes : List Kind) (view : α → γ)
    (parser : Parser α) : Prop where
  leaves : ∀ source, source.Ended → known source.current.kind →
    Leaves (starts source.current.kind) source (parser source)
  meets : ∀ fork front source source', Fork.Ahead fork front source source' →
    least ≤ front.length → known source.current.kind → known source'.current.kind →
    Meets fork closes view (parser source) (parser source')

/-- Any kind of token. -/
abbrev Anywhere (_ : Kind) : Prop :=
  True

namespace Sound

variable {least : Nat} {known known' starts starts' : Kind → Prop} {closes closes' : List Kind}
  {view : α → γ} {view' : β → δ}

theorem mono {least' : Nat} {parser : Parser α}
    (sound : Sound least known starts closes view parser) (later : least ≤ least')
    (fewer : ∀ kind, known' kind → known kind)
    (weaker : ∀ kind, known' kind → starts' kind → starts kind) (more : closes ⊆ closes') :
    Sound least' known' starts' closes' view parser where
  leaves source ended holds := (sound.leaves source ended (fewer _ holds)).mono (weaker _ holds)
  meets fork front source source' ahead before holds holds' :=
    (sound.meets fork front source source' ahead (later.trans before) (fewer _ holds)
      (fewer _ holds')).mono more

/-- A parser that is sound anywhere, at tokens of one kind. -/
theorem at_kind {parser : Parser α} (sound : Sound least Anywhere starts [] view parser)
    {kind : Kind} (later : least ≤ 1) (start : starts' kind → starts kind) :
    Sound 1 (· = kind) starts' closes view parser := by
  apply sound.mono later (fun _ _ => trivial) _ (List.nil_subset closes)
  rintro _ rfl
  exact start

/-- A parser that is sound at tokens of several kinds, at one of them. -/
theorem among {parser : Parser α} (sound : Sound least known starts closes view parser)
    {kind : Kind} (member : known kind) : Sound least (· = kind) starts closes view parser := by
  refine sound.mono le_rfl ?_ (fun _ _ => id) (List.Subset.refl _)
  rintro _ rfl
  exact member

/-- It may be left open at which kinds a parser reads on. -/
theorem lax {parser : Parser α} (sound : Sound least known starts closes view parser) :
    Sound least known (fun _ => False) closes view parser :=
  sound.mono le_rfl (fun _ => id) (fun _ _ => False.elim) (List.Subset.refl _)

/-- It may be left open which tokens close. -/
theorem loose {parser : Parser α} (sound : Sound least known starts [] view parser) :
    Sound least known starts closes view parser :=
  sound.mono le_rfl (fun _ => id) (fun _ _ => id) (List.nil_subset closes)

theorem behind {parser : Parser α} (sound : Sound least known starts closes view parser)
    (ended : source.Ended) (holds : known source.current.kind) {value : α} {target : Stream}
    (run : parser source = .ok value target) :
    Behind (starts source.current.kind) source target := by
  have leaves := sound.leaves source ended holds
  rwa [run] at leaves

theorem ended {parser : Parser α} (sound : Sound least known starts closes view parser)
    (ended : source.Ended) (holds : known source.current.kind) {value : α} {target : Stream}
    (run : parser source = .ok value target) : target.Ended :=
  (sound.behind ended holds run).ended ended

/-! ## Sequences -/

/-- A step whose view is all that the steps behind it use.  If it may stop in
front of a closing token, these read that token or leave it to be read. -/
theorem bind_view {first : Parser α} {next : α → Parser β}
    (sound : Sound least known starts closes view first)
    (same : ∀ value value', view value = view value' → next value = next value')
    (rest : ∀ value, Sound 0 Anywhere starts' closes' view' (next value))
    (closing : ∀ kind ∈ closes, starts' kind ∨ kind ∈ closes' ∧ ∀ value, Keeps kind (next value)) :
    Sound least known starts closes' view' (first >>= next) where
  leaves source ended holds :=
    (sound.leaves source ended holds).bind fun value target run =>
      ((rest value).leaves target (sound.ended ended holds run) trivial).mono False.elim
  meets fork front source source' ahead before holds holds' := by
    have left : ∀ value {stream : Stream}, stream.Ended →
        Leaves False stream (next value stream) := fun value stream ended =>
      ((rest value).leaves stream ended trivial).mono False.elim
    have close : ∀ value {stream : Stream}, stream.Ended → stream.current.kind ∈ closes →
        Meets.Closes closes' stream (next value stream) := by
      intro value stream ended member
      rcases closing _ member with start | ⟨still, keeps⟩
      · exact .inl (((rest value).leaves stream ended trivial).mono fun _ => start)
      · exact .inr ⟨still, keeps value stream rfl⟩
    apply (sound.meets fork front source source' ahead before holds holds').bind
    · exact fun value target run => left value (sound.ended ahead.ended holds run)
    · exact fun value target run => left value (sound.ended ahead.ended' holds' run)
    · intro value value' target target' front' _ _ sameView aheadThen
      rw [← same value value' sameView]
      exact (rest value).meets fork front' target target' aheadThen (Nat.zero_le _) trivial trivial
    · exact fun value target run => close value (sound.ended ahead.ended holds run)
    · exact fun value target run => close value (sound.ended ahead.ended' holds' run)

/-- A step that never stops in front of a closing token. -/
theorem bind {first : Parser α} {next : α → Parser β}
    (sound : Sound least known starts [] id first)
    (rest : ∀ value, Sound 0 Anywhere starts' closes' view' (next value)) :
    Sound least known starts closes' view' (first >>= next) :=
  sound.bind_view (fun _ _ same => congrArg next same) rest nofun

/-- A step that returns a token, of which only the sign is used. -/
theorem bind_sign {first : Parser Token} {next : Token → Parser β}
    (sound : Sound least known starts [] Token.sign first)
    (same : ∀ token token', token.sign = token'.sign → next token = next token')
    (rest : ∀ token, Sound 0 Anywhere starts' closes' view' (next token)) :
    Sound least known starts closes' view' (first >>= next) :=
  sound.bind_view same rest nofun

/-- A step whose results are not used. -/
theorem andThen {first : Parser α} {next : Parser β}
    (sound : Sound least known starts [] view first)
    (rest : Sound 0 Anywhere starts' closes' view' next) :
    Sound least known starts closes' view' (first >>= fun _ => next) :=
  sound.bind_view (fun _ _ _ => rfl) (fun _ => rest) nofun

/-- A step that may stop in front of a closing token. -/
theorem bind_close {first : Parser α} {next : α → Parser β}
    (sound : Sound least known starts closes id first)
    (rest : ∀ value, Sound 0 Anywhere starts' closes' view' (next value))
    (closing : ∀ kind ∈ closes, starts' kind ∨ kind ∈ closes' ∧ ∀ value, Keeps kind (next value)) :
    Sound least known starts closes' view' (first >>= next) :=
  sound.bind_view (fun _ _ same => congrArg next same) rest closing

theorem pure {value : α} : Sound least known (fun _ => False) closes view (pure value) where
  leaves source _ _ := Behind.refl source |>.mono False.elim
  meets _ front _ _ ahead _ _ _ := .ok rfl ⟨front, ahead⟩

/-- The item of a repetition, if there is one. -/
theorem some {parser : Parser α} (sound : Sound least known starts [] id parser) :
    Sound least known starts closes id
      (parser >>= fun value => Pure.pure (Option.some value)) :=
  sound.bind fun _ => .pure

/-- Taking comments, of which there are none where two runs are compared. -/
theorem take {take : Parser (List Comment)} {next : List Comment → Parser β}
    (still : ∀ source, ∃ comments target, take source = .ok comments target ∧
      target.bare = source.bare)
    (silent : ∀ source, source.Quiet → take source = .ok [] source)
    (rest : ∀ comments, Sound least known starts closes view' (next comments)) :
    Sound least known starts closes view' (take >>= next) where
  leaves source ended holds := by
    obtain ⟨comments, target, run, same⟩ := still source
    have kind := kind_eq_of_bare same
    rw [bind_run run]
    exact (kind ▸ (rest comments).leaves target ((Behind.of_bare same).ended ended)
      (kind ▸ holds)).of_behind (Behind.of_bare same)
  meets fork front source source' ahead before holds holds' := by
    rw [bind_run (silent source ahead.quiet), bind_run (silent source' ahead.quiet')]
    exact (rest []).meets fork front source source' ahead before holds holds'

/-! ## Choices by the current token -/

/-- In front of the fork both runs find the same token, and the choice is the
same. -/
theorem leads {body : Kind → Parser α} (each : ∀ kind, known kind →
      Sound 1 (· = kind) starts closes view (body kind))
    (ahead : fork.Ahead front source source') (before : 1 ≤ front.length)
    (holds : known source.current.kind) :
    Meets fork closes view ((currentKind >>= body) source) ((currentKind >>= body) source') := by
  have same := ahead.same_kind (List.length_pos_iff.1 before)
  rw [currentKind_bind, currentKind_bind, same]
  exact (each _ holds).meets fork front source source' ahead before rfl same

/-- A choice that is made in front of the fork only. -/
theorem dispatch {body : Kind → Parser α}
    (each : ∀ kind, known kind → Sound 1 (· = kind) starts closes view (body kind)) :
    Sound 1 known starts closes view (currentKind >>= body) where
  leaves source ended holds := (each _ holds).leaves source ended rfl
  meets _ _ _ _ ahead before holds _ := leads each ahead before holds

/-- What a parser that looks at its first token may do with it: read on, stop in
front of a token that closes, or refuse the token.  What it names as expected it
does not refuse. -/
inductive Branch (starts : Kind → Prop) (closes : List Kind) (view : α → γ) (kind : Kind)
    (parser : Parser α) : Prop where
  | reads (start : starts kind) (sound : Sound 1 (· = kind) starts closes view parser)
  | stops (close : kind ∈ closes) (sound : Sound 1 (· = kind) starts closes view parser)
      (keeps : Keeps kind parser)
  | refuses (other : ¬ starts kind) (outside : kind ∉ closes)
      (refuses : ∀ source : Stream, source.current.kind = kind →
        Refuses (fun kind => starts kind ∨ kind ∈ closes) parser source)

/-- A parser that fails at its token does so for both runs, if the fork is not
there. -/
theorem of_refuses {content : Kind → Prop} {parser : Parser α}
    (other : ∀ kind, known kind → ¬ starts kind)
    (refuses : ∀ source : Stream, known source.current.kind → Refuses content parser source) :
    Sound 1 known starts closes view parser where
  leaves source _ holds := by
    obtain ⟨fault, target, run, same, fair, -⟩ := refuses source holds
    rw [run]
    exact ⟨(Behind.of_bare same).mono fun both => other _ holds both.1, fair⟩
  meets fork front source source' ahead before holds _ := by
    obtain ⟨fault, target, run, same, -, -⟩ := refuses source holds
    rw [run]
    refine .stuck fun length => ?_
    rw [signs_eq_of_bare same, ahead.signs, List.length_append, List.length_cons] at length
    omega

theorem Branch.sound {kind : Kind} {parser : Parser α}
    (branch : Branch starts closes view kind parser) :
    Sound 1 (· = kind) starts closes view parser := by
  cases branch with
  | reads _ sound => exact sound
  | stops _ sound _ => exact sound
  | refuses other _ refuses => exact of_refuses (fun _ same => same ▸ other) refuses

theorem choose {body : Kind → Parser α}
    (each : ∀ kind, Branch starts closes view kind (body kind)) :
    Sound 0 Anywhere starts closes view (currentKind >>= body) where
  leaves source ended _ := (each _).sound.leaves source ended rfl
  meets fork front source source' ahead _ _ _ := by
    by_cases before : 1 ≤ front.length
    · exact leads (fun kind (_ : True) => (each kind).sound) ahead before trivial
    obtain rfl : front = [] := List.length_eq_zero_iff.1 (by omega)
    obtain ⟨here, here'⟩ := ahead.at_fork
    have length := congrArg List.length ahead.signs
    have length' := congrArg List.length ahead.signs'
    rw [currentKind_bind, currentKind_bind]
    cases each source.current.kind with
    | reads start sound =>
        exact .gone (.of_leaves ((sound.leaves source ahead.ended rfl).mono fun _ => start) length)
    | stops close _ keeps =>
        obtain ⟨value, target, run, same⟩ := keeps source rfl
        rw [run]
        exact .ends ((signs_eq_of_bare same).trans ahead.signs) (here ▸ close)
    | refuses _ _ refuses =>
        obtain ⟨fault, target, run, same, -, content⟩ := refuses source rfl
        rw [run]
        cases each source'.current.kind with
        | reads start sound =>
            exact .past nofun
              (.of_leaves ((sound.leaves source' ahead.ended' rfl).mono fun _ => start) length')
        | stops close _ keeps =>
            obtain ⟨value', target', run', same'⟩ := keeps source' rfl
            rw [run']
            exact .waits ((signs_eq_of_bare same').trans ahead.signs') (here' ▸ close)
        | refuses other outside _ =>
            refine .stuck fun _ named => ?_
            rcases content _ named with moving | closing
            · exact other (here' ▸ moving)
            · exact outside (here' ▸ closing)

/-- The parser looks at its first token, and does with it what its kind calls
for. -/
def Branches (starts : Kind → Prop) (closes : List Kind) (view : α → γ) (parser : Parser α) :
    Prop :=
  ∃ body, parser = (currentKind >>= body) ∧ ∀ kind, Branch starts closes view kind (body kind)

theorem Branches.sound {parser : Parser α} (branches : Branches starts closes view parser) :
    Sound 0 Anywhere starts closes view parser := by
  obtain ⟨body, rfl, each⟩ := branches
  exact choose each

/-- A token that is neither read nor stopped at is refused. -/
theorem Branches.refused {parser : Parser α} (branches : Branches starts closes view parser)
    (other : ¬ starts source.current.kind) (outside : source.current.kind ∉ closes) :
    Refuses (fun kind => starts kind ∨ kind ∈ closes) parser source := by
  obtain ⟨body, rfl, each⟩ := branches
  cases each source.current.kind with
  | reads start _ => exact absurd start other
  | stops close _ _ => exact absurd close outside
  | refuses _ _ refuses => exact refuses source rfl

/-- The item of a repetition that ends in front of closing tokens. -/
theorem Branch.item {kind : Kind} {parser : Parser α} (sound : Sound 0 Anywhere starts [] id parser)
    (refused : ∀ source : Stream, ¬ starts source.current.kind → Refuses starts parser source)
    (outside : kind ∉ closes) :
    Branch starts closes id kind (parser >>= fun value => Pure.pure (Option.some value)) := by
  by_cases start : starts kind
  · exact .reads start (sound.at_kind (Nat.zero_le 1) id).some
  · refine .refuses start outside ?_
    rintro source rfl
    exact (refused source start).bind.mono fun kind => .inl

/-- A parser that reads on at some kinds, and reads nothing at all others. -/
theorem offer {body : Kind → Parser α} {value : α}
    (each : ∀ kind, starts kind → Sound 1 (· = kind) starts closes view (body kind))
    (stops : ∀ kind, ¬ starts kind → body kind = Pure.pure value) :
    Sound 0 Anywhere starts closes view (currentKind >>= body) := by
  have all : ∀ kind, Sound 1 (· = kind) starts closes view (body kind) := by
    intro kind
    by_cases start : starts kind
    · exact each kind start
    · rw [stops kind start]
      refine pure.mono (Nat.zero_le 1) (fun _ _ => trivial) ?_ (List.Subset.refl _)
      rintro _ rfl holds
      exact start holds
  refine ⟨fun source ended _ => (all _).leaves source ended rfl, ?_⟩
  intro fork front source source' ahead _ _ _
  by_cases before : 1 ≤ front.length
  · exact leads (fun kind (_ : True) => all kind) ahead before trivial
  obtain rfl : front = [] := List.length_eq_zero_iff.1 (by omega)
  have length := congrArg List.length ahead.signs
  have length' := congrArg List.length ahead.signs'
  rw [currentKind_bind, currentKind_bind]
  by_cases start : starts source.current.kind
  · exact .gone (.of_leaves (((all _).leaves source ahead.ended rfl).mono fun _ => start) length)
  rw [stops _ start]
  by_cases start' : starts source'.current.kind
  · refine .past ?_
      (.of_leaves (((all _).leaves source' ahead.ended' rfl).mono fun _ => start') length')
    rintro _ _ ⟨⟩
    exact length.le
  · rw [stops _ start']
    exact .ok rfl ⟨[], ahead⟩

/-- Where the first step may read nothing, the steps behind it may start. -/
theorem start_behind {first : Parser α} {next : α → Parser β} {more : Kind → Prop}
    (sound : Sound least known starts closes view' (first >>= next))
    (keeps : ∀ kind, more kind → Keeps kind first)
    (rest : ∀ value, Sound 0 Anywhere more closes' view' (next value)) :
    Sound least known (fun kind => starts kind ∨ more kind) closes view' (first >>= next) where
  leaves source ended holds := by
    by_cases start : more source.current.kind
    · obtain ⟨value, target, run, same⟩ := keeps _ start source rfl
      rw [bind_run run]
      refine (((rest value).leaves target ((Behind.of_bare same).ended ended) trivial).of_behind
        (Behind.of_bare same)).mono fun _ => ?_
      rwa [kind_eq_of_bare same]
    · exact (sound.leaves source ended holds).mono fun either => either.resolve_right start
  meets := sound.meets

end Sound

/-! ## Single tokens -/

theorem advance_sound :
    Sound 0 Anywhere (· ≠ .endOfInput) [] Token.sign advance where
  leaves source ended _ := behind_advance ended
  meets fork front source source' ahead _ _ _ := by
    have run : ∀ stream, advance stream = .ok stream.advance.1 stream.advance.2 := fun _ => rfl
    have shorter : ∀ stream : Stream, stream.upcoming ≠ [] →
        stream.signs.length = stream.advance.2.signs.length + 1 := by
      intro stream more
      rw [signs_advance more, List.length_cons]
    have length := congrArg List.length ahead.signs
    have length' := congrArg List.length ahead.signs'
    rw [run, run]
    cases front with
    | cons sign front =>
        obtain ⟨first, second⟩ := ahead.same_sign
        refine .ok ?_ ⟨front, ahead.advance⟩
        rw [advance_fst, advance_fst]
        exact first.trans second.symm
    | nil =>
        rw [List.nil_append, List.length_cons] at length length'
        by_cases more : source.upcoming = []
        · -- The last token stays, and the second run has more to read.
          obtain ⟨last, isLast, -⟩ := fork.ends'
          have some := List.length_pos_of_mem (List.mem_of_getLast? isLast)
          refine .past ?_ ?_
          · rintro _ _ ⟨⟩
            have least := (behind_advance ahead.ended).length_le
            omega
          · have further := shorter source' fun none => by
              rw [length_signs, none, List.length_nil] at length'
              omega
            show source'.advance.2.signs.length ≤ _
            omega
        · have further := shorter source more
          refine .gone ?_
          show source.advance.2.signs.length ≤ _
          omega

theorem unexpected_refuses {expected : List Kind} {content : Kind → Prop} (present : expected ≠ [])
    (missing : source.current.kind ∉ expected)
    (single : ∀ kind ∈ expected, kind ∉ Kind.comparisons)
    (all : ∀ kind ∈ expected, content kind) :
    Refuses content (unexpected expected : Parser α) source := by
  refine ⟨_, source, rfl, rfl, .of_stream source rfl ?_, all⟩
  rintro _ _ _ ⟨⟩
  exact ⟨rfl, present, missing, single⟩

namespace Sound.Branch

variable {starts : Kind → Prop} {closes : List Kind} {view : α → γ} {kind : Kind}

theorem advance (start : starts kind) (solid : kind ≠ .endOfInput) :
    Branch starts [] Token.sign kind Parser.advance :=
  .reads start (advance_sound.at_kind (Nat.zero_le 1) fun _ => solid)

/-- At a token that closes there is no further item. -/
theorem nothing {value : α} (close : kind ∈ closes) (other : ¬ starts kind) :
    Branch starts closes view kind (Pure.pure value) := by
  refine .stops close ?_ fun source _ => ⟨value, source, rfl, rfl⟩
  refine pure.mono (Nat.zero_le 1) (fun _ _ => trivial) ?_ (List.Subset.refl _)
  rintro _ rfl
  exact other

theorem unexpected {expected : List Kind} (other : ¬ starts kind) (outside : kind ∉ closes)
    (content : ∀ kind ∈ expected, starts kind ∨ kind ∈ closes) (present : expected ≠ [])
    (single : ∀ kind ∈ expected, kind ∉ Kind.comparisons) :
    Branch starts closes view kind (Parser.unexpected expected) := by
  refine .refuses other outside ?_
  rintro source rfl
  exact unexpected_refuses present (fun named => (content _ named).elim other outside) single content

theorem rejected {reason : String} (other : ¬ starts kind) (outside : kind ∉ closes) :
    Branch starts closes view kind (Parser.rejected reason) :=
  .refuses other outside fun source _ =>
    ⟨_, source, rfl, rfl, .of_stream source rfl nofun, nofun⟩

end Sound.Branch

theorem expectOneOf_branches (expected : List Kind) (present : expected ≠ [])
    (usual : ∀ kind ∈ expected, kind ∉ .endOfInput :: Kind.comparisons) :
    Sound.Branches (· ∈ expected) [] Token.sign (expectOneOf expected) := by
  refine ⟨_, rfl, fun kind => ?_⟩
  split
  · next member =>
      exact .advance member fun atEnd => usual kind member (atEnd ▸ List.mem_cons_self)
  · next other =>
      exact .unexpected other List.not_mem_nil (fun _ member => .inl member) present
        fun kind member single => usual kind member (List.mem_cons_of_mem _ single)

theorem expectOneOf_sound (expected : List Kind) (present : expected ≠ [])
    (usual : ∀ kind ∈ expected, kind ∉ .endOfInput :: Kind.comparisons) :
    Sound 0 Anywhere (· ∈ expected) [] Token.sign (expectOneOf expected) :=
  (expectOneOf_branches expected present usual).sound

theorem expect_branches (kind : Kind) (usual : kind ∉ .endOfInput :: Kind.comparisons) :
    Sound.Branches (· = kind) [] Token.sign (expect kind) := by
  have branches := expectOneOf_branches [kind] (List.cons_ne_nil _ _) (by simpa using usual)
  simp only [List.mem_singleton] at branches
  exact branches

theorem expect_sound (kind : Kind) (usual : kind ∉ .endOfInput :: Kind.comparisons) :
    Sound 0 Anywhere (· = kind) [] Token.sign (expect kind) :=
  (expect_branches kind usual).sound

theorem expectOr_sound (kind : Kind) (reason : String) (solid : kind ≠ .endOfInput) :
    Sound 0 Anywhere (· = kind) [] Token.sign (expectOr kind reason) := by
  apply Sound.choose
  intro found
  split
  · next same => exact .advance same (same ▸ solid)
  · next other => exact .rejected other List.not_mem_nil

theorem skip_sound (kind : Kind) (solid : kind ≠ .endOfInput) :
    Sound 0 Anywhere (· = kind) [] id (skip kind) := by
  apply Sound.offer
  · rintro _ rfl
    rw [if_pos rfl]
    exact (advance_sound.at_kind (Nat.zero_le 1) fun _ => solid).andThen .pure
  · intro found other
    rw [if_neg other]

/-! ## Repetition -/

section Repetition

variable {step : Parser (Option α)} {starts : Kind → Prop} {closes : List Kind}

theorem many_stops (stopped : step source = .ok none source) : many step source = .ok [] source :=
  bind_run stopped

/-- At a closing token a repetition ends, with whatever bound. -/
theorem manyWithin_stops (stops : ∀ kind ∈ closes, ∀ source : Stream, source.current.kind = kind →
      step source = .ok none source) (bound : List Token)
    (close : source.current.kind ∈ closes) : manyWithin step bound source = .ok [] source := by
  cases bound with
  | nil => rfl
  | cons token bound => exact manyWithin_cons_ok.2 (.inl ⟨stops _ close source rfl, rfl⟩)

/-- At a closing token no more items follow. -/
theorem round_stops (stops : ∀ kind ∈ closes, ∀ source : Stream, source.current.kind = kind →
      step source = .ok none source) (bound : List Token) (found : Option α)
    (close : source.current.kind ∈ closes) :
    ∃ items target, (match found with
      | none => Pure.pure []
      | some item => do return item :: (← manyWithin step bound) : Parser (List α)) source =
        .ok items target ∧ target.bare = source.bare := by
  cases found with
  | none => exact ⟨[], source, rfl, rfl⟩
  | some item => exact ⟨[item], source, bind_run (manyWithin_stops stops bound close), rfl⟩

theorem manyWithin_leaves (sound : Sound 0 Anywhere starts closes id step) (bound : List Token)
    (ended : source.Ended) : Leaves False source (manyWithin step bound source) := by
  induction bound generalizing source with
  | nil => exact Behind.refl source
  | cons token bound ih =>
      apply ((sound.leaves source ended trivial).mono False.elim).bind
      rintro (_ | item) target run
      · exact Behind.refl target
      · exact (ih (sound.ended ended trivial run)).bind fun _ last _ => Behind.refl last

theorem round_leaves (sound : Sound 0 Anywhere starts closes id step) (bound : List Token)
    (found : Option α) (ended : source.Ended) :
    Leaves False source ((match found with
      | none => Pure.pure []
      | some item => do return item :: (← manyWithin step bound) : Parser (List α)) source) := by
  cases found with
  | none => exact Behind.refl source
  | some item => exact (manyWithin_leaves sound bound ended).bind fun _ last _ => Behind.refl last

/-- A step that reads on where it returns an item does not use the tokens up. -/
theorem shrinks_of_sound (sound : Sound 0 Anywhere starts closes id step)
    (items : ∀ source item target, step source = .ok (some item) target →
      starts source.current.kind) : Shrinks Stream.Ended step := by
  intro source item target ended run
  have fewer := (sound.behind ended trivial run).shorter (items _ _ _ run)
  rw [length_signs, length_signs] at fewer
  exact ⟨sound.ended ended trivial run, by omega⟩

/-- A step that returns an item wherever it reads on, and nothing at closing
tokens, may be repeated. -/
theorem many_sound (sound : Sound 0 Anywhere starts closes id step)
    (items : ∀ source item target, step source = .ok (some item) target →
      starts source.current.kind)
    (stops : ∀ kind ∈ closes, ∀ source : Stream, source.current.kind = kind →
      step source = .ok none source) :
    Sound 0 Anywhere starts closes id (many step) where
  leaves source ended _ := by
    apply (sound.leaves source ended trivial).bind
    exact fun found target run => round_leaves sound _ found (sound.ended ended trivial run)
  meets fork front source source' ahead _ _ _ := by
    have shrinks := shrinks_of_sound sound items
    suffices rounds : ∀ bound bound' front source source', fork.Ahead front source source' →
        source.upcoming.length < bound.length → source'.upcoming.length < bound'.length →
        Meets fork closes id (manyWithin step bound source) (manyWithin step bound' source') from
      rounds _ _ front source source' ahead (by simp) (by simp)
    intro bound
    induction bound with
    | nil =>
        intro _ _ _ _ _ none
        exact absurd none (Nat.not_lt_zero _)
    | cons token bound ih =>
        rintro (_ | ⟨token', bound'⟩) front source source' ahead enough enough'
        · exact absurd enough' (Nat.not_lt_zero _)
        rw [List.length_cons] at enough enough'
        apply (sound.meets fork front source source' ahead (Nat.zero_le _) trivial trivial).bind
        · exact fun found target run =>
            round_leaves sound bound found (sound.ended ahead.ended trivial run)
        · exact fun found target run =>
            round_leaves sound bound' found (sound.ended ahead.ended' trivial run)
        · rintro (_ | item) found' target target' front' run run' rfl aheadThen
          · exact .ok rfl ⟨front', aheadThen⟩
          · have fewer := (shrinks _ _ _ ahead.ended run).2
            have fewer' := (shrinks _ _ _ ahead.ended' run').2
            apply (ih bound' front' target target' aheadThen (by omega) (by omega)).bind
            · exact fun _ last _ => Behind.refl last
            · exact fun _ last _ => Behind.refl last
            · rintro items _ last last' front'' _ _ rfl aheadLast
              exact .ok rfl ⟨front'', aheadLast⟩
            · exact fun _ last _ close => .inr ⟨close, _, last, rfl, rfl⟩
            · exact fun _ last _ close => .inr ⟨close, _, last, rfl, rfl⟩
        · exact fun found target _ close => .inr ⟨close, round_stops stops bound found close⟩
        · exact fun found target _ close => .inr ⟨close, round_stops stops bound' found close⟩

end Repetition

end Parser

end NixSyntax
