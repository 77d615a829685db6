/-
Module: NixSyntax.Proofs.Balance
Purpose: Words of signs that close what they open, between two places of a stream.
Main exports: Kind.settle, Sign.leaves, Sign.Balanced, Stream.Enclosed
-/
import NixSyntax.Proofs.Nesting
import NixSyntax.Proofs.Reading

namespace NixSyntax

/-!
The stack of the scanner forgives a closing brace that nothing has opened.  A
parser never reads one, so here a closer has to take its own opener off.  What
a word leaves open is then the same on top of every stack, and in particular on
top of the one that the scanner had in front of the word.
-/

/-! ## Words that take off only their own openers -/

/-- The openers that are left open behind a token that closes none but the
innermost one. -/
def Kind.settle : Kind → List Kind → Option (List Kind)
  | curlyClose, curlyOpen :: held => some held
  | interpClose, interpOpen :: held => some held
  | quoteClose, quoteOpen :: held => some held
  | indentClose, indentOpen :: held => some held
  | curlyClose, _ | interpClose, _ | quoteClose, _ | indentClose, _ => none
  | kind, held => some (kind.track held)

/-- A closer that takes its own opener off does so on top of every stack, and
the scanner agrees. -/
theorem Kind.track_of_settle {kind : Kind} {held left : List Kind}
    (settles : kind.settle held = some left) (outer : List Kind) :
    kind.track (held ++ outer) = left ++ outer := by
  unfold settle at settles
  split at settles <;> cases settles <;> try rfl
  cases kind <;> first | rfl | contradiction

theorem Kind.settle_opener {opener close : Kind} (closes : opener.closer? = some close)
    (held : List Kind) : opener.settle held = some (opener :: held) := by
  cases opener <;> cases closes <;> rfl

theorem Kind.settle_closer {opener close : Kind} (closes : opener.closer? = some close)
    (held : List Kind) : close.settle (opener :: held) = some held := by
  cases opener <;> cases closes <;> rfl

/-- What is left open behind a word, if its closers take off only openers that
are held or that it has opened itself. -/
def Sign.leaves (held : List Kind) (word : List Sign) : Option (List Kind) :=
  word.foldlM (fun held sign => sign.kind.settle held) held

/-- A word that closes all it opens and nothing else. -/
def Sign.Balanced (word : List Sign) : Prop :=
  leaves [] word = some []

instance (word : List Sign) : Decidable (Sign.Balanced word) :=
  inferInstanceAs (Decidable (_ = _))

theorem Sign.leaves_append_singleton {held middle : List Kind} {word : List Sign} {sign : Sign}
    (before : leaves held word = some middle) :
    leaves held (word ++ [sign]) = sign.kind.settle middle := by
  rw [leaves, List.foldlM_append, ← leaves, before]
  simp [List.foldlM]

/-! ## Nested signs from some place on -/

/-- What stands behind nested signs is nested. -/
theorem Nested.behind {stack : List Kind} {previous : Option Kind} {front signs : List Sign}
    (nested : Nested stack previous (front ++ signs)) :
    ∃ stack' previous', Nested stack' previous' signs := by
  induction front generalizing stack previous with
  | nil => exact ⟨stack, previous, nested⟩
  | cons sign front ih => exact ih nested.2

namespace Stream

/-- From `origin` to the stream a word was read that leaves `held` open, and the
signs ahead are nested inside these openers and those that were open before. -/
structure Enclosed (origin : Stream) (outer held : List Kind) (stream : Stream) : Prop where
  ended : stream.Ended
  passed : ∃ word, origin.signs = word ++ stream.signs ∧ Sign.leaves [] word = some held
  nested : ∃ previous, Nested (held ++ outer) previous stream.signs

variable {origin source target : Stream} {outer held left : List Kind}

theorem Enclosed.start {previous : Option Kind} (ended : origin.Ended)
    (nested : Nested outer previous origin.signs) : origin.Enclosed outer [] origin :=
  ⟨ended, ⟨[], rfl, rfl⟩, ⟨previous, nested⟩⟩

theorem Enclosed.of_signs (same : source.signs = target.signs)
    (enclosed : origin.Enclosed outer held source) : origin.Enclosed outer held target := by
  obtain ⟨ended, passed, nested⟩ := enclosed
  rw [Ended] at ended
  rw [same] at ended passed nested
  exact ⟨ended, passed, nested⟩

/-- Reading a token opens what it opens and closes what it closes. -/
theorem Enclosed.advance (enclosed : origin.Enclosed outer held source)
    (solid : source.current.kind ≠ .endOfInput)
    (settles : source.current.kind.settle held = some left) :
    origin.Enclosed outer left source.advance.2 := by
  have split := signs_advance (upcoming_ne_nil enclosed.ended solid)
  obtain ⟨word, shape, leaves⟩ := enclosed.passed
  obtain ⟨previous, nested⟩ := enclosed.nested
  refine ⟨?_, ⟨word ++ [source.current.sign], ?_, ?_⟩, ⟨some source.current.kind, ?_⟩⟩
  · exact ((takes_advance solid trivial : source.Takes ⊤ _).reads).ended enclosed.ended
  · rw [shape, split, List.append_assoc, List.singleton_append]
  · exact (Sign.leaves_append_singleton leaves).trans settles
  · rw [split] at nested
    have behind := nested.2
    rwa [Token.sign, Kind.track_of_settle settles] at behind

/-- In a string there is text, an interpolation or the end of the string. -/
theorem Enclosed.in_string {opener : Kind} (enclosed : origin.Enclosed outer held source)
    (top : (held ++ outer).head? = some opener) (string : opener.opensString) :
    source.current.kind = .fragment ∨ source.current.kind = .interpOpen ∨
      opener.closer? = some source.current.kind := by
  obtain ⟨previous, nested⟩ := enclosed.nested
  exact nested.1.inString opener top string

end Stream

end NixSyntax
