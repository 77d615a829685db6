/-
Module: NixSyntax.Parser.Stream
Purpose: The tokens still to be read, and the steps that every rule is made of.
Main exports: Stream, Stream.ofTokens, Parser, advance, expect, takeBefore, takeAfter, many
-/
import NixSyntax.Fault
import NixSyntax.Parser.Unclaimed

namespace NixSyntax

/-! ### Streams -/

/-- The state of a parse: the current token, the tokens behind it and the
comments that wait to be attached.  The last token is never passed, so there is
always a current one. -/
structure Stream where
  current : Token
  upcoming : List Token
  unclaimed : Unclaimed := {}
deriving Repr, Inhabited, DecidableEq

namespace Stream

/-- Starts on tokens of the named file.  The end of the input is supplied if the
tokens do not end with it. -/
def ofTokens (file : String) (tokens : List Token) : Stream :=
  let start : Position := { offset := 0, file }
  match tokens.map (Token.inFile file) with
  | [] => { current := Token.endAt start, upcoming := [] }
  | token :: rest =>
    let last := rest.getLastD token
    if last.kind = .endOfInput then { current := token, upcoming := rest }
    else { current := token, upcoming := rest ++ [Token.endAt last.span.stop] }

/-- The token that is `distance` tokens ahead, or the last token if there are
not as many. -/
def peek (stream : Stream) (distance : Nat) : Token :=
  ((stream.current :: stream.upcoming)[distance]?).getD (stream.upcoming.getLastD stream.current)

/-- The position of the current token. -/
def position (stream : Stream) : Position :=
  stream.current.span.start

/-- The fault with the given cause at the current token. -/
def fault (stream : Stream) (cause : Cause) : Fault :=
  { cause, position := stream.position }

/-- The fault that the current token is of none of the expected kinds. -/
def unexpected (stream : Stream) (expected : List Kind) : Fault :=
  stream.fault (.unexpected expected stream.current.kind stream.current.shown)

/-- The fault that the current token cannot stand here, for a reason. -/
def rejected (stream : Stream) (reason : String) : Fault :=
  stream.fault (.rejected stream.current.shown reason)

/-- Reads the current token: its comments become unclaimed, and the next token
is the current one.  The last token stays. -/
def advance (stream : Stream) : Token × Stream :=
  let (unclaimed, spent) := stream.unclaimed.consume stream.current
  match stream.upcoming with
  | [] => (spent, { current := spent, upcoming := [], unclaimed })
  | next :: rest => (spent, { current := next, upcoming := rest, unclaimed })

end Stream

/-! ### Parsers -/

/-- A parser reads tokens off a stream.  A parser that fails leaves the stream
where it was found to be at fault. -/
abbrev Parser := EStateM Fault Stream

namespace Parser

/-- The kind of the current token. -/
def currentKind : Parser Kind := do
  return (← get).current.kind

/-- The kind of the token some way ahead. -/
def peekKind (distance : Nat) : Parser Kind := do
  return ((← get).peek distance).kind

/-- Fails with the given cause at the current token. -/
def fail {α : Type} (cause : Cause) : Parser α := do
  throw ((← get).fault cause)

/-- Fails because the current token is of none of the expected kinds. -/
def unexpected {α : Type} (expected : List Kind) : Parser α := do
  throw ((← get).unexpected expected)

/-- Fails because the current token cannot stand here. -/
def rejected {α : Type} (reason : String) : Parser α := do
  throw ((← get).rejected reason)

/-- Reads the current token. -/
def advance : Parser Token := do
  let (token, stream) := (← get).advance
  set stream
  return token

/-- Reads a token of one of the expected kinds. -/
def expectOneOf (expected : List Kind) : Parser Token := do
  if (← currentKind) ∈ expected then advance else unexpected expected

/-- Reads a token of the expected kind. -/
def expect (kind : Kind) : Parser Token :=
  expectOneOf [kind]

/-- Reads a token of the expected kind, or fails for the given reason. -/
def expectOr (kind : Kind) (reason : String) : Parser Token := do
  if (← currentKind) = kind then advance else rejected reason

/-- Reads the current token if it is of the given kind, and tells whether it
was. -/
def skip (kind : Kind) : Parser Bool := do
  if (← currentKind) = kind then
    let _ ← advance
    return true
  else return false

/-- Takes the comments for a node that starts at the current token. -/
def takeBefore : Parser (List Comment) := do
  let stream ← get
  let (comments, current) := stream.unclaimed.before stream.current
  set { stream with current, unclaimed := {} }
  return comments

/-- Takes the comments for a node that ended in front of the current token. -/
def takeAfter : Parser (List Comment) := do
  let stream ← get
  let (comments, current) := stream.unclaimed.after stream.current
  set { stream with current, unclaimed := {} }
  return comments

/-- Takes the comments of the tokens that were read. -/
def takeUnclaimed : Parser (List Comment) := do
  let stream ← get
  set { stream with unclaimed := {} }
  return stream.unclaimed.all

/-- Takes the comments that a blank line sets apart from the current token. -/
def takeDetached : Parser (List Comment) := do
  let stream ← get
  let (comments, current) := stream.current.takeDetached
  set { stream with current }
  return comments

/-! ### Repetition -/

/-- Collects what `step` returns until it returns nothing, for at most as many
rounds as `bound` has tokens. -/
def manyWithin {α : Type} (step : Parser (Option α)) (bound : List Token) : Parser (List α) :=
  match bound with
  | [] => return []
  | _ :: bound => do
    match ← step with
    | none => return []
    | some item => return item :: (← manyWithin step bound)

/-- Collects what `step` returns until it returns nothing.  A step that returns
something reads at least one token, and nothing is read off the last token, so
the unread tokens bound the number of rounds. -/
def many {α : Type} (step : Parser (Option α)) : Parser (List α) := do
  let stream ← get
  manyWithin step (stream.current :: stream.upcoming)

end Parser

end NixSyntax
