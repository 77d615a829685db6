/-
Module: NixSyntax.Session
Purpose: A parse that is driven step by step.
Main exports: Session, Session.start, Request, Reply, Session.handle
-/
import NixSyntax.Parser.Document

namespace NixSyntax

/-!
A session holds a stream, a grammar and a depth, and answers requests on them.
A request that fails leaves the session as the failed parser left it, so a
caller can look at the place of the fault or go on from there.
-/

/-- A parse in progress. -/
structure Session where
  options : Options
  grammar : Grammar
  stream : Stream
  depth : Nat := 0

/-- Starts a session on tokens, with the rules of the language or with none. -/
def Session.start (options : Options) (withRules : Bool) (tokens : List Token) : Session :=
  { options
    grammar := if withRules then .standard options.fallback else .empty
    stream := .ofTokens options.file tokens }

/-- What can be asked of a session. -/
inductive Request where
  | current
  | shown
  | peek (distance : Nat)
  | peekKind (distance : Nat)
  | isOneOf (kinds : List Kind)
  | advance
  | expect (kind : Kind)
  | expectOneOf (kinds : List Kind)
  | expectOr (kind : Kind) (reason : String)
  | unexpected (kinds : List Kind)
  | rejected (reason : String)
  | descend
  | ascendTo (depth : Nat)
  | takeBefore
  | takeAfter
  | takeUnclaimed
  | currentPower
  | options
  | position
  | setStart (kind : Kind) (rule : StartRule)
  | setJoin (kind : Kind) (power : Power) (rule : JoinRule)
  | expression (power : Power)
  | startRule (rule : StartRule)
  /-- Applies a join rule with `null` on its left. -/
  | joinRule (rule : JoinRule) (power : Power)
  | string
  | interpolation
  | attrPath
deriving Repr, Inhabited, DecidableEq

/-- What a session answers. -/
inductive Reply where
  | done
  | fault (fault : Fault)
  | token (token : Token)
  | kind (kind : Kind)
  | text (text : String)
  | flag (value : Bool)
  | comments (comments : List Comment)
  | power (power : Power)
  | options (options : Options)
  | position (position : Position)
  | expr (expr : Expr)
  | string (indented : Bool) (parts : List StringPart)
  | interpolation (value : Expr)
  | attrPath (path : List Segment)

namespace Session

/-- Runs a parser on the stream. -/
def run {α : Type} (session : Session) (parser : Parser α) (reply : α → Reply) :
    Reply × Session :=
  match parser session.stream with
  | .ok value stream => (reply value, { session with stream })
  | .error fault stream => (.fault fault, { session with stream })

/-- The levels that expressions may still nest. -/
def levels (session : Session) : Nat :=
  session.options.maxDepth - session.depth

/-- Runs a parser that reads nested expressions.  It gives back every level that
it enters; only an entry that is refused because no level is left still
counts. -/
def runNested {α : Type} (session : Session) (parser : ExprParser → Parser α)
    (reply : α → Reply) : Reply × Session :=
  let limit := session.options.maxDepth
  let (answer, after) :=
    session.run (parser (Parser.expression session.grammar limit session.levels)) reply
  match answer, session.levels with
  | .fault { cause := .tooDeep _, .. }, 0 => (answer, { after with depth := after.depth + 1 })
  | _, _ => (answer, after)

/-- Enters a level, which fails if there is none left. -/
def descend (session : Session) : Reply × Session :=
  let session := { session with depth := session.depth + 1 }
  let limit := session.options.maxDepth
  if limit < session.depth then (.fault (session.stream.fault (.tooDeep limit)), session)
  else (.done, session)

/-- Answers a request. -/
def handle (session : Session) : Request → Reply × Session
  | .current => (.token session.stream.current, session)
  | .shown => (.text session.stream.current.shown, session)
  | .peek distance => (.token (session.stream.peek distance), session)
  | .peekKind distance => (.kind (session.stream.peek distance).kind, session)
  | .isOneOf kinds => (.flag (session.stream.current.kind ∈ kinds), session)
  | .advance => session.run Parser.advance .token
  | .expect kind => session.run (Parser.expect kind) .token
  | .expectOneOf kinds => session.run (Parser.expectOneOf kinds) .token
  | .expectOr kind reason => session.run (Parser.expectOr kind reason) .token
  | .unexpected kinds => (.fault (session.stream.unexpected kinds), session)
  | .rejected reason => (.fault (session.stream.rejected reason), session)
  | .descend => session.descend
  | .ascendTo depth => (.done, { session with depth })
  | .takeBefore => session.run Parser.takeBefore .comments
  | .takeAfter => session.run Parser.takeAfter .comments
  | .takeUnclaimed => session.run Parser.takeUnclaimed .comments
  | .currentPower => (.power (session.grammar.power session.stream.current.kind), session)
  | .options => (.options session.options, session)
  | .position => (.position session.stream.position, session)
  | .setStart kind rule => (.done, { session with grammar := session.grammar.setStart kind rule })
  | .setJoin kind power rule =>
    (.done, { session with grammar := session.grammar.setJoin kind power rule })
  | .expression power => session.runNested (fun expr => expr power) .expr
  | .startRule rule => session.runNested (fun expr => rule.parse expr) .expr
  | .joinRule rule power =>
    session.runNested (fun expr => rule.parse session.grammar expr (.bare .null) power) .expr
  | .string => session.runNested Parser.stringLiteral fun (indented, parts) =>
      .string indented parts
  | .interpolation => session.runNested Parser.interpolated .interpolation
  | .attrPath => session.runNested Parser.attrPath .attrPath

end Session

end NixSyntax
