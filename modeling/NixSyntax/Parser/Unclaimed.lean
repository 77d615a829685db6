/-
Module: NixSyntax.Parser.Unclaimed
Purpose: Moving comments from the tokens that were read to the nodes they belong to.
Main exports: Kind.keepsTrailing, Kind.isFollower, Unclaimed, Desk, Desk.perform
-/
import NixSyntax.Token

namespace NixSyntax

/-!
A token hands its comments over when it is read, and from then on they wait
to be claimed by a node.  Every operation moves comments from one place to
another and copies none, so each comment is attached once.
-/

namespace Kind

/-- Kinds that can end a node.  A comment behind one of them on the same line
belongs to the node that just ended rather than to the next one. -/
def keepsTrailing : Kind → Bool
  | int | float | identifier | path | kwTrue | kwFalse | kwNull | quoteClose | indentClose
  | interpClose | bracketClose | curlyClose | parenClose | semicolon | comma | ellipsis
  | endOfInput => true
  | _ => false

/-- Kinds that continue or close the expression in front of them.  Comments on
the lines above one of them belong to that expression. -/
def isFollower : Kind → Bool
  | plus | dash | star | slash | update | concat | and | or | implies | equal | notEqual | less
  | lessEqual | greater | greaterEqual | question | kwOr | dot | semicolon | comma | colon
  | atSign | kwThen | kwElse | parenClose | interpClose => true
  | _ => false

end Kind

/-- Comments of tokens that were read which no node has claimed.  Those behind
the last token are kept apart if that token can end a node. -/
structure Unclaimed where
  pending : List Comment := []
  ending : List Comment := []
deriving Repr, Inhabited, DecidableEq

namespace Unclaimed

/-- All unclaimed comments in their order. -/
def all (unclaimed : Unclaimed) : List Comment :=
  unclaimed.pending ++ unclaimed.ending

/-- Takes over the comments of a token that was read. -/
def consume (unclaimed : Unclaimed) (token : Token) : Unclaimed × Token :=
  let pending := unclaimed.all ++ token.leading
  let spent := { token with leading := [], trailing := [] }
  if token.kind.keepsTrailing then ({ pending, ending := token.trailing }, spent)
  else ({ pending := pending ++ token.trailing, ending := [] }, spent)

/-- The comments for a node that starts at the token `next`, and the token
without them.  No comment stays unclaimed. -/
def before (unclaimed : Unclaimed) (next : Token) : List Comment × Token :=
  (unclaimed.all ++ next.leading, { next with leading := [] })

/-- The comments for a node that ended in front of the token `next`, and the
token without them.  No comment stays unclaimed. -/
def after (unclaimed : Unclaimed) (next : Token) : List Comment × Token :=
  if next.kind.isFollower then unclaimed.before next else (unclaimed.all, next)

end Unclaimed

/-- The leading comments of a token that a blank line sets apart from it, and
the token without them. -/
def Token.takeDetached (token : Token) : List Comment × Token :=
  (token.leading.take token.detached, { token with leading := token.leading.drop token.detached })

/-! ### Any order of operations -/

/-- The operations on the comments of a token. -/
inductive CommentAction where
  | consume
  | unclaimed
  | before
  | after
  | header
deriving Repr, Inhabited, DecidableEq

/-- Tokens whose comments are being moved. -/
structure Desk where
  unclaimed : Unclaimed := {}
  tokens : List Token
deriving Repr, Inhabited, DecidableEq

/-- What an operation on a token yields: the comments it takes, those left
unclaimed, and the token without its share. -/
def CommentAction.run (unclaimed : Unclaimed) (token : Token) :
    CommentAction → List Comment × Unclaimed × Token
  | consume => ([], unclaimed.consume token)
  | .unclaimed => (unclaimed.all, {}, token)
  | before => ((unclaimed.before token).1, {}, (unclaimed.before token).2)
  | after => ((unclaimed.after token).1, {}, (unclaimed.after token).2)
  | header => (token.takeDetached.1, unclaimed, token.takeDetached.2)

/-- Performs an operation with the token of the given index. -/
def Desk.perform (desk : Desk) (action : CommentAction) (index : Nat) : List Comment × Desk :=
  match desk.tokens[index]? with
  | none => ([], desk)
  | some token =>
    let (comments, unclaimed, token) := action.run desk.unclaimed token
    (comments, { unclaimed, tokens := desk.tokens.set index token })

end NixSyntax
