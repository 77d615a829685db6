/-
Module: NixSyntax.Token
Purpose: Tokens with their source text and the comments next to them.
Main exports: Token, Token.shown, Token.endAt
-/
import NixSyntax.Comment
import NixSyntax.Position
import NixSyntax.Token.Kind

namespace NixSyntax

/-- A token with the comments between it and its neighbours.

`raw` is the source text and `value` what it stands for; the two differ only for
string text with escapes.  A comment that starts on the line on which the token
in front of it ends is `trailing` for that token, and every other comment is
`leading` for the token after it.  The first `detached` leading comments are set
apart from the token by a blank line. -/
structure Token where
  kind : Kind
  value : String
  raw : String
  span : Span
  leading : List Comment := []
  trailing : List Comment := []
  detached : Nat := 0
deriving Repr, Inhabited, DecidableEq

namespace Token

/-- The token as it is named in a message. -/
def shown (token : Token) : String :=
  if token.kind = .endOfInput then "end of input" else "`" ++ token.raw ++ "`"

/-- The end of the input, found at the given position. -/
def endAt (position : Position) : Token :=
  { kind := .endOfInput, value := "EOF", raw := ""
    span := { start := position, stop := position } }

/-- The token with positions that lack a file name taken to be in `file`. -/
def inFile (file : String) (token : Token) : Token :=
  { token with
    span := { start := token.span.start.inFile file, stop := token.span.stop.inFile file } }

end Token

end NixSyntax
