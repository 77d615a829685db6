/-
Module: NixSyntax.Comment
Purpose: Comments, and the margin of comments around a node.
Main exports: Comment, Comment.source, Comment.breaksLine, Margin
-/

namespace NixSyntax

/-!
A comment is data for this library: its text is never interpreted, and every
comment of a source text must end up in the tree exactly once.  The text is
kept without the delimiters, because the style already says which ones they
are.
-/

/-- A line comment runs from `#` to the end of the line.  A block comment stands
between `/*` and `*/` and may hold line breaks. -/
inductive CommentStyle where
  | line
  | block
deriving Repr, Inhabited, DecidableEq

/-- A comment with the text between its delimiters. -/
structure Comment where
  style : CommentStyle
  text : String
deriving Repr, Inhabited, DecidableEq

/-- The comment as it is written in a source text. -/
def Comment.source (comment : Comment) : String :=
  match comment.style with
  | .line => "#" ++ comment.text
  | .block => "/*" ++ comment.text ++ "*/"

/-- Whether the text after this comment stands on a later line than the text
before it.  A line comment does not count: the line break that ends it is not
part of it. -/
def Comment.breaksLine (comment : Comment) : Bool :=
  match comment.style with
  | .line => false
  | .block => comment.text.toList.contains '\n'

/-- The comments directly before and directly after a node. -/
structure Margin where
  before : List Comment := []
  after : List Comment := []
deriving Repr, Inhabited, DecidableEq

/-- A margin without any comment. -/
def Margin.isEmpty (margin : Margin) : Bool :=
  margin.before.isEmpty && margin.after.isEmpty

end NixSyntax
