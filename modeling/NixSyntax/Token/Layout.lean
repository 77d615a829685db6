/-
Module: NixSyntax.Token.Layout
Purpose: Giving every comment of a source text to the token that it stands next to.
Main exports: Gap, Layout, Layout.ofPieces, Layout.tokens, tokenize
-/
import NixSyntax.Token
import NixSyntax.Token.Scan

namespace NixSyntax

/-!
The pieces of a source text are grouped into lexemes and the gaps between
them.  The comments of a gap are shared out by lines: those that start on the
line on which the lexeme in front ends go to that lexeme, and all others to
the lexeme behind.  In front of the first lexeme there is nothing to share
with.
-/

/-- All that stands between two lexemes. -/
abbrev Gap := List Trivium

namespace Gap

/-- The number of bytes in a gap. -/
def size : Gap → Nat
  | [] => 0
  | trivium :: rest => utf8Length trivium.raw + size rest

/-- The comments of a gap in their order. -/
def comments : Gap → List Comment
  | [] => []
  | .blank _ :: rest => comments rest
  | .comment it :: rest => it :: comments rest

/-- The part of a gap up to its first line break, and the part from there on.  A
block comment that holds a line break still starts on the first line. -/
def splitLine : Gap → Gap × Gap
  | [] => ([], [])
  | .blank raw :: rest =>
    if raw.contains '\n' then ([], .blank raw :: rest)
    else
      let (first, others) := splitLine rest
      (.blank raw :: first, others)
  | .comment it :: rest =>
    if it.breaksLine then ([.comment it], rest)
    else
      let (first, others) := splitLine rest
      (.comment it :: first, others)

/-- How many of the comments stand in front of the last blank line. -/
def detached : Gap → Nat
  | [] => 0
  | .blank _ :: rest => detached rest
  | .comment _ :: rest =>
    let others := detached rest
    if 0 < others then others + 1
    else
      match rest with
      | .blank raw :: _ => if 1 < raw.count '\n' then 1 else 0
      | _ => 0

end Gap

/-- The lexemes of a source text, each with the gap behind it, and the gap in
front of the first one. -/
structure Layout where
  lead : Gap := []
  items : List (Lexeme × Gap) := []
deriving Repr, Inhabited, DecidableEq

namespace Layout

/-- Groups pieces into lexemes and gaps. -/
def ofPieces : List Piece → Layout
  | [] => {}
  | .trivium it :: rest =>
    let layout := ofPieces rest
    { layout with lead := it :: layout.lead }
  | .lexeme it :: rest =>
    let layout := ofPieces rest
    { lead := [], items := (it, layout.lead) :: layout.items }

/-- The position of a byte in a file. -/
def positionAt (file : String) (offset : Nat) : Position :=
  { offset := offset.toUInt32, file }

/-- The token that a lexeme makes at the given offset. -/
def tokenAt (file : String) (offset : Nat) (lexeme : Lexeme) : Token :=
  { kind := lexeme.kind
    value := String.ofList lexeme.value
    raw := String.ofList lexeme.raw
    span :=
      { start := positionAt file offset
        stop := positionAt file (offset + utf8Length lexeme.raw) } }

/-- The tokens of lexemes, the first of which stands at the given offset.
`above` is what the gap in front of it has left for it. -/
def tokensFrom (file : String) (offset : Nat) (above : Gap) :
    List (Lexeme × Gap) → List Token
  | [] =>
    [{ Token.endAt (positionAt file offset) with
        leading := above.comments, detached := above.detached }]
  | (lexeme, gap) :: items =>
    { tokenAt file offset lexeme with
      leading := above.comments
      trailing := gap.splitLine.1.comments
      detached := above.detached } ::
      tokensFrom file (offset + utf8Length lexeme.raw + gap.size) gap.splitLine.2 items

/-- The tokens of a source text, the end of the input being the last. -/
def tokens (file : String) (layout : Layout) : List Token :=
  tokensFrom file layout.lead.size layout.lead layout.items

end Layout

/-- Splits a source text into tokens.  The last token is the end of the input,
which carries the comments behind all other tokens. -/
def tokenize (file source : String) : Except Fault (List Token) :=
  match scan [] 0 source.toList with
  | .error (cause, offset) => .error { cause, position := Layout.positionAt file offset }
  | .ok pieces => .ok ((Layout.ofPieces pieces).tokens file)

end NixSyntax
