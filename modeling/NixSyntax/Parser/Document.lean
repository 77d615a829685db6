/-
Module: NixSyntax.Parser.Document
Purpose: Parsing a whole source text or token stream.
Main exports: parseTokens, parse
-/
import NixSyntax.Parser.Expression
import NixSyntax.Token.Layout

namespace NixSyntax

/-- Reads one expression up to the end of the input.  Comments that a blank line
sets apart from its first token belong to the document. -/
def Parser.document (grammar : Grammar) (limit : Nat) : Parser Document := do
  let before ← takeDetached
  let value ← expression grammar limit limit .base
  if (← currentKind) = .endOfInput then
    return { before, value, after := ← takeBefore }
  else unexpected [.endOfInput]

/-- Parses tokens.  The end of the input may be missing. -/
def parseTokens (options : Options) (tokens : List Token) : Except Fault Document :=
  let grammar := Grammar.standard options.fallback
  match Parser.document grammar options.maxDepth (.ofTokens options.file tokens) with
  | .ok document _ => .ok document
  | .error fault _ => .error fault

/-- Parses a source text. -/
def parse (options : Options) (source : String) : Except Fault Document := do
  parseTokens options (← tokenize options.file source)

end NixSyntax
