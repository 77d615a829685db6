/-
Module: NixSyntax.Token.StringText
Purpose: The literal text inside a string, with its escapes resolved.
Main exports: unescape, quotedText, indentedText
-/

namespace NixSyntax

/-!
Inside a string, literal text runs up to the end of the string or to an
interpolation.  The functions here return the decoded text and the number of
characters read, and nothing if the input ends first.  A width of 0 means
that the string ends, or an interpolation starts, right here.

Two dollar signs are always read as a pair of literal ones, so the brace in
`$${` does not start an interpolation.
-/

/-- The character that an escape stands for, given what follows the
backslash. -/
def unescape (c : Char) : Char :=
  match c with
  | 'n' => '\n'
  | 't' => '\t'
  | 'r' => '\r'
  | _ => c

/-- Puts decoded characters, and the width of what they were read from, in front
of the literal text that follows. -/
def consText (value : List Char) (width : Nat) (text : List Char × Nat) : List Char × Nat :=
  (value ++ text.1, width + text.2)

/-- Literal text of a string in double quotes.  A backslash takes the next
character with it. -/
def quotedText : List Char → Option (List Char × Nat)
  | [] => none
  | '"' :: _ => some ([], 0)
  | '$' :: '{' :: _ => some ([], 0)
  | '$' :: '$' :: rest => (quotedText rest).map (consText ['$', '$'] 2)
  | '\\' :: c :: rest => (quotedText rest).map (consText [unescape c] 2)
  | c :: rest => (quotedText rest).map (consText [c] 1)

/-- Literal text of an indented string.  Two single quotes start an escape if a
third one, a dollar sign or a backslash follows, and end the string
otherwise. -/
def indentedText : List Char → Option (List Char × Nat)
  | [] => none
  | '\'' :: '\'' :: '\'' :: rest => (indentedText rest).map (consText ['\'', '\''] 3)
  | '\'' :: '\'' :: '$' :: rest => (indentedText rest).map (consText ['$'] 3)
  | '\'' :: '\'' :: '\\' :: c :: rest => (indentedText rest).map (consText [unescape c] 4)
  | ['\'', '\'', '\\'] => none
  | '\'' :: '\'' :: _ => some ([], 0)
  | '$' :: '{' :: _ => some ([], 0)
  | '$' :: '$' :: rest => (indentedText rest).map (consText ['$', '$'] 2)
  | c :: rest => (indentedText rest).map (consText [c] 1)

end NixSyntax
