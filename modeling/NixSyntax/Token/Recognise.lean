/-
Module: NixSyntax.Token.Recognise
Purpose: How far the comment, path, number or word at the front of a text reaches.
Main exports: lineCommentBody, blockCommentBody?, pathWidth, floatWidth, intWidth, wordWidth
-/

namespace NixSyntax

/-!
Each recogniser looks at the front of a text and tells how many characters
belong to a token of its class.  The answer 0 means that no such token starts
here.
-/

/-! ### Comments -/

/-- The text of a line comment, given what follows its `#`: all up to the end of
the line.  A carriage return ends the line too. -/
def lineCommentBody (text : List Char) : List Char :=
  text.takeWhile fun c => c != '\r' && c != '\n'

/-- The text of a block comment, given what follows its `/*`: all up to the
first `*/`, or nothing if there is none. -/
def blockCommentBody? : List Char → Option (List Char)
  | [] => none
  | '*' :: '/' :: _ => some []
  | c :: rest => (blockCommentBody? rest).map (c :: ·)

/-! ### Paths -/

/-- The characters of a path segment. -/
def isPathChar (c : Char) : Bool :=
  c.isAlphanum || c == '.' || c == '_' || c == '+' || c == '-'

/-- The longest run of segment characters and of slashes with a segment
character after them. -/
def pathRun : List Char → List Char
  | [] => []
  | c :: rest =>
    let joins := c == '/' && (rest.head?.map isPathChar).getD false
    if isPathChar c || joins then c :: pathRun rest else []

/-- The width of a path: segments in angle brackets, the first of which has no
slash in front of it, or segments with at least one slash, after an optional
tilde. -/
def pathWidth : List Char → Nat
  | '<' :: rest =>
    let run := pathRun rest
    if !run.isEmpty && run.head? != some '/' && (rest.drop run.length).head? == some '>' then
      run.length + 2
    else 0
  | '~' :: rest =>
    let run := pathRun rest
    if run.contains '/' then run.length + 1 else 0
  | text =>
    let run := pathRun text
    if run.contains '/' then run.length else 0

/-! ### Numbers and words -/

/-- The width of an integer: a run of digits. -/
def intWidth (text : List Char) : Nat :=
  (text.takeWhile Char.isDigit).length

/-- The width of an exponent: `e` or `E`, an optional sign and digits. -/
def exponentWidth : List Char → Nat
  | mark :: rest =>
    if mark == 'e' || mark == 'E' then
      let sign := if rest.head? == some '+' || rest.head? == some '-' then 1 else 0
      let digits := intWidth (rest.drop sign)
      if digits = 0 then 0 else 1 + sign + digits
    else 0
  | [] => 0

/-- The width of a decimal fraction: digits on both sides of a point with an
optional exponent, or digits with an exponent. -/
def floatWidth (text : List Char) : Nat :=
  let whole := intWidth text
  if whole = 0 then 0
  else
    match text.drop whole with
    | '.' :: rest =>
      let fraction := intWidth rest
      if fraction = 0 then 0
      else whole + 1 + fraction + exponentWidth (rest.drop fraction)
    | rest =>
      let exponent := exponentWidth rest
      if exponent = 0 then 0 else whole + exponent

/-- The characters that can start a word. -/
def isWordStart (c : Char) : Bool :=
  c.isAlpha || c == '_'

/-- The characters that can continue a word. -/
def isWordChar (c : Char) : Bool :=
  c.isAlphanum || c == '_' || c == '\x27' || c == '-'

/-- The width of a word: an identifier or a reserved word. -/
def wordWidth : List Char → Nat
  | c :: rest => if isWordStart c then 1 + (rest.takeWhile isWordChar).length else 0
  | [] => 0

end NixSyntax
