/-
Module: NixSyntax.Proofs.Lexer
Purpose: The scanner as a machine that keeps a byte offset and a stack of modes, and reads its
  source in slices that have to exist.
Main exports: Halt, Mode, Lexer, Lexer.patterns, Lexer.lexCode, Lexer.lexString, Lexer.step,
  Lexer.Runs, Lexer.Runs.unique
-/
import NixSyntax.Proofs.Slices

namespace NixSyntax

/-!
The scanner holds the text that is left, so it has no offset that could be wrong.
This machine has one.  It keeps the whole source and a byte offset into it, and
what it looks at is a slice between two offsets.  It stops with a panic where a
slice does not exist, so a run without a panic is one in which all slices do.
-/

/-- Why the machine stops before the end of its source. -/
inductive Halt where
  /-- A slice is out of range or splits a character. -/
  | panic
  | fault (cause : Cause) (place : Nat)
deriving Repr, Inhabited, DecidableEq

/-- A slice that has to exist. -/
def slice (text : List Char) (start stop : Nat) : Except Halt (List Char) :=
  match slice? text start stop with
  | some part => .ok part
  | none => .error .panic

/-- What the machine is reading.  A string remembers where it was opened. -/
inductive Mode where
  | code
  | brace
  | interpolation
  | quoted (start : Nat)
  | indented (start : Nat)
deriving Repr, Inhabited, DecidableEq

/-- Where a string was opened. -/
def Mode.stringStart? : Mode → Option Nat
  | quoted start => some start
  | indented start => some start
  | _ => none

/-- The state of the machine: its offset, the modes with the innermost first, and
what it has read. -/
structure Lexer where
  pos : Nat := 0
  modes : List Mode := [.code]
  pieces : List Piece := []
deriving Repr, Inhabited, DecidableEq

namespace Lexer

/-! ## Steps of the handlers -/

def mode (lexer : Lexer) : Mode :=
  lexer.modes.head?.getD .code

/-- Takes down a piece and passes the given number of bytes. -/
def push (lexer : Lexer) (piece : Piece) (len : Nat) : Lexer :=
  { lexer with pos := lexer.pos + len, pieces := lexer.pieces ++ [piece] }

def enter (lexer : Lexer) (mode : Mode) : Lexer :=
  { lexer with modes := mode :: lexer.modes }

def leave (lexer : Lexer) : Lexer :=
  { lexer with modes := lexer.modes.tail }

variable (source : String)

/-- The text that is left. -/
def remainder (lexer : Lexer) : Except Halt (List Char) :=
  slice source.toList lexer.pos source.utf8ByteSize

/-- Emits a lexeme that covers the next bytes of the source. -/
def emit (lexer : Lexer) (kind : Kind) (value : List Char) (len : Nat) : Except Halt Lexer := do
  let raw ← slice source.toList lexer.pos (lexer.pos + len)
  return lexer.push (.lexeme { kind, value, raw }) len

/-- Emits a lexeme that stands for its own spelling. -/
def emitPlain (lexer : Lexer) (kind : Kind) (len : Nat) : Except Halt Lexer :=
  lexer.emit source kind kind.spelling.toList len

/-! ## Handlers

A handler is told how many bytes its pattern has matched.
-/

abbrev Handler := Lexer → Nat → Except Halt Lexer

def blank : Handler := fun lexer len => do
  let raw ← slice (← lexer.remainder source) 0 len
  return lexer.push (.trivium (.blank raw)) len

def lineComment : Handler := fun lexer len => do
  let text ← slice (← lexer.remainder source) 1 len
  return lexer.push (.trivium (.comment { style := .line, text := String.ofList text })) len

/-- The pattern has matched the start of the comment only. -/
def blockComment : Handler := fun lexer _ => do
  let rest ← lexer.remainder source
  let ahead ← slice rest 2 (utf8Length rest)
  match find? ['*', '/'] ahead with
  | none => .error (.fault .openComment lexer.pos)
  | some close =>
    let text ← slice rest 2 (close + 2)
    return lexer.push (.trivium (.comment { style := .block, text := String.ofList text }))
      (close + 4)

/-- A lexeme of a class, the kind of which depends on its text. -/
def classed (kind : List Char → Kind) : Handler := fun lexer len => do
  let value ← slice (← lexer.remainder source) 0 len
  lexer.emit source (kind value) value len

/-- A symbol that opens a mode, which may remember the place of the symbol. -/
def opening (kind : Kind) (mode : Nat → Mode) : Handler := fun lexer len => do
  let inside ← lexer.emitPlain source kind len
  return inside.enter (mode lexer.pos)

/-- A closing brace.  The outermost mode is never left. -/
def closing : Handler := fun lexer len =>
  let kind : Kind := if lexer.mode = .interpolation then .interpClose else .curlyClose
  let outside := if 1 < lexer.modes.length then lexer.leave else lexer
  outside.emitPlain source kind len

/-- What is done about a symbol. -/
def symbol : Kind → Handler
  | .interpOpen => opening source .interpOpen fun _ => .interpolation
  | .indentOpen => opening source .indentOpen .indented
  | .quoteOpen => opening source .quoteOpen .quoted
  | .curlyOpen => opening source .curlyOpen fun _ => .brace
  | .curlyClose => closing source
  | kind => fun lexer _ => lexer.emitPlain source kind (utf8Length kind.spelling.toList)

/-! ## Code -/

/-- A pattern finds how many bytes in front of a text are its own, if it matches
there. -/
structure Pattern where
  find? : List Char → Option Nat
  handler : Handler

/-- Matches as many characters as the given recogniser says. -/
def Pattern.ofWidth (width : List Char → Nat) (handler : Handler) : Pattern where
  find? text := if 0 < width text then some (utf8Length (text.take (width text))) else none
  handler

/-- Matches a text that is always the same. -/
def Pattern.ofSpelling (spelling : List Char) (handler : Handler) : Pattern where
  find? text := if spelling.isPrefixOf text then some (utf8Length spelling) else none
  handler

def blankWidth (text : List Char) : Nat :=
  (text.takeWhile isBlank).length

def lineCommentWidth : List Char → Nat
  | '#' :: rest => 1 + (lineCommentBody rest).length
  | _ => 0

def lexemePatterns : List Pattern :=
  [ .ofWidth pathWidth (classed source fun _ => .path),
    .ofWidth floatWidth (classed source fun _ => .float),
    .ofWidth intWidth (classed source fun _ => .int),
    .ofWidth wordWidth (classed source fun word => .ofWord (String.ofList word)) ] ++
  Kind.symbols.map fun kind => .ofSpelling kind.spelling.toList (symbol source kind)

/-- The patterns, in the order in which they are tried. -/
def patterns : List Pattern :=
  [ .ofWidth blankWidth (blank source),
    .ofWidth lineCommentWidth (lineComment source),
    .ofSpelling ['/', '*'] (blockComment source) ] ++ lexemePatterns source

/-- Reads by the first pattern that matches. -/
def tryPatterns (lexer : Lexer) : List Pattern → Except Halt Lexer
  | [] => do
    let rest ← lexer.remainder source
    .error (.fault (.unrecognised (String.ofList (rest.take 1))) lexer.pos)
  | pattern :: others => do
    match pattern.find? (← lexer.remainder source) with
    | some len => pattern.handler lexer len
    | none => tryPatterns lexer others

def lexCode (lexer : Lexer) : Except Halt Lexer :=
  lexer.tryPatterns source (patterns source)

/-! ## Strings -/

/-- A delimiter in a string: how many bytes of literal text stand in front of it,
its kind and how many bytes it has. -/
structure Delimiter where
  offset : Nat
  kind : Kind
  len : Nat

/-- Decodes the literal text of the string part that starts at `start`, up to a
delimiter.  `offset` bytes of it have been decoded to `value`, and `chars` is what
the iterator over its characters still holds. -/
def literal (indented : Bool) (start offset : Nat) (value chars : List Char) :
    Except Halt (List Char × Option Delimiter) :=
  match chars with
  | [] => return (value, none)
  | c :: chars => do
    let rest ← slice source.toList (start + offset) source.utf8ByteSize
    -- Goes on with decoded characters, for which it takes more than one.
    let next := fun (more : List Char) (taken : Nat) =>
      literal indented start (offset + utf8Length (c :: chars.take taken)) (value ++ more)
        (chars.drop taken)
    if !indented && c == '"' then
      return (value, some { offset, kind := .quoteClose, len := 1 })
    else if indented && ['\'', '\''].isPrefixOf rest then
      if ['\'', '\'', '\''].isPrefixOf rest then next ['\'', '\''] 2
      else if ['\'', '\'', '$'].isPrefixOf rest then next ['$'] 2
      else if ['\'', '\'', '\\'].isPrefixOf rest then
        next ((chars.drop 2).head?.toList.map unescape) 3
      else return (value, some { offset, kind := .indentClose, len := 2 })
    else if ['$', '{'].isPrefixOf rest then
      return (value, some { offset, kind := .interpOpen, len := 2 })
    else if ['$', '$'].isPrefixOf rest then next ['$', '$'] 1
    else if !indented && c == '\\' then next (chars.head?.toList.map unescape) 1
    else next [c] 0
termination_by chars.length
decreasing_by
  all_goals simp only [List.length_drop, List.length_cons]; omega

/-- Reads a delimiter in a string: an interpolation is entered, or the string is
left. -/
def lexDelimiter (lexer : Lexer) (delimiter : Delimiter) : Except Halt Lexer :=
  if delimiter.kind = .interpOpen then do
    let inside ← lexer.emitPlain source .interpOpen delimiter.len
    return inside.enter .interpolation
  else do
    let text ← slice source.toList lexer.pos (lexer.pos + delimiter.len)
    let outside ← lexer.emit source delimiter.kind text delimiter.len
    return outside.leave

/-- Reads literal text of a string, if there is some, and the delimiter behind
it. -/
def lexString (indented : Bool) (lexer : Lexer) : Except Halt Lexer := do
  let chars ← lexer.remainder source
  match ← literal source indented lexer.pos 0 [] chars with
  | (_, none) => .error (.fault .openString (lexer.mode.stringStart?.getD lexer.pos))
  | (value, some delimiter) =>
    if 0 < delimiter.offset then
      (← lexer.emit source .fragment value delimiter.offset).lexDelimiter source delimiter
    else lexer.lexDelimiter source delimiter

/-! ## Runs -/

/-- One round of the machine. -/
def step (lexer : Lexer) : Except Halt Lexer :=
  match lexer.mode with
  | .quoted _ => lexer.lexString source false
  | .indented _ => lexer.lexString source true
  | _ => lexer.lexCode source

/-- What the machine has read, unless a string is open.  The outermost one is
reported. -/
def finish (lexer : Lexer) : Except Halt (List Piece) :=
  match lexer.modes.reverse.findSome? Mode.stringStart? with
  | some start => .error (.fault .openString start)
  | none => .ok lexer.pieces

/-- How a run of the machine ends.  There is no such run if it does not end. -/
inductive Runs : Lexer → Except Halt (List Piece) → Prop where
  | finished {lexer : Lexer} (atEnd : source.utf8ByteSize ≤ lexer.pos) :
      Runs lexer lexer.finish
  | halted {lexer : Lexer} {halt : Halt} (inside : lexer.pos < source.utf8ByteSize)
      (stopped : lexer.step source = .error halt) : Runs lexer (.error halt)
  | further {lexer next : Lexer} {outcome : Except Halt (List Piece)}
      (inside : lexer.pos < source.utf8ByteSize) (stepped : lexer.step source = .ok next)
      (runs : Runs next outcome) : Runs lexer outcome

/-- A run can end in one way only. -/
theorem Runs.unique {lexer : Lexer} {outcome outcome' : Except Halt (List Piece)}
    (runs : Runs source lexer outcome) (again : Runs source lexer outcome') :
    outcome = outcome' := by
  induction runs with
  | finished atEnd =>
      cases again with
      | finished => rfl
      | halted inside | further inside => exact absurd inside (Nat.not_lt.2 atEnd)
  | halted inside stopped =>
      cases again with
      | finished atEnd => exact absurd inside (Nat.not_lt.2 atEnd)
      | halted _ stopped' =>
          cases stopped.symm.trans stopped'
          rfl
      | further _ stepped => cases stopped.symm.trans stepped
  | further inside stepped runs ih =>
      cases again with
      | finished atEnd => exact absurd inside (Nat.not_lt.2 atEnd)
      | halted _ stopped => cases stopped.symm.trans stepped
      | further _ stepped' runs' =>
          cases stepped.symm.trans stepped'
          exact ih runs'

end Lexer

end NixSyntax
