/-
Module: NixSyntax.Fault
Purpose: Why a text or a token stream is refused, and how that is worded.
Main exports: Cause, Fault, Fault.message, Cause.title, Cause.tip, Cause.expected
-/
import NixSyntax.Position
import NixSyntax.Text.Quoted
import NixSyntax.Token.Kind

namespace NixSyntax

/-- The three classes of fault.  Each of them ends the parse. -/
inductive Category where
  | syntaxFault
  | numberFault
  | depthFault
deriving Repr, Inhabited, DecidableEq

/-- The name of a class in messages. -/
def Category.name : Category → String
  | syntaxFault => "SyntaxError"
  | numberFault => "NumericLiteralError"
  | depthFault => "RecursionLimitError"

/-- Why a text or a token stream is refused. -/
inductive Cause where
  /-- No token starts with this text. -/
  | unrecognised (text : String)
  /-- A string is never closed. -/
  | openString
  /-- A block comment is never closed. -/
  | openComment
  /-- A token of kind `found`, shown as `shown`, stands where only the expected
  kinds can. -/
  | unexpected (expected : List Kind) (found : Kind) (shown : String)
  /-- The token shown cannot stand here, for the given reason. -/
  | rejected (shown : String) (reason : String)
  /-- An operator that compares is applied to a comparison. -/
  | chained (operator : String)
  /-- A number is malformed or does not fit. -/
  | badNumber (text : String)
  /-- Expressions nest deeper than the limit. -/
  | tooDeep (limit : Nat)
deriving Repr, Inhabited, DecidableEq

/-- The kinds that would have been accepted, worded for a message.  A long list
is worded as what it amounts to: the start of an expression. -/
def describeExpected (expected : List Kind) : String :=
  match expected.reverse with
  | [] => "an expression"
  | [only] => only.label
  | last :: others =>
    if 6 < expected.length then "an expression"
    else "one of " ++ ", ".intercalate (others.reverse.map Kind.label) ++ " or " ++ last.label

namespace Cause

/-- The class of a cause. -/
def category : Cause → Category
  | badNumber _ => .numberFault
  | tooDeep _ => .depthFault
  | _ => .syntaxFault

/-- The kinds of token that would have been accepted. -/
def expected : Cause → List Kind
  | unexpected expected _ _ => expected
  | _ => []

/-- The name of a cause in reports. -/
def title : Cause → String
  | unrecognised _ => "UnrecognisedToken"
  | openString => "UnterminatedString"
  | openComment => "UnterminatedComment"
  | unexpected _ _ _ => "UnexpectedToken"
  | rejected _ _ => "UnexpectedTokenDetailed"
  | chained _ => "NonAssociative"
  | badNumber _ => "NumericLiteral"
  | tooDeep _ => "RecursionLimit"

/-- What the reader of a report may want to know or do about it. -/
def tip : Cause → Option String
  | unrecognised _ => none
  | openString => some "String is never closed, is a quote or `''` missing?"
  | openComment => some "Block comment is missing its closing `*/`"
  | unexpected expected _ shown =>
    some ("Unexpected " ++ shown ++ ", expected " ++ describeExpected expected)
  | rejected shown reason => some ("Unexpected " ++ shown ++ ", " ++ reason)
  | chained operator => some ("Operator `" ++ operator ++ "` cannot be chained, add parentheses")
  | badNumber text => some ("Invalid number: `" ++ text ++ "`, is it above the integer limit?")
  | tooDeep limit => some ("Expression nests deeper than " ++ toString limit ++ " levels")

/-- What is wrong, in one line. -/
def wording : Cause → String
  | unrecognised text => "unrecognised token: " ++ quoted text
  | openString => "unterminated string"
  | openComment => "unterminated block comment"
  | unexpected expected _ shown =>
    "unexpected token " ++ shown ++ ", expected " ++ describeExpected expected
  | rejected shown reason => "unexpected token (" ++ reason ++ "): " ++ shown
  | chained operator => "non-associative operator `" ++ operator ++ "` used in a chain"
  | badNumber text => "numeric literal out of range or malformed: " ++ quoted text
  | tooDeep limit => "recursion limit of " ++ toString limit ++ " exceeded"

end Cause

/-- A cause and the place where it was found. -/
structure Fault where
  cause : Cause
  position : Position
deriving Repr, Inhabited, DecidableEq

/-- The full message: class, wording and place. -/
def Fault.message (fault : Fault) : String :=
  fault.cause.category.name ++ ": " ++ fault.cause.wording ++ " at " ++ fault.position.file ++
    ":" ++ toString fault.position.offset.toNat

end NixSyntax
