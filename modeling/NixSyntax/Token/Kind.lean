/-
Module: NixSyntax.Token.Kind
Purpose: The kinds of token, their spelling and the words that are reserved.
Main exports: Kind, Kind.spelling, Kind.label, Kind.ofWord
-/

namespace NixSyntax

/-- What a token is.  The two ends of a string and of an interpolation are kinds
of their own, so a `}` that ends an interpolation differs from one that ends a
set. -/
inductive Kind where
  | endOfInput
  | int
  | float
  | identifier
  | path
  | quoteOpen
  | quoteClose
  | indentOpen
  | indentClose
  | fragment
  | interpOpen
  | interpClose
  | bracketOpen
  | bracketClose
  | curlyOpen
  | curlyClose
  | parenOpen
  | parenClose
  | assign
  | equal
  | not
  | notEqual
  | less
  | lessEqual
  | greater
  | greaterEqual
  | or
  | and
  | implies
  | dot
  | ellipsis
  | semicolon
  | colon
  | question
  | comma
  | atSign
  | plus
  | dash
  | slash
  | star
  | update
  | concat
  | kwLet
  | kwIn
  | kwIf
  | kwThen
  | kwElse
  | kwInherit
  | kwRec
  | kwWith
  | kwAssert
  | kwImport
  | kwOr
  | kwTrue
  | kwFalse
  | kwNull
deriving Repr, Inhabited, DecidableEq

namespace Kind

/-- The spelling of a kind that is always written the same way, and a
description of every other kind. -/
def spelling : Kind → String
  | endOfInput => "end of input"
  | int => "integer"
  | float => "float"
  | identifier => "identifier"
  | path => "path"
  | quoteOpen => "\""
  | quoteClose => "\""
  | indentOpen => "''"
  | indentClose => "''"
  | fragment => "string text"
  | interpOpen => "$\x7b"
  | interpClose => "\x7d"
  | bracketOpen => "["
  | bracketClose => "]"
  | curlyOpen => "\x7b"
  | curlyClose => "\x7d"
  | parenOpen => "("
  | parenClose => ")"
  | assign => "="
  | equal => "=="
  | not => "!"
  | notEqual => "!="
  | less => "<"
  | lessEqual => "<="
  | greater => ">"
  | greaterEqual => ">="
  | or => "||"
  | and => "&&"
  | implies => "->"
  | dot => "."
  | ellipsis => "..."
  | semicolon => ";"
  | colon => ":"
  | question => "?"
  | comma => ","
  | atSign => "@"
  | plus => "+"
  | dash => "-"
  | slash => "/"
  | star => "*"
  | update => "//"
  | concat => "++"
  | kwLet => "let"
  | kwIn => "in"
  | kwIf => "if"
  | kwThen => "then"
  | kwElse => "else"
  | kwInherit => "inherit"
  | kwRec => "rec"
  | kwWith => "with"
  | kwAssert => "assert"
  | kwImport => "import"
  | kwOr => "or"
  | kwTrue => "true"
  | kwFalse => "false"
  | kwNull => "null"

/-- The spelling as it is set in a message. -/
def label (kind : Kind) : String :=
  "`" ++ kind.spelling ++ "`"

/-- The kinds whose spelling is a reserved word. -/
def reserved : List Kind :=
  [kwLet, kwIn, kwIf, kwThen, kwElse, kwInherit, kwRec, kwWith, kwAssert, kwImport, kwOr,
   kwTrue, kwFalse, kwNull]

/-- The kind of a reserved word. -/
def ofReserved? (word : String) : Option Kind :=
  reserved.find? fun kind => kind.spelling == word

/-- The kind of a word: an identifier unless the word is reserved. -/
def ofWord (word : String) : Kind :=
  (ofReserved? word).getD identifier

/-- The operators and delimiters, in the order in which they are tried.  A
spelling stands in front of every other one that it starts with. -/
def symbols : List Kind :=
  [interpOpen, indentOpen, quoteOpen, curlyOpen, curlyClose, ellipsis, update, concat, implies,
   equal, notEqual, lessEqual, greaterEqual, and, or, bracketOpen, bracketClose, parenOpen,
   parenClose, assign, not, less, greater, dot, semicolon, colon, question, comma, atSign, plus,
   dash, star, slash]

/-- The operator or delimiter at the front of a text. -/
def symbolAt (text : List Char) : Option Kind :=
  symbols.find? fun kind => kind.spelling.toList.isPrefixOf text

end Kind

end NixSyntax
