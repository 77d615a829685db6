/-
Module: NixSyntax.Tree.Printer
Purpose: Writing a tree as source text that attaches every comment where it was.
Main exports: Expr.text, Form.text, Segment.pathText, StringPart.quotedText, Document.text
-/
import NixSyntax.Number.Shortest
import NixSyntax.Tree

namespace NixSyntax

/-!
Every compound expression is written in parentheses, so `1 + 2 * 3` becomes
`(1 + (2 * 3))` and no reader needs the precedence of operators.  Comments
before a node start on a line of their own, and comments after a node start on
the line of its last token: these are the places from which reading the text
again attaches them to the same node.
-/

/-! ### Comments -/

/-- Comments on lines of their own, in front of what follows. -/
def ownLines (comments : List Comment) : String :=
  if comments.isEmpty then ""
  else "\n" ++ String.join (comments.map fun comment => comment.source ++ "\n")

/-- Comments after a node, the first of them on the line of its last token. -/
def afterNode (comments : List Comment) : String :=
  String.join <| comments.map fun comment =>
    match comment.style with
    | .line => " " ++ comment.source ++ "\n"
    | .block => " " ++ comment.source

/-- Whether some comment after a node starts below the line of the node. Reading
attaches such comments to the node only if a closing token follows. -/
def leavesLine (comments : List Comment) : Bool :=
  comments.dropLast.any fun comment => comment.style == .line || comment.breaksLine

/-- Text in parentheses. -/
def parens (text : String) : String :=
  "(" ++ text ++ ")"

/-- Text in parentheses if they are needed. -/
def group (needed : Bool) (text : String) : String :=
  if needed then parens text else text

/-- The text of a node between its comments.  Parentheses keep comments with the
node that would start below its line. -/
def surround (margin : Margin) (body : String) : String :=
  ownLines margin.before ++ group (leavesLine margin.after) (body ++ afterNode margin.after)

/-! ### Literal text of strings -/

/-- One character of a string in double quotes. -/
def escapeChar (c : Char) : List Char :=
  match c with
  | '\\' => ['\\', '\\']
  | '"' => ['\\', '"']
  | '\n' => ['\\', 'n']
  | '\t' => ['\\', 't']
  | '\r' => ['\\', 'r']
  | _ => [c]

/-- Literal text of a string in double quotes. -/
def escapeQuoted : List Char → List Char
  | [] => []
  | '$' :: '{' :: rest => '\\' :: '$' :: '{' :: escapeQuoted rest
  | c :: rest => escapeChar c ++ escapeQuoted rest

/-- Literal text of an indented string. -/
def escapeIndented : List Char → List Char
  | [] => []
  | '\'' :: '\'' :: rest => '\'' :: '\'' :: '\'' :: escapeIndented rest
  | '$' :: '{' :: rest => '\'' :: '\'' :: '$' :: '{' :: escapeIndented rest
  | c :: rest => c :: escapeIndented rest

/-- Literal text of a string of either kind. -/
def escapeLiteral (indented : Bool) (text : String) : String :=
  String.ofList (if indented then escapeIndented text.toList else escapeQuoted text.toList)

/-- The delimiter of a string. -/
def stringQuotes (indented : Bool) : String :=
  if indented then "''" else "\""

/-- An interpolation with the text of its expression. -/
def interpolation (text : String) : String :=
  "$\x7b" ++ text ++ "\x7d"

/-! ### Where parentheses are needed -/

/-- The spelling of an operator between two operands. -/
def BinaryOp.spelling : BinaryOp → String
  | add => "+"
  | sub => "-"
  | mul => "*"
  | div => "/"
  | and => "&&"
  | or => "||"
  | implies => "->"
  | update => "//"
  | concat => "++"
  | fallback => "or"
  | equal => "=="
  | notEqual => "!="
  | less => "<"
  | lessEqual => "<="
  | greater => ">"
  | greaterEqual => ">="

/-- The spelling of an operator in front of its operand. -/
def UnaryOp.spelling : UnaryOp → String
  | negate => "-"
  | not => "!"

/-- The word that starts a clause. -/
def ClauseKind.word : ClauseKind → String
  | scope => "with"
  | assertion => "assert"

/-- Whether a form is an operator in front of its operand. -/
def Form.isUnary : Form → Bool
  | .unary _ _ => true
  | _ => false

/-- Whether a form is a selection. -/
def Form.isSelect : Form → Bool
  | .select _ _ => true
  | _ => false

/-- Whether an expression is written starting with `!`. -/
def Expr.startsWithNot (expr : Expr) : Bool :=
  match expr.form with
  | .unary .not _ => expr.clauses.isEmpty
  | _ => false

/-- Whether the left operand needs parentheses.  A prefix operator would take an
operator that binds tighter than it along with its operand. -/
def BinaryOp.groupsLeft (op : BinaryOp) (left : Expr) : Bool :=
  match op with
  | fallback => left.form.isUnary
  | add | sub | mul | div | concat => left.startsWithNot
  | _ => false

/-- Whether an expression needs parentheses in front of a selection.  A dot
would continue a path, a number or the operand of a prefix operator. -/
def Expr.groupsInSelect (expr : Expr) : Bool :=
  expr.clauses.isEmpty &&
    match expr.form with
    | .name _ | .unary _ _ | .select _ _ | .int _ | .float _ | .path _ => true
    | _ => false

/-- Whether a form needs parentheses within its margin.  A comment after a
prefix operator's operand would go to the operand, and a comment before a
selection to its subject. -/
def Form.groupsInMargin (form : Form) (margin : Margin) : Bool :=
  (form.isUnary && !margin.after.isEmpty) || (form.isSelect && !margin.before.isEmpty)

/-! ### Trees -/

mutual

/-- The clauses and the form of an expression without its comments.  The text
ends in a token of the expression itself, so comments after it stay with it. -/
def Expr.body : Expr → String
  | ⟨clauses, form, margin⟩ =>
    if clauses.isEmpty then group (form.groupsInMargin margin) form.text
    else parens (Clause.text clauses ++ form.text)

/-- Clauses with a space after each. -/
def Clause.text : List Clause → String
  | [] => ""
  | ⟨kind, subject⟩ :: rest =>
    kind.word ++ " " ++ surround subject.margin subject.body ++ "; " ++ Clause.text rest

/-- A form as source text. -/
def Form.text : Form → String
  | .int value => toString value
  | .float value => value.text
  | .bool value => if value then "true" else "false"
  | .null => "null"
  | .path text => text
  | .name path => ".".intercalate (Segment.texts path)
  | .string indented parts =>
    stringQuotes indented ++ StringPart.text indented parts ++ stringQuotes indented
  | .list elements inner => "[" ++ Expr.items elements ++ ownLines inner ++ " ]"
  | .attrs recursive bindings inner =>
    (if recursive then "rec " else "") ++
      if bindings.isEmpty && inner.isEmpty then "\x7b\x7d"
      else "\x7b" ++ Binding.text bindings ++ ownLines inner ++ " \x7d"
  | .letIn bindings inner body =>
    parens ("let" ++ Binding.text bindings ++ ownLines inner ++ " in " ++
      surround body.margin body.body)
  | .lambda param body => parens (param ++ ": " ++ surround body.margin body.body)
  | .patternLambda params isOpen whole inner body =>
    let name := match whole with
      | some name => name ++ " @ "
      | none => ""
    let ellipsis := if isOpen then " ..." else ""
    parens (name ++ "\x7b" ++ Param.text isOpen params ++ ellipsis ++ ownLines inner ++ " \x7d: " ++
      surround body.margin body.body)
  | .apply function arguments =>
    parens (group function.startsWithNot (surround function.margin function.body) ++
      Expr.arguments arguments)
  | .binary op left right =>
    parens (group (op.groupsLeft left) (surround left.margin left.body) ++ " " ++ op.spelling ++
      " " ++ surround right.margin right.body)
  | .hasAttr subject path =>
    parens (group subject.startsWithNot (surround subject.margin subject.body) ++ " ? " ++
      ".".intercalate (Segment.texts path))
  | .unary op operand => op.spelling ++ surround operand.margin operand.body
  | .select subject path =>
    group subject.groupsInSelect (surround subject.margin subject.body) ++ "." ++
      ".".intercalate (Segment.texts path)
  | .conditional condition yes no =>
    parens ("if " ++ surround condition.margin condition.body ++ " then " ++
      surround yes.margin yes.body ++ " else " ++ surround no.margin no.body)
  | .importing target => parens ("import " ++ surround target.margin target.body)

/-- The segments of an attribute path. -/
def Segment.texts : List Segment → List String
  | [] => []
  | .name text :: rest => text :: Segment.texts rest
  | .computed value :: rest =>
    interpolation (surround value.margin value.body) :: Segment.texts rest
  | .quoted parts :: rest =>
    (stringQuotes false ++ StringPart.text false parts ++ stringQuotes false) ::
      Segment.texts rest

/-- The parts of a string between its quotes. -/
def StringPart.text (indented : Bool) : List StringPart → String
  | [] => ""
  | .literal text :: rest => escapeLiteral indented text ++ StringPart.text indented rest
  | .interpolated value :: rest =>
    interpolation (surround value.margin value.body) ++ StringPart.text indented rest

/-- The entries of a set, each with a space in front.  Comments after a value go
behind its semicolon if they fit on that line. -/
def Binding.text : List Binding → String
  | [] => ""
  | .assign path value comments :: rest =>
    " " ++ ownLines comments ++ ".".intercalate (Segment.texts path) ++ " = " ++
      (if leavesLine value.margin.after then surround value.margin value.body ++ ";"
       else ownLines value.margin.before ++ value.body ++ ";" ++ afterNode value.margin.after) ++
      Binding.text rest
  | .inherit source names comments :: rest =>
    let origin := match Expr.optionText source with
      | some text => " " ++ parens text
      | none => ""
    " " ++ ownLines comments ++ "inherit" ++ origin ++
      String.join ((Segment.texts names).map (" " ++ ·)) ++ ";" ++ Binding.text rest

/-- The parameters of a pattern, each with a space in front.  Comments after a
parameter stand in front of its comma, or behind it if there is a default, which
would claim them otherwise. -/
def Param.text (isOpen : Bool) : List Param → String
  | [] => ""
  | ⟨name, default, margin⟩ :: rest =>
    let comma := if !rest.isEmpty || isOpen || !margin.after.isEmpty then "," else ""
    let tail := match Expr.optionText default with
      | some text => " ? " ++ text ++ comma ++ afterNode margin.after
      | none => afterNode margin.after ++ comma
    " " ++ ownLines margin.before ++ name ++ tail ++ Param.text isOpen rest

/-- The elements of a list, each with a space in front. -/
def Expr.items : List Expr → String
  | [] => ""
  | expr :: rest => " " ++ surround expr.margin expr.body ++ Expr.items rest

/-- The arguments of a function, each with a space in front.  A prefix operator
would be read as one between the function and the argument. -/
def Expr.arguments : List Expr → String
  | [] => ""
  | expr :: rest =>
    " " ++ group expr.form.isUnary (surround expr.margin expr.body) ++ Expr.arguments rest

/-- An expression that may be missing. -/
def Expr.optionText : Option Expr → Option String
  | none => none
  | some expr => some (surround expr.margin expr.body)

end

/-- An expression as source text, with its comments. -/
def Expr.text (expr : Expr) : String :=
  surround expr.margin expr.body

/-- An attribute path as source text. -/
def Segment.pathText (path : List Segment) : String :=
  ".".intercalate (Segment.texts path)

/-- A string as source text, with its quotes. -/
def StringPart.quotedText (indented : Bool) (parts : List StringPart) : String :=
  stringQuotes indented ++ StringPart.text indented parts ++ stringQuotes indented

/-- A document as source text.  A blank line keeps the comments at its head
apart from the expression. -/
def Document.text (document : Document) : String :=
  String.join (document.before.map fun comment => comment.source ++ "\n") ++
    (if document.before.isEmpty then "" else "\n") ++ document.value.text ++
    ownLines document.after

end NixSyntax
