/-
Module: NixSyntax.Fault.Report
Purpose: A fault drawn against its source line, with a caret under its column.
Main exports: Fault.report, Fault.reportLines, Cause.headline
-/
import NixSyntax.Fault
import NixSyntax.Text.Blank
import NixSyntax.Text.Line

namespace NixSyntax

/-!
A report has five lines:

    Error: UnexpectedToken (Unexpected `in`, expected `then`)
    -> default.nix
       |
    20 | if x in y
       | -----^

The source line is shown without its indentation and without blanks at its
end.  The bars stand below each other, so the first and the last of them are
set to the right by the width of the line number.
-/

/-- Spaces and tabs, which make up the indentation of a line. -/
def isIndent (c : Char) : Bool :=
  c == ' ' || c == '\t'

/-- The caret under a column: that many dashes, and the caret. -/
def caret (column : Nat) : String :=
  String.ofList (List.replicate column '-') ++ "^"

/-- The headline of a report: the name of the cause, and its tip if it has
one. -/
def Cause.headline (cause : Cause) : String :=
  match cause.tip with
  | none => "Error: " ++ cause.title
  | some tip => "Error: " ++ cause.title ++ " (" ++ tip ++ ")"

/-- The lines of a report about a fault at the given place of the source. -/
def Fault.reportLines (fault : Fault) (place : Place) : List String :=
  let number := toString place.line
  let bar := String.ofList (List.replicate (number.length + 1) ' ') ++ "|"
  let indent := (place.text.takeWhile isIndent).length
  [ fault.cause.headline,
    "-> " ++ fault.position.file,
    bar,
    number ++ " | " ++ String.ofList (trimRight (place.text.drop indent)),
    bar ++ " " ++ caret (place.column - indent) ]

/-- The fault drawn against the source in which it was found. -/
def Fault.report (fault : Fault) (source : String) : String :=
  "\n".intercalate
    (fault.reportLines (Place.ofOffset source fault.position.offset.toNat))

end NixSyntax
