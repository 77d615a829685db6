/-
Module: NixSyntax.Parser.Expression
Purpose: Expressions of any depth: the rules of a grammar tied together.
Main exports: Parser.expression, Parser.continuation
-/
import NixSyntax.Parser.Rule

namespace NixSyntax

namespace Parser

/-!
The recursion runs over the levels that expressions may still nest.  Entering
an expression takes one level, and so does each operator that continues it,
because the new node holds all that was read before.  When an expression is
finished, its levels are free again for the next one.
-/

mutual

/-- Reads an expression whose operators bind tighter than `power`, with the
given number of levels left.  `limit` is the full number of levels, which the
fault names. -/
def expression (grammar : Grammar) (limit : Nat) : Nat → Power → Parser Expr
  | 0, _ => fail (.tooDeep limit)
  | levels + 1, power => do
    let before ← takeBefore
    match grammar.start (← currentKind) with
    | none => unexpected Kind.expressionStart
    | some rule =>
      let first ← rule.parse (expression grammar limit levels)
      let after ← takeAfter
      continuation grammar limit levels power ((first.addBefore before).addAfter after)

/-- Goes on with an expression as long as operators bind tighter than
`power`. -/
def continuation (grammar : Grammar) (limit : Nat) : Nat → Power → Expr → Parser Expr
  | levels, power, left => do
    match grammar.join (← currentKind) with
    | none => return left
    | some (operatorPower, rule) =>
      if power < operatorPower then
        match levels with
        | 0 => fail (.tooDeep limit)
        | levels + 1 => do
          let node ← rule.parse grammar (expression grammar limit levels) left operatorPower
          let after ← takeAfter
          continuation grammar limit levels power (node.addAfter after)
      else return left

end

end Parser

end NixSyntax
