/-
Module: NixSyntax.Power
Purpose: How tightly operators bind.
Main exports: Power, Power.rank, Power.lower, Power.isNonAssociative
-/

namespace NixSyntax

/-- The ladder of precedence, loosest first.  An operator continues the
expression on its left only if its power is above that of the context. -/
inductive Power where
  | base
  | fallback
  | implication
  | logicalOr
  | logicalAnd
  | equality
  | relational
  | update
  | not
  | additive
  | multiplicative
  | concat
  | hasAttr
  | application
  | unary
  | select
  | primary
deriving Repr, Inhabited, DecidableEq

namespace Power

/-- The rung on the ladder, counted from the loosest one. -/
def rank : Power → Nat
  | base => 0
  | fallback => 1
  | implication => 2
  | logicalOr => 3
  | logicalAnd => 4
  | equality => 5
  | relational => 6
  | update => 7
  | not => 8
  | additive => 9
  | multiplicative => 10
  | concat => 11
  | hasAttr => 12
  | application => 13
  | unary => 14
  | select => 15
  | primary => 16

instance : LT Power where
  lt a b := a.rank < b.rank

instance (a b : Power) : Decidable (a < b) :=
  inferInstanceAs (Decidable (a.rank < b.rank))

instance : Ord Power where
  compare a b := compare a.rank b.rank

/-- The next looser power, which lets the right operand hold the same operator
again.  Nothing is looser than the base. -/
def lower : Power → Power
  | base => base
  | fallback => base
  | implication => fallback
  | logicalOr => implication
  | logicalAnd => logicalOr
  | equality => logicalAnd
  | relational => equality
  | update => relational
  | not => update
  | additive => not
  | multiplicative => additive
  | concat => multiplicative
  | hasAttr => concat
  | application => hasAttr
  | unary => application
  | select => unary
  | primary => select

/-- Operators that compare cannot be chained. -/
def isNonAssociative : Power → Bool
  | equality => true
  | relational => true
  | _ => false

end Power

end NixSyntax
