/-
Module: NixSyntax.Options
Purpose: The settings of a parse that the language itself does not fix.
Main exports: FallbackLevel, FallbackLevel.power, Options
-/
import NixSyntax.Position
import NixSyntax.Power

namespace NixSyntax

/-- Where the fallback operator `or` stands on the ladder. -/
inductive FallbackLevel where
  /-- Looser than all other operators. -/
  | lowest
  /-- As tight as a selection, so it applies to the path in front of it. -/
  | select
deriving Repr, Inhabited, DecidableEq

/-- The power of the fallback operator. -/
def FallbackLevel.power : FallbackLevel → Power
  | lowest => .fallback
  | select => .select

/-- The settings of a parse. -/
structure Options where
  /-- How many levels expressions may nest.  Each operator of a chain counts as
  a level too. -/
  maxDepth : Nat := 128
  fallback : FallbackLevel := .lowest
  /-- The name of the source text in positions. -/
  file : String := defaultFile
deriving Repr, Inhabited, DecidableEq

end NixSyntax
