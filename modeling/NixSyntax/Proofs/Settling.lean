/-
Module: NixSyntax.Proofs.Settling
Purpose: What the rules of the language yield once there are enough levels.
Main exports: Parser.Settles, Parser.SettlesMany, Parser.Continues, Parser.Leads, Leads.of_rule,
  Leads.select, Leads.join
-/
import Mathlib.Order.Filter.AtTopBot.Basic
import NixSyntax.Proofs.Forward

namespace NixSyntax

/-!
How many levels a text needs is of no interest here, only that some number of
them is enough.  Parsers that settle are put together without counting.  An
expression is taken apart where its first rule ends: the tokens up to there
lead to a value, from which the expression goes on.  The grammar is that of the
language, at either level of `or`.
-/

namespace Parser

variable {α : Type} {level : FallbackLevel} {follow follow' : Kind → Prop}
  {signs signs' : List Sign} {power tight : Power}

/-- Given enough levels, the parser yields the value from these signs. -/
def Settles (level : FallbackLevel) (follow : Kind → Prop) (parser : ExprParser → Parser α)
    (signs : List Sign) (value : α) : Prop :=
  ∀ᶠ levels in Filter.atTop, ∀ limit,
    Yields follow (parser (expression (.standard level) limit levels)) signs value

/-- Given enough levels, the step yields the items one after another. -/
def SettlesMany (level : FallbackLevel) (follow : Kind → Prop)
    (step : ExprParser → Parser (Option α)) (signs : List Sign) (items : List α) : Prop :=
  ∀ᶠ levels in Filter.atTop, ∀ limit,
    YieldsMany follow (step (expression (.standard level) limit levels)) signs items

/-- Given enough levels, an expression goes on from `left` to the value. -/
def Continues (level : FallbackLevel) (follow : Kind → Prop) (power : Power) (left : Expr)
    (signs : List Sign) (value : Expr) : Prop :=
  ∀ᶠ levels in Filter.atTop, ∀ limit,
    Yields follow (continuation (.standard level) limit levels power left) signs value

/-- What takes one level more than something else has enough levels too. -/
theorem eventually_succ {holds next : Nat → Prop} (enough : ∀ᶠ levels in Filter.atTop, holds levels)
    (step : ∀ levels, holds levels → next (levels + 1)) :
    ∀ᶠ levels in Filter.atTop, next levels := by
  obtain ⟨bound, enough⟩ := Filter.eventually_atTop.1 enough
  refine Filter.eventually_atTop.2 ⟨bound + 1, ?_⟩
  intro levels above
  obtain ⟨levels, rfl⟩ := Nat.exists_eq_add_of_lt (Nat.lt_of_succ_le above)
  exact step _ (enough _ (Nat.le_add_right bound levels))

theorem Settles.mono {parser : ExprParser → Parser α} {value : α}
    (settles : Settles level follow parser signs value)
    (weaker : ∀ kind, follow' kind → follow kind) :
    Settles level follow' parser signs value := by
  filter_upwards [settles] with levels yields limit
  exact (yields limit).mono weaker

namespace SettlesMany

variable {step : ExprParser → Parser (Option α)} {item : α} {items : List α}

theorem nil (stops : Settles level follow step [] none) : SettlesMany level follow step [] [] := by
  filter_upwards [stops] with levels stops limit
  exact .nil (stops limit)

theorem cons (first : Settles level follow step signs (some item)) (present : signs ≠ [])
    (rest : SettlesMany level follow' step signs' items)
    (meets : ∀ kind, follow' kind → follow (Sign.leadKind signs' kind)) :
    SettlesMany level follow' step (signs ++ signs') (item :: items) := by
  filter_upwards [first, rest] with levels first rest limit
  exact .cons (first limit) present (rest limit) meets

end SettlesMany

namespace Continues

variable {left node value : Expr}

/-- Nothing goes on in front of a token that binds no tighter. -/
theorem stop (left : Expr)
    (stops : ∀ kind, follow kind → ¬ power < (Grammar.standard level).power kind) :
    Continues level follow power left [] left :=
  .of_forall fun _ _ => (continuation_stops left).mono stops

/-- An operator takes what was read as its left side. -/
theorem join {sign : Sign} {operatorPower : Power} {rule : JoinRule}
    (joins : Grammar.standardJoin level sign.kind = some (operatorPower, rule))
    (tighter : power < operatorPower)
    (read : Settles level follow (fun expr => rule.parse (.standard level) expr left operatorPower)
      (sign :: signs) node)
    (rest : Continues level follow' power node signs' value)
    (meets : ∀ kind, follow' kind → follow (Sign.leadKind signs' kind)) :
    Continues level follow' power left (sign :: signs ++ signs') value := by
  apply eventually_succ (read.and rest)
  rintro levels ⟨read, rest⟩ limit
  exact continuation_joins joins tighter (read limit) (rest limit) meets

end Continues

/-- At the start of an expression the tokens lead to the value, and whatever the
expression goes on with from there is what it is, if the operators that go on with
it may be looser than `tight`. -/
def Leads (level : FallbackLevel) (tight : Power) (follow : Kind → Prop) (signs : List Sign)
    (value : Expr) : Prop :=
  ∀ power follow' signs' result, power < tight →
    Continues level follow' power value signs' result →
    (∀ kind, follow' kind → follow (Sign.leadKind signs' kind)) →
    Settles level follow' (fun expr => expr power) (signs ++ signs') result

namespace Leads

variable {value node : Expr}

theorem of_rule {sign : Sign} (rule : StartRule)
    (start : Grammar.standardStart sign.kind = some rule)
    (read : Settles level follow (fun expr => rule.parse expr) (sign :: signs) value) :
    Leads level tight follow (sign :: signs) value := by
  intro power follow' signs' result _ rest meets
  apply eventually_succ (read.and rest)
  rintro levels ⟨read, rest⟩ limit
  exact expression_yields start (read limit) (rest limit) meets

/-- An expression ends where nothing binds tighter. -/
theorem settles (leads : Leads level tight follow signs value) (below : power < tight)
    (stops : ∀ kind, follow' kind →
      follow kind ∧ ¬ power < (Grammar.standard level).power kind) :
    Settles level follow' (fun expr => expr power) signs value := by
  rw [← List.append_nil signs]
  apply leads power follow' [] value below
  · exact .stop value fun kind follows => (stops kind follows).2
  · exact fun kind follows => (stops kind follows).1

/-- A selection starts like its subject.  An operator as tight as a selection does not
go on with it. -/
theorem select {path : List Segment} (leads : Leads level .primary follow signs value)
    (dot : follow .dot) (read : Settles level follow' attrPath signs' path) :
    Leads level .select follow' (signs ++ .mark .dot :: signs') (.bare (.select value path)) := by
  intro power follow'' signs'' result below rest meets
  rw [List.append_assoc]
  apply leads power follow'' _ result (Nat.lt_succ_of_lt below)
  · refine .join rfl below ?_ rest meets
    filter_upwards [read] with levels read limit
    exact select_yields (read limit)
  · exact fun _ _ => dot

/-- An operator behind an expression that ends there. -/
theorem join {sign : Sign} {operatorPower : Power} {rule : JoinRule}
    (leads : Leads level tight follow signs value) (low : .base < tight)
    (meets : follow sign.kind)
    (joins : Grammar.standardJoin level sign.kind = some (operatorPower, rule))
    (tighter : .base < operatorPower)
    (read : Settles level follow'
      (fun expr => rule.parse (.standard level) expr value operatorPower) (sign :: signs') node)
    (stops : ∀ kind, follow' kind → ¬ Power.base < (Grammar.standard level).power kind) :
    Settles level follow' (fun expr => expr .base) (signs ++ sign :: signs') node := by
  apply leads .base follow' _ node low
  · rw [← List.append_nil (sign :: signs')]
    exact .join joins tighter read (.stop node stops) fun _ follows => follows
  · exact fun _ _ => meets

end Leads

end Parser

end NixSyntax
