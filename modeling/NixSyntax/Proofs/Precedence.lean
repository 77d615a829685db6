/-
Module: NixSyntax.Proofs.Precedence
Purpose: The tree that the ladder of precedence prescribes for a chain of operators.
Main exports: BinaryOp.power, Link, divide, prescribe, prescribe_cons
-/
import Mathlib.Data.List.MinMax
import Mathlib.Data.List.TakeWhile
import NixSyntax.Proofs.Spelling

namespace NixSyntax

/-!
The ladder prescribes a tree from the outside: a chain is divided at one of its
loosest operators, and the two sides are chains again.  A parser builds the tree
from the inside: it takes the operand behind the first operator, as far as the
operators there bind tighter, and goes on with the two joined to one operand.
That both lead to the same tree is shown by induction on what stands behind that
operand, where the loosest operator is to be found unless nothing stands there.
-/

/-! ## Operators -/

/-- The power of an operator between two operands. -/
def BinaryOp.power (level : FallbackLevel) : BinaryOp → Power
  | fallback => level.power
  | implies => .implication
  | or => .logicalOr
  | and => .logicalAnd
  | equal | notEqual => .equality
  | less | lessEqual | greater | greaterEqual => .relational
  | update => .update
  | add | sub => .additive
  | mul | div => .multiplicative
  | concat => .concat

/-- How tight an operator must bind to be taken into the right operand of
another one. -/
def BinaryOp.operandPower (level : FallbackLevel) (op : BinaryOp) : Power :=
  if op.groupsRight then (op.power level).lower else op.power level

/-- An operator that stands in front of another one has it in its right operand. -/
def BinaryOp.Encloses (level : FallbackLevel) (op other : BinaryOp) : Prop :=
  op.power level < other.power level ∨
    op.power level = other.power level ∧ op.groupsRight = true

theorem Power.rank_injective : Function.Injective Power.rank := by
  intro a b same
  cases a <;> cases b <;> first | rfl | cases same

/-- Nothing lies between a power and the next looser one. -/
theorem Power.lower_lt {a b : Power} (above : a ≠ .base) : a.lower < b ↔ a.rank ≤ b.rank := by
  show a.lower.rank < b.rank ↔ _
  cases a <;> first | exact absurd rfl above | exact Nat.succ_le_iff.symm

namespace BinaryOp

variable {level : FallbackLevel} {op other : BinaryOp}

theorem join_kind (level : FallbackLevel) (op : BinaryOp) :
    (Grammar.standard level).join op.kind = some (op.power level, .binary) := by
  cases op <;> rfl

theorem power_kind (level : FallbackLevel) (op : BinaryOp) :
    (Grammar.standard level).power op.kind = op.power level := by
  cases op <;> rfl

/-- Operators that compare do not group to the right. -/
theorem groupsRight_of_nonAssociative (alone : (op.power level).isNonAssociative = true) :
    op.groupsRight = false := by
  cases level <;> cases op <;> first | rfl | cases alone

theorem operandPower_of_nonAssociative (alone : (op.power level).isNonAssociative = true) :
    op.operandPower level = op.power level := by
  rw [operandPower, groupsRight_of_nonAssociative alone, if_neg Bool.false_ne_true]

theorem power_ne_base (level : FallbackLevel) (op : BinaryOp) : op.power level ≠ .base := by
  cases level <;> cases op <;> decide

theorem base_lt_power (level : FallbackLevel) (op : BinaryOp) : .base < op.power level := by
  cases level <;> cases op <;> decide

/-- An operator takes into its right operand what it encloses. -/
theorem operandPower_lt : op.operandPower level < other.power level ↔ op.Encloses level other := by
  have equal : op.power level = other.power level ↔
      (op.power level).rank = (other.power level).rank :=
    Power.rank_injective.eq_iff.symm
  rw [operandPower, Encloses, equal]
  cases op.groupsRight with
  | false => simp
  | true =>
      rw [if_pos rfl, Power.lower_lt (power_ne_base level op), Nat.le_iff_lt_or_eq]
      exact or_congr Iff.rfl (and_iff_left rfl).symm

/-- Nothing looser than an operator is taken into its right operand. -/
theorem le_of_operandPower_lt {other : Power} (taken : op.operandPower level < other) :
    (op.power level).rank ≤ other.rank := by
  unfold operandPower at taken
  split at taken
  · exact (Power.lower_lt (power_ne_base level op)).1 taken
  · exact Nat.le_of_lt taken

/-- What is not enclosed binds no tighter. -/
theorem le_of_not_encloses (outside : ¬ op.Encloses level other) :
    (other.power level).rank ≤ (op.power level).rank :=
  Nat.le_of_not_lt fun tighter => outside (.inl tighter)

/-- What is enclosed binds no looser. -/
theorem Encloses.le (inside : op.Encloses level other) :
    (op.power level).rank ≤ (other.power level).rank := by
  rcases inside with tighter | ⟨same, -⟩
  · exact Nat.le_of_lt tighter
  · rw [same]

end BinaryOp

/-! ## Dividing a list -/

section Lists

variable {α : Type} {test : α → Bool} {items before behind : List α} {item : α}

/-- Divides a list at the first item that passes a test. -/
def divideFirst (test : α → Bool) (items : List α) : Option (List α × α × List α) :=
  match items.dropWhile (!test ·) with
  | [] => none
  | item :: behind => some (items.takeWhile (!test ·), item, behind)

/-- Divides a list at the last item that passes a test. -/
def divideLast (test : α → Bool) (items : List α) : Option (List α × α × List α) :=
  (divideFirst test items.reverse).map fun (behind, item, before) =>
    (before.reverse, item, behind.reverse)

theorem divideFirst_some (found : divideFirst test items = some (before, item, behind)) :
    items = before ++ item :: behind ∧ test item = true ∧ ∀ other ∈ before, test other = false := by
  unfold divideFirst at found
  split at found
  · cases found
  · next reached =>
      cases found
      refine ⟨?_, ?_, ?_⟩
      · rw [← reached, List.takeWhile_append_dropWhile]
      · have stops := List.head?_dropWhile_not (!test ·) items
        rw [reached] at stops
        simpa using stops
      · intro other member
        simpa using List.mem_takeWhile_imp member

theorem divideFirst_none (absent : divideFirst test items = none) :
    ∀ item ∈ items, test item = false := by
  unfold divideFirst at absent
  split at absent
  · next reached => simpa using List.dropWhile_eq_nil_iff.1 reached
  · cases absent

theorem divideLast_some (found : divideLast test items = some (before, item, behind)) :
    items = before ++ item :: behind ∧ test item = true ∧ ∀ other ∈ behind, test other = false := by
  obtain ⟨⟨after, middle, front⟩, reached, same⟩ := Option.map_eq_some_iff.1 found
  cases same
  obtain ⟨whole, passes, others⟩ := divideFirst_some reached
  refine ⟨?_, passes, ?_⟩
  · rw [← List.reverse_reverse items, whole]
    simp
  · exact fun other member => others other (List.mem_reverse.1 member)

theorem divideLast_none (absent : divideLast test items = none) :
    ∀ item ∈ items, test item = false := by
  have none_found := divideFirst_none (Option.map_eq_none_iff.1 absent)
  exact fun item member => none_found item (List.mem_reverse.2 member)

/-- The front of a list of which everything satisfies a condition, up to the first item
that does not. -/
theorem exists_span (holds : α → Prop) [DecidablePred holds] (items : List α) :
    ∃ near far, items = near ++ far ∧ (∀ item ∈ near, holds item) ∧
      ∀ item ∈ far.head?, ¬ holds item := by
  refine ⟨items.takeWhile (decide <| holds ·), items.dropWhile (decide <| holds ·),
    List.takeWhile_append_dropWhile.symm, ?_, ?_⟩
  · intro item member
    simpa using List.mem_takeWhile_imp member
  · intro item isHead
    have stops := List.head?_dropWhile_not (decide <| holds ·) items
    rw [Option.mem_def.1 isHead] at stops
    simpa using stops

end Lists

/-! ## Dividing a chain -/

/-- An operator of a chain with the operand behind it. -/
structure Link (α : Type) where
  op : BinaryOp
  operand : α
deriving Repr, DecidableEq

section Chains

variable {α : Type} {level : FallbackLevel} {links before behind : List (Link α)} {link : Link α}

/-- The power of the loosest operators of a chain, if it has operators. -/
def loosest (level : FallbackLevel) (links : List (Link α)) : Option Power :=
  (links.map fun link => link.op.power level).argmin Power.rank

/-- Divides a chain at one of its loosest operators: at the first one of those that
group to the right, and at the last one of the others.  Multiplication goes before
division, although both bind equally tight. -/
def divide (level : FallbackLevel) (links : List (Link α)) :
    Option (List (Link α) × Link α × List (Link α)) :=
  match loosest level links with
  | none => none
  | some power =>
    let candidate (link : Link α) : Bool := link.op.power level = power
    match power with
    | .implication | .update | .concat => divideFirst candidate links
    | .multiplicative =>
      (divideFirst (fun link => link.op = .mul) links).or
        (divideLast (fun link => link.op = .div) links)
    | _ => divideLast candidate links

theorem loosest_none (absent : loosest level links = none) : links = [] := by
  simpa [loosest, List.argmin_eq_none] using absent

theorem loosest_some {power : Power} (found : loosest level links = some power) :
    (∃ link ∈ links, link.op.power level = power) ∧
      ∀ link ∈ links, power.rank ≤ (link.op.power level).rank := by
  refine ⟨?_, ?_⟩
  · obtain ⟨link, member, same⟩ := List.mem_map.1 (List.argmin_mem found)
    exact ⟨link, member, same⟩
  · intro link member
    have listed : link.op.power level ∈ links.map fun link => link.op.power level :=
      List.mem_map_of_mem member
    exact List.le_of_mem_argmin listed found

/-- Where the tree of a chain has its root: what stands behind the operator lies in
its right operand, and it lies in no right operand itself. -/
structure IsRoot (level : FallbackLevel) (before : List (Link α)) (op : BinaryOp)
    (behind : List (Link α)) : Prop where
  outside : ∀ other ∈ before, ¬ other.op.Encloses level op
  inside : ∀ other ∈ behind, op.Encloses level other.op

/-- An operator of the loosest power is the root if none in front of it groups to the
right, and if it does so itself or is the last one. -/
theorem IsRoot.of_loosest (whole : links = before ++ link :: behind)
    (least : ∀ other ∈ links, (link.op.power level).rank ≤ (other.op.power level).rank)
    (outside : ∀ other ∈ before, other.op.power level = link.op.power level →
      other.op.groupsRight = false)
    (inside : link.op.groupsRight = true ∨
      ∀ other ∈ behind, other.op.power level ≠ link.op.power level) :
    IsRoot level before link.op behind := by
  rw [whole] at least
  constructor
  · rintro other member (tighter | ⟨same, right⟩)
    · have bound := least other (List.mem_append_left _ member)
      exact absurd tighter (Nat.not_lt.2 bound)
    · rw [outside other member same] at right
      cases right
  · intro other member
    have bound := least other (List.mem_append_right _ (List.mem_cons_of_mem _ member))
    rcases Nat.lt_or_eq_of_le bound with tighter | same
    · exact .inl tighter
    · have same := Power.rank_injective same
      rcases inside with right | differs
      · exact .inr ⟨same, right⟩
      · exact absurd same.symm (differs other member)

theorem BinaryOp.groupsRight_iff {op : BinaryOp} :
    op.groupsRight = true ↔
      op.power level ∈ [.implication, .update, .concat] ∨ op = .mul := by
  cases level <;> cases op <;> decide

theorem BinaryOp.power_multiplicative {op : BinaryOp} :
    op.power level = .multiplicative ↔ op = .mul ∨ op = .div := by
  cases level <;> cases op <;> decide

section Roots

variable {power : Power}

/-- The first of operators that group to the right. -/
theorem divideFirst_root (least : ∀ other ∈ links, power.rank ≤ (other.op.power level).rank)
    (right : power ∈ [.implication, .update, .concat])
    (found : divideFirst (fun link => decide (link.op.power level = power)) links =
      some (before, link, behind)) :
    links = before ++ link :: behind ∧ IsRoot level before link.op behind := by
  obtain ⟨whole, same, others⟩ := divideFirst_some found
  simp only [decide_eq_true_eq, decide_eq_false_iff_not] at same others
  subst same
  refine ⟨whole, .of_loosest whole least (fun other member equal => ?_) (.inl ?_)⟩
  · exact absurd equal (others other member)
  · exact BinaryOp.groupsRight_iff.2 (.inl right)

/-- The first multiplication.  Division groups to the left. -/
theorem divideFirst_root_mul
    (least : ∀ other ∈ links, Power.multiplicative.rank ≤ (other.op.power level).rank)
    (found : divideFirst (fun link => decide (link.op = .mul)) links =
      some (before, link, behind)) :
    links = before ++ link :: behind ∧ IsRoot level before link.op behind := by
  obtain ⟨whole, same, others⟩ := divideFirst_some found
  simp only [decide_eq_true_eq, decide_eq_false_iff_not] at same others
  have power : link.op.power level = .multiplicative :=
    BinaryOp.power_multiplicative.2 (.inl same)
  refine ⟨whole, .of_loosest whole (power ▸ least) (fun other member equal => ?_)
    (.inl (by rw [same]; rfl))⟩
  rcases BinaryOp.power_multiplicative.1 (equal.trans power) with mul | div
  · exact absurd mul (others other member)
  · rw [div]
    rfl

/-- The last division, where there is no multiplication. -/
theorem divideLast_root_div
    (least : ∀ other ∈ links, Power.multiplicative.rank ≤ (other.op.power level).rank)
    (absent : ∀ other ∈ links, other.op ≠ .mul)
    (found : divideLast (fun link => decide (link.op = .div)) links =
      some (before, link, behind)) :
    links = before ++ link :: behind ∧ IsRoot level before link.op behind := by
  obtain ⟨whole, same, others⟩ := divideLast_some found
  simp only [decide_eq_true_eq, decide_eq_false_iff_not] at same others
  have power : link.op.power level = .multiplicative :=
    BinaryOp.power_multiplicative.2 (.inr same)
  have is_div (other : Link α) (member : other ∈ links)
      (equal : other.op.power level = link.op.power level) : other.op = .div :=
    (BinaryOp.power_multiplicative.1 (equal.trans power)).resolve_left (absent other member)
  refine ⟨whole, .of_loosest whole (power ▸ least) (fun other member equal => ?_)
    (.inr fun other member equal => ?_)⟩
  · rw [is_div other (whole ▸ List.mem_append_left _ member) equal]
    rfl
  · have listed : other ∈ links :=
      whole ▸ List.mem_append_right _ (List.mem_cons_of_mem _ member)
    exact others other member (is_div other listed equal)

/-- The last of operators that group to the left. -/
theorem divideLast_root (least : ∀ other ∈ links, power.rank ≤ (other.op.power level).rank)
    (left : power ∉ [.implication, .update, .concat, .multiplicative])
    (found : divideLast (fun link => decide (link.op.power level = power)) links =
      some (before, link, behind)) :
    links = before ++ link :: behind ∧ IsRoot level before link.op behind := by
  obtain ⟨whole, same, others⟩ := divideLast_some found
  simp only [decide_eq_true_eq, decide_eq_false_iff_not] at same others
  subst same
  refine ⟨whole, .of_loosest whole least (fun other _ equal => ?_) (.inr others)⟩
  refine Bool.eq_false_iff.2 fun right => left ?_
  rw [← equal]
  rcases BinaryOp.groupsRight_iff.1 right with listed | mul
  · have more : [Power.implication, .update, .concat] ⊆
        [.implication, .update, .concat, .multiplicative] := by
      decide
    exact more listed
  · rw [BinaryOp.power_multiplicative.2 (.inl mul)]
    decide

end Roots

/-- A chain is divided at the root of its tree. -/
theorem divide_some (found : divide level links = some (before, link, behind)) :
    links = before ++ link :: behind ∧ IsRoot level before link.op behind := by
  unfold divide at found
  split at found
  · cases found
  next power loosest =>
  obtain ⟨-, least⟩ := loosest_some loosest
  split at found
  · exact divideFirst_root least (by decide) found
  · exact divideFirst_root least (by decide) found
  · exact divideFirst_root least (by decide) found
  · rcases Option.or_eq_some_iff.1 found with found | ⟨absent, found⟩
    · exact divideFirst_root_mul least found
    · have absent := divideFirst_none absent
      simp only [decide_eq_false_iff_not] at absent
      exact divideLast_root_div least absent found
  · next not_implication not_update not_concat not_multiplicative =>
      refine divideLast_root least ?_ found
      simp only [List.mem_cons, List.not_mem_nil, or_false, not_or]
      exact ⟨not_implication, not_update, not_concat, not_multiplicative⟩

/-- Every chain with operators is divided. -/
theorem divide_none (absent : divide level links = none) : links = [] := by
  unfold divide at absent
  split at absent
  · next none_loosest => exact loosest_none none_loosest
  next power least =>
  obtain ⟨⟨link, member, same⟩, -⟩ := loosest_some least
  have candidate : decide (link.op.power level = power) = true := decide_eq_true same
  split at absent
  · rw [divideFirst_none absent link member] at candidate
    cases candidate
  · rw [divideFirst_none absent link member] at candidate
    cases candidate
  · rw [divideFirst_none absent link member] at candidate
    cases candidate
  · obtain ⟨no_mul, no_div⟩ := Option.or_eq_none_iff.1 absent
    rcases BinaryOp.power_multiplicative.1 same with mul | div
    · exact absurd mul (of_decide_eq_false (divideFirst_none no_mul link member))
    · exact absurd div (of_decide_eq_false (divideLast_none no_div link member))
  · rw [divideLast_none absent link member] at candidate
    cases candidate

/-- A chain has no two roots. -/
theorem IsRoot.unique {before' behind' : List (Link α)} {link' : Link α}
    (root : IsRoot level before link.op behind) (root' : IsRoot level before' link'.op behind')
    (same : before ++ link :: behind = before' ++ link' :: behind') :
    before = before' ∧ link = link' ∧ behind = behind' := by
  rcases List.append_eq_append_iff.1 same with ⟨between, rfl, rest⟩ | ⟨between, rfl, rest⟩
  · cases between with
    | nil => exact ⟨(List.append_nil _).symm, List.cons.inj rest⟩
    | cons other between =>
        obtain ⟨rfl, rfl⟩ := List.cons.inj rest
        exact absurd (root.inside link' (by simp)) (root'.outside link (by simp))
  · cases between with
    | nil =>
        obtain ⟨link_eq, behind_eq⟩ := List.cons.inj rest
        exact ⟨List.append_nil _, link_eq.symm, behind_eq.symm⟩
    | cons other between =>
        obtain ⟨rfl, rfl⟩ := List.cons.inj rest
        exact absurd (root'.inside link (by simp)) (root.outside link' (by simp))

/-- No operator of a chain is looser than the root. -/
theorem IsRoot.least (root : IsRoot level before link.op behind) :
    ∀ other ∈ before ++ link :: behind,
      (link.op.power level).rank ≤ (other.op.power level).rank := by
  intro other member
  rcases List.mem_append.1 member with front | rest
  · exact BinaryOp.le_of_not_encloses (root.outside other front)
  · rcases List.mem_cons.1 rest with rfl | back
    · exact Nat.le_refl _
    · exact (root.inside other back).le

/-- A chain is divided where its root is. -/
theorem divide_root (root : IsRoot level before link.op behind) :
    divide level (before ++ link :: behind) = some (before, link, behind) := by
  cases found : divide level (before ++ link :: behind) with
  | none => exact absurd (divide_none found) (by simp)
  | some division =>
      obtain ⟨before', link', behind'⟩ := division
      obtain ⟨whole, root'⟩ := divide_some found
      obtain ⟨rfl, rfl, rfl⟩ := root.unique root' whole
      rfl

end Chains

/-! ## The tree of a chain -/

/-- Two or more operators of a power that cannot be chained. -/
def Chained {α : Type} (level : FallbackLevel) (op : BinaryOp) (links : List (Link α)) : Prop :=
  (op.power level).isNonAssociative = true ∧
    1 < links.countP fun link => link.op.power level = op.power level

instance {α : Type} (level : FallbackLevel) (op : BinaryOp) (links : List (Link α)) :
    Decidable (Chained level op links) :=
  inferInstanceAs (Decidable (_ ∧ _))

/-- The tree of a chain that starts with the given operand.  There is none if an
operand has none, or if comparisons are chained in the chain or in one of the
chains into which it is divided. -/
def prescribe (level : FallbackLevel) (first : Option Expr) (links : List (Link (Option Expr))) :
    Option Expr :=
  match _found : divide level links with
  | none => first
  | some (before, link, behind) =>
    if Chained level link.op links then none
    else do
      let left ← prescribe level first before
      let right ← prescribe level link.operand behind
      return .bare (.binary link.op left right)
termination_by links.length
decreasing_by
  all_goals
    rw [(divide_some _found).1, List.length_append, List.length_cons]
    omega

section Trees

variable {level : FallbackLevel} {first : Option Expr} {left : Expr} {op : BinaryOp}
  {operand : Option Expr} {before behind near far : List (Link (Option Expr))}
  {link : Link (Option Expr)}

@[simp] theorem prescribe_nil (first : Option Expr) : prescribe level first [] = first := by
  rw [prescribe]
  rfl

/-- The tree of a chain from the root. -/
theorem prescribe_root (first : Option Expr) (root : IsRoot level before link.op behind) :
    prescribe level first (before ++ link :: behind) =
      if Chained level link.op (before ++ link :: behind) then none
      else do
        let left ← prescribe level first before
        let right ← prescribe level link.operand behind
        return .bare (.binary link.op left right) := by
  rw [prescribe]
  split
  · next absent => exact absurd (divide_none absent) (by simp)
  · next found =>
      rw [divide_root root] at found
      cases found
      rfl

/-- Without its first operand a chain has no tree. -/
theorem prescribe_none (links : List (Link (Option Expr))) : prescribe level none links = none := by
  induction size : links.length using Nat.strong_induction_on generalizing links with
  | _ size ih =>
  subst size
  cases found : divide level links with
  | none =>
      rw [divide_none found]
      exact prescribe_nil none
  | some division =>
      obtain ⟨before, link, behind⟩ := division
      obtain ⟨rfl, root⟩ := divide_some found
      have front : prescribe level none before = none := by
        apply ih before.length _ before rfl
        rw [List.length_append, List.length_cons]
        omega
      rw [prescribe_root none root, front]
      exact ite_self none

theorem prescribe_eq_bind (first : Option Expr) (links : List (Link (Option Expr))) :
    prescribe level first links = first.bind fun left => prescribe level (some left) links := by
  cases first with
  | none => exact prescribe_none links
  | some left => rfl

/-- Nothing that an operator takes into its operand is as loose as what ends the
operand. -/
theorem countP_near {power : Power} (tighter : ∀ link ∈ near, op.Encloses level link.op)
    (loose : ¬ op.operandPower level < power) :
    near.countP (fun link => link.op.power level = power) = 0 := by
  rw [List.countP_eq_zero]
  intro link member same
  apply loose
  rw [← of_decide_eq_true same]
  exact BinaryOp.operandPower_lt.2 (tighter link member)

/-- The first operator is the root if everything behind it belongs to its operand. -/
theorem prescribe_near (tighter : ∀ link ∈ near, op.Encloses level link.op) :
    prescribe level (some left) (⟨op, operand⟩ :: near) =
      (prescribe level operand near).map fun right => .bare (.binary op left right) := by
  have single : ¬ Chained level op (⟨op, operand⟩ :: near) := by
    rintro ⟨alone, several⟩
    have others : near.countP (fun link => link.op.power level = op.power level) = 0 := by
      apply countP_near tighter
      rw [BinaryOp.operandPower_of_nonAssociative alone]
      exact Nat.lt_irrefl _
    rw [List.countP_cons, others] at several
    simp at several
  have root : IsRoot level [] (Link.mk op operand).op near := ⟨nofun, tighter⟩
  have whole := prescribe_root (some left) root
  rw [List.nil_append, if_neg single, prescribe_nil] at whole
  rw [whole]
  cases prescribe level operand near <;> rfl

/-- An operator that cannot be chained stands in front of one of its power. -/
def Collides (level : FallbackLevel) (op : BinaryOp) (links : List (Link (Option Expr))) : Prop :=
  (op.power level).isNonAssociative = true ∧
    ∃ link ∈ links.head?, link.op.power level = op.power level

instance (level : FallbackLevel) (op : BinaryOp) (links : List (Link (Option Expr))) :
    Decidable (Collides level op links) :=
  inferInstanceAs (Decidable (_ ∧ _))

/-- The operand of the first operator ends in front of the root. -/
theorem IsRoot.loose (root : IsRoot level before link.op behind)
    (looser : ∀ other ∈ (before ++ link :: behind).head?, ¬ op.Encloses level other.op) :
    ¬ op.operandPower level < link.op.power level := by
  obtain ⟨other, isHead⟩ : ∃ other, (before ++ link :: behind).head? = some other := by
    cases before <;> exact ⟨_, rfl⟩
  intro tighter
  apply looser other isHead
  apply BinaryOp.operandPower_lt.1
  exact Nat.lt_of_lt_of_le tighter (root.least other (List.mem_of_mem_head? isHead))

/-- The root stays where it is if a looser operator or an equal one that does not
group to the right comes in front, along with its operand. -/
theorem IsRoot.cons (root : IsRoot level before link.op behind)
    (tighter : ∀ link ∈ near, op.Encloses level link.op)
    (loose : ¬ op.operandPower level < link.op.power level) :
    IsRoot level (⟨op, operand⟩ :: (near ++ before)) link.op behind := by
  refine ⟨?_, root.inside⟩
  intro other member
  rcases List.mem_cons.1 member with rfl | member
  · exact fun encloses => loose (BinaryOp.operandPower_lt.2 encloses)
  · rcases List.mem_append.1 member with inside | front
    · intro encloses
      exact loose (Nat.lt_of_lt_of_le (BinaryOp.operandPower_lt.2 (tighter other inside))
        encloses.le)
    · exact root.outside other front

/-- A chain with a new operator in front is chained at its root if it was so before, or
if the operator is of the same power. -/
theorem chained_cons (member : link ∈ far) (tighter : ∀ link ∈ near, op.Encloses level link.op)
    (loose : ¬ op.operandPower level < link.op.power level) :
    Chained level link.op (⟨op, operand⟩ :: (near ++ far)) ↔
      Chained level link.op far ∨
        ((op.power level).isNonAssociative = true ∧ link.op.power level = op.power level) := by
  have present : 0 < far.countP (fun other => other.op.power level = link.op.power level) :=
    List.countP_pos_iff.2 ⟨link, member, decide_eq_true rfl⟩
  unfold Chained
  rw [List.countP_cons, List.countP_append, countP_near tighter loose]
  by_cases same : link.op.power level = op.power level
  · rw [same] at present ⊢
    simp only [decide_true, if_true, and_true]
    constructor
    · exact fun both => .inr both.1
    · rintro (⟨alone, -⟩ | alone) <;> exact ⟨alone, by omega⟩
  · simp [same, Ne.symm same]

/-- An operator collides with the head of a chain, which is the root or stands in front
of it. -/
theorem collides_append (root : IsRoot level before link.op behind)
    (looser : ∀ other ∈ (before ++ link :: behind).head?, ¬ op.Encloses level other.op) :
    Collides level op (before ++ link :: behind) ↔
      Collides level op before ∨
        ((op.power level).isNonAssociative = true ∧ link.op.power level = op.power level) := by
  cases before with
  | nil => simp [Collides]
  | cons other before =>
      have head : Collides level op (other :: before ++ link :: behind) ↔
          Collides level op (other :: before) :=
        Iff.rfl
      rw [head, or_iff_left_of_imp]
      rintro ⟨alone, same⟩
      -- The head lies between the root and the operand that ends there.
      have above := root.least other (by simp)
      have below := looser other rfl
      rw [← BinaryOp.operandPower_lt, BinaryOp.operandPower_of_nonAssociative alone] at below
      rw [same] at above
      have level := Nat.le_antisymm (Nat.le_of_not_lt below) above
      exact ⟨alone, other, rfl, Power.rank_injective level⟩

/-- The first operator takes what it encloses into its operand, and the chain goes on
with the two operands joined to one. -/
theorem prescribe_cons (tighter : ∀ link ∈ near, op.Encloses level link.op)
    (looser : ∀ link ∈ far.head?, ¬ op.Encloses level link.op) :
    prescribe level (some left) (⟨op, operand⟩ :: (near ++ far)) =
      (prescribe level operand near).bind fun right =>
        if Collides level op far then none
        else prescribe level (some (.bare (.binary op left right))) far := by
  induction size : far.length using Nat.strong_induction_on generalizing far with
  | _ size ih =>
  subst size
  cases found : divide level far with
  | none =>
      obtain rfl := divide_none found
      have free : ¬ Collides level op [] := by rintro ⟨-, link, ⟨⟩, -⟩
      rw [List.append_nil, prescribe_near tighter]
      simp only [if_neg free, prescribe_nil]
      cases prescribe level operand near <;> rfl
  | some division =>
      obtain ⟨before, link, behind⟩ := division
      obtain ⟨rfl, root⟩ := divide_some found
      have loose := root.loose looser
      have shorter : before.length < (before ++ link :: behind).length := by
        rw [List.length_append, List.length_cons]
        omega
      have heads : ∀ other ∈ before.head?, ¬ op.Encloses level other.op := by
        intro other isHead
        apply looser other
        rw [List.head?_append, isHead]
        rfl
      have front := ih before.length shorter heads rfl
      have rootBehind : IsRoot level (⟨op, operand⟩ :: (near ++ before)) link.op behind :=
        root.cons tighter loose
      have whole := prescribe_root (some left) rootBehind
      rw [List.cons_append, List.append_assoc, front] at whole
      rw [whole]
      simp only [prescribe_root _ root,
        chained_cons (List.mem_append_right before List.mem_cons_self) tighter loose,
        collides_append root looser]
      by_cases same : (op.power level).isNonAssociative = true ∧
          link.op.power level = op.power level
      · simp [same]
      by_cases chained : Chained level link.op (before ++ link :: behind)
      · simp [chained]
      cases prescribe level operand near with
      | none => simp
      | some right =>
        by_cases collides : Collides level op before <;> simp [same, chained, collides]

end Trees

end NixSyntax
