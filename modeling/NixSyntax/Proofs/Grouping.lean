/-
Module: NixSyntax.Proofs.Grouping
Purpose: Where the printed text keeps the operands of an operator together.
Main exports: Form.KeepsGrouping, Expr.operandPower_lt_tight, Expr.startsWithNot_continues,
  Expr.groupsLeft_continues
-/
import NixSyntax.Proofs.Precedence
import NixSyntax.Proofs.Rows

namespace NixSyntax

/-!
Whether an operand is put in parentheses is decided by its outermost operator
alone.  That is enough unless a `!` stands behind a dash, or a place is not asked
at all: elements of lists and right operands are written as they are.  What is
asked of a form here is what the printer leaves open.
-/

/-- The expression is written as a selection. -/
def Expr.IsSelection (value : Expr) : Prop :=
  value.clauses = [] ∧ value.form.isSelect

/-- A form whose text keeps its operands apart from what is behind them.  The
operand of a `!` behind a dash would take elements, arguments and operators along,
and so would that of a `!` in a list.  Where `or` is as tight as a selection, a
selection on its right would be made from the whole. -/
def Form.KeepsGrouping (level : FallbackLevel) : Form → Prop
  | .list elements _ => Expr.Apart elements
  | .apply function _ => function.hangs → function.startsWithNot
  | .hasAttr subject _ => subject.hangs → subject.startsWithNot
  | .binary op left right =>
    (op ∈ [.add, .sub, .mul, .div, .concat] → left.hangs → left.startsWithNot) ∧
      (level = .select → op = .fallback → ¬ right.IsSelection)
  | _ => True

namespace Form

variable {form : Form}

theorem fit_eq_selected (same : form.fit = .selected) : form.isSelect := by
  fun_cases fit form <;> simp_all [fit, isSelect]

end Form

namespace Expr

variable {level : FallbackLevel} {value : Expr}

theorem fit_form {fit : Fit} (other : fit ≠ .closed) (same : value.fit = fit) :
    value.clauses = [] ∧ value.form.fit = fit := by
  unfold Expr.fit at same
  split at same
  · next bare => exact ⟨List.isEmpty_iff.1 bare, same⟩
  · exact absurd same.symm other

/-- An operator takes a whole operand on its right. -/
theorem operandPower_lt_tight {op : BinaryOp}
    (other : level = .select → op = .fallback → ¬ value.IsSelection) :
    op.operandPower level < value.fit.tight := by
  have known : ∀ fit : Fit, (fit = .selected → ¬ (level = .select ∧ op = .fallback)) →
      op.operandPower level < fit.tight := by
    intro fit
    cases level <;> cases op <;> cases fit <;> decide
  apply known
  rintro same ⟨select, fallback⟩
  obtain ⟨bare, selection⟩ := fit_form (by decide) same
  exact other select fallback ⟨bare, Form.fit_eq_selected selection⟩

/-- In parentheses where it starts with `!`, an expression ends in no operand of one,
so little would continue it. -/
theorem startsWithNot_continues (keeps : value.hangs → value.startsWithNot) :
    (if value.startsWithNot then Fit.closed else value.fit).continues ⊆
      [.dot, .colon, .atSign, .kwOr] := by
  apply Fit.continues_subset
  by_cases starts : value.startsWithNot
  · simp [starts]
  · rw [if_neg starts, ← hangs_iff]
    exact mt keeps starts

/-- An operator goes on with what the printer writes on its left. -/
theorem groupsLeft_continues {op : BinaryOp}
    (keeps : op ∈ [.add, .sub, .mul, .div, .concat] → value.hangs → value.startsWithNot) :
    op.kind ∉ (if op.groupsLeft value then Fit.closed else value.fit).continues := by
  intro listed
  cases op with
  | fallback => exact absurd ((Fit.argument value.fit_argument).2 listed) (by decide)
  | add | sub | mul | div | concat =>
      exact absurd (startsWithNot_continues (keeps (by decide)) listed) (by decide)
  | _ =>
      revert listed
      simp only [BinaryOp.groupsLeft, Bool.false_eq_true, if_false]
      cases value.fit <;> decide

end Expr

end NixSyntax
