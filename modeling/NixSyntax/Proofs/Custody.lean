/-
Module: NixSyntax.Proofs.Custody
Purpose: Comments that are moved between tokens and nodes are neither lost nor copied, in
  whatever order the operations come.
Main exports: Desk.held, Desk.performAll, CommentAction.run_perm, Desk.perform_perm,
  Desk.performAll_perm
-/
import NixSyntax.Proofs.Ledger

namespace NixSyntax

/-!
A parse uses the operations in an order that its rules lay down.  Here they come
in any order, on tokens that need not be those of a text: a token may be read
twice, or its comments taken before it is read, and it may claim that more
comments are detached from it than it has.  One operation keeps all comments of
its token and all unclaimed ones, and so does any number of them.  Only their
order is not kept: comments that stand apart from a token are taken in front of
those that wait already.
-/

namespace CommentAction

/-- An operation on a token gives its comments back, or leaves them unclaimed or
on the token. -/
theorem run_perm (action : CommentAction) (unclaimed : Unclaimed) (token : Token) :
    ((action.run unclaimed token).1 ++ ((action.run unclaimed token).2.1.all ++
      (action.run unclaimed token).2.2.comments)).Perm (unclaimed.all ++ token.comments) := by
  cases action with
  | consume =>
      -- Only where the trailing comments wait depends on the kind of the token.
      by_cases keeps : token.kind.keepsTrailing = true <;>
        simp [run, Unclaimed.consume, keeps, Unclaimed.all, Token.comments]
  | «unclaimed» => simp [run, Unclaimed.all]
  | before => simp [run, Unclaimed.before, Unclaimed.all, Token.comments]
  | after =>
      by_cases follows : token.kind.isFollower = true <;>
        simp [run, Unclaimed.after, Unclaimed.before, follows, Unclaimed.all, Token.comments]
  | header =>
      have split : token.comments = token.leading.take token.detached ++
          (token.leading.drop token.detached ++ token.trailing) := by
        rw [← List.append_assoc, List.take_append_drop, Token.comments]
      rw [split]
      exact List.perm_append_comm_assoc _ _ _

end CommentAction

namespace Desk

/-- The comments on the tokens of a desk, and those that wait to be claimed. -/
def held (desk : Desk) : List Comment :=
  desk.unclaimed.all ++ desk.tokens.flatMap Token.comments

/-- Performs operations one after another, each with the token of its index.
The comments that each of them yields are listed in that order. -/
def performAll (desk : Desk) : List (CommentAction × Nat) → List (List Comment) × Desk
  | [] => ([], desk)
  | (action, index) :: calls =>
    let (comments, next) := desk.perform action index
    let (others, last) := next.performAll calls
    (comments :: others, last)

/-- The comments next to one of the tokens may be counted first. -/
theorem held_perm (unclaimed : Unclaimed) (front : List Token) (token : Token)
    (behind : List Token) :
    (Desk.mk unclaimed (front ++ token :: behind)).held.Perm
      (unclaimed.all ++ token.comments ++ (front ++ behind).flatMap Token.comments) := by
  rw [held, List.append_assoc, ← List.flatMap_cons]
  exact (List.perm_middle.flatMap_right _).append_left _

/-- The tokens in front of the index and behind it are left alone. -/
theorem perform_of_lt {desk : Desk} {action : CommentAction} {index : Nat}
    (inside : index < desk.tokens.length) :
    desk.perform action index =
      ((action.run desk.unclaimed desk.tokens[index]).1,
        { unclaimed := (action.run desk.unclaimed desk.tokens[index]).2.1
          tokens := desk.tokens.take index ++
            (action.run desk.unclaimed desk.tokens[index]).2.2 ::
              desk.tokens.drop (index + 1) }) := by
  rw [perform, List.getElem?_eq_getElem inside]
  dsimp only
  rw [List.set_eq_take_append_cons_drop, if_pos inside]

/-- No operation on one of the tokens loses a comment or copies one. -/
theorem perform_perm (desk : Desk) (action : CommentAction) (index : Nat) :
    ((desk.perform action index).1 ++ (desk.perform action index).2.held).Perm desk.held := by
  by_cases inside : index < desk.tokens.length
  · have whole : desk.tokens.take index ++ desk.tokens[index] :: desk.tokens.drop (index + 1) =
        desk.tokens := by
      rw [List.getElem_cons_drop inside, List.take_append_drop]
    have before : desk.held.Perm _ := whole ▸ held_perm desk.unclaimed (desk.tokens.take index)
      desk.tokens[index] (desk.tokens.drop (index + 1))
    have moved := action.run_perm desk.unclaimed desk.tokens[index]
    rw [perform_of_lt inside]
    refine .trans ?_ before.symm
    refine ((held_perm _ _ _ _).append_left _).trans ?_
    rw [← List.append_assoc]
    exact moved.append_right _
  · rw [perform, List.getElem?_eq_none (Nat.le_of_not_lt inside)]
    rfl

/-- From any desk on, operations keep what is held until they yield it. -/
theorem performAll_held (desk : Desk) (calls : List (CommentAction × Nat)) :
    ((desk.performAll calls).1.flatten ++ (desk.performAll calls).2.held).Perm desk.held := by
  induction calls generalizing desk with
  | nil => rfl
  | cons call calls ih =>
      have step := desk.perform_perm call.1 call.2
      have rest := ih (desk.perform call.1 call.2).2
      rw [performAll, List.flatten_cons, List.append_assoc]
      exact (rest.append_left _).trans step

/-- However the operations are ordered and wherever they stop, what they have
yielded, what waits to be claimed and what is still on the tokens are together
the comments that were on the tokens at first. -/
theorem performAll_perm (tokens : List Token) (calls : List (CommentAction × Nat)) :
    ((performAll { tokens } calls).1.flatten ++
      ((performAll { tokens } calls).2.unclaimed.all ++
        (performAll { tokens } calls).2.tokens.flatMap Token.comments)).Perm
      (tokens.flatMap Token.comments) :=
  performAll_held { tokens } calls

end Desk

end NixSyntax
